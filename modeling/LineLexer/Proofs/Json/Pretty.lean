import LineLexer.Json.Writer
import LineLexer.Proofs.Json.Grammar

/-!
# Written values are JSON texts

`Json.pretty` writes texts of the grammar (`Json.isText_pretty`): every character of a string is
written in one of the ways that the grammar has for it, and of the layout nothing but white space
comes between the tokens.
-/

namespace LineLexer

namespace Json

/-! ### Strings -/

/-- The four digits of the code point of a control character. -/
theorem hexNumber?_control {n : Nat} (h : n < 0x20) :
    hexNumber? ['0', '0', Nat.digitChar (n / 16), Nat.digitChar (n % 16)] = some n := by
  have hall : ∀ n < 0x20,
      hexNumber? ['0', '0', Nat.digitChar (n / 16), Nat.digitChar (n % 16)] = some n := by decide
  exact hall n h

theorem charText_stringChar (c : Char) : CharText c (stringChar c) := by
  unfold stringChar
  split
  case isTrue h => exact .short (by subst h; decide)
  rename_i hquote
  split
  case isTrue h => exact .short (by subst h; decide)
  rename_i hslash
  -- the five control characters with a letter of their own
  iterate 5
    split
    case isTrue h => exact .short (by subst h; decide)
  split
  case isTrue hcontrol => exact .code (hexNumber?_control hcontrol)
  case isFalse hcontrol => exact .plain (Nat.not_lt.1 hcontrol) hquote hslash

theorem charsText_flatMap (cs : List Char) : CharsText cs (cs.flatMap stringChar) := by
  induction cs with
  | nil => exact .nil
  | cons c cs ih => exact .cons (charText_stringChar c) ih

theorem stringText_isText (s : String) : StringText s (stringText s) :=
  ⟨_, charsText_flatMap s.toList, rfl⟩

/-! ### Layout -/

theorem isGap_nil : IsGap [] := by decide

theorem isGap_blank : IsGap [' '] := by decide

theorem isGap_newline (depth : Nat) : IsGap (newline depth) := by
  intro c hc
  rcases List.mem_cons.1 hc with rfl | hc
  · decide
  · obtain rfl := List.eq_of_mem_replicate hc
    decide

/-- An element on a line of its own. -/
theorem Written.onLine {v : Json} {text after : List Char} (h : Written (.value v) text)
    (hafter : IsGap after) (depth : Nat) :
    Written (.element v) (newline depth ++ (text ++ after)) :=
  .element (isGap_newline depth) h hafter

/-- A member on a line of its own. -/
theorem Written.memberOnLine {v : Json} {text after : List Char} (h : Written (.value v) text)
    (hafter : IsGap after) (k : String) (depth : Nat) :
    Written (.member k v)
      (newline depth ++ (stringText k ++ ([] ++ ':' :: ([' '] ++ (text ++ after))))) :=
  .member (isGap_newline depth) (stringText_isText k) isGap_nil (.element isGap_blank h hafter)

/-! ### Values -/

mutual

theorem written_prettyAt (depth : Nat) : ∀ v, Written (.value v) (prettyAt depth v)
  | .null => .null
  | .bool true => .true
  | .bool false => .false
  | .number n => .number n
  | .string s => .string (stringText_isText s)
  | .array [] => .emptyArray isGap_nil
  | .array (v :: vs) => by
    have hitems := written_items (depth + 1) (isGap_newline depth) (written_prettyAt (depth + 1) v) vs
    simpa [prettyAt] using Written.array hitems
  | .object [] => .emptyObject isGap_nil
  | .object ((k, v) :: ms) => by
    have hmembers :=
      written_members (depth + 1) (isGap_newline depth) k (written_prettyAt (depth + 1) v) ms
    simpa [prettyAt] using Written.object hmembers

/-- The items after the first follow it with a comma and a new line each. -/
theorem written_items (depth : Nat) {v : Json} {text after : List Char} (hafter : IsGap after)
    (h : Written (.value v) text) : ∀ vs,
    Written (.elements (v :: vs)) (newline depth ++ (text ++ (prettyItems depth vs ++ after)))
  | [] => .lastElement (h.onLine hafter depth)
  | w :: ws => by
    have hrest := written_items depth hafter (written_prettyAt depth w) ws
    simpa [prettyItems] using Written.elements (h.onLine isGap_nil depth) hrest

/-- The members after the first follow it with a comma and a new line each. -/
theorem written_members (depth : Nat) {v : Json} {text after : List Char} (hafter : IsGap after)
    (k : String) (h : Written (.value v) text) : ∀ ms,
    Written (.members ((k, v) :: ms))
      (newline depth ++ (stringText k ++ ([':', ' '] ++ (text ++ (prettyMembers depth ms ++ after)))))
  | [] => .lastMember (h.memberOnLine hafter k depth)
  | (k', w) :: ms => by
    have hrest := written_members depth hafter k' (written_prettyAt depth w) ms
    simpa [prettyMembers] using Written.members (h.memberOnLine isGap_nil k depth) hrest

end

/-- **Written values are texts of the grammar.** -/
theorem isText_pretty (v : Json) : IsText v v.pretty.toList := by
  have hvalue := Written.element isGap_nil (written_prettyAt 0 v) isGap_nil
  rw [List.nil_append, List.append_nil] at hvalue
  rw [pretty, String.toList_ofList]
  exact hvalue

example : (Json.array [.string "\"\x01", .array []]).pretty =
    "[\n  \"\\\"\\u0001\",\n  []\n]" := by
  decide +kernel

end Json

end LineLexer
