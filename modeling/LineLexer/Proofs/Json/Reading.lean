import Mathlib.Data.Nat.Basic
import LineLexer.Json.Reader
import LineLexer.Proofs.Json.Grammar
import LineLexer.Proofs.Text.Runs

/-!
# Reading JSON texts

Every text of the grammar is read as the value that it stands for (`Json.ofText?_of_isText`).  The
proof follows the grammar: a stretch of a text is split into tokens by itself, unless it is a number
and a digit follows (`Json.Reads`), and the tokens of a part take the reader over the part, whatever
is open around it (`Json.Part.Takes`).
-/

namespace LineLexer

/-! ### Strings -/

namespace JsonToken

open Json (CharText CharsText StringText)

theorem simpleEscape?_of_mem {e c : Char} (h : (e, c) ∈ Json.shortEscapes) :
    simpleEscape? e = some c := by
  have hall : ∀ p ∈ Json.shortEscapes, simpleEscape? p.1 = some p.2 := by
    simp [Json.shortEscapes, simpleEscape?]
  exact hall _ h

theorem ofNat_toNat_of_eq {c : Char} {n : Nat} (h : c.toNat = n) :
    n.isValidChar ∧ Char.ofNat n = c := by
  subst h
  exact ⟨c.valid, Char.ofNat_toNat c⟩

theorem readStringChar?_of_charText {c : Char} {text : List Char} (h : CharText c text)
    (rest : List Char) : readStringChar? (text ++ rest) = some (c, rest) := by
  cases h with
  | plain hc hquote hslash =>
    have hnot : ¬ (c.toNat < 0x20 ∨ c = '\\') := by
      rintro (hlt | heq)
      · omega
      · exact hslash heq
    rw [List.singleton_append, readStringChar?]
    · simp [hnot]
    · rintro _ _ _ _ _ rfl
      exact fun _ => hslash rfl
    · rintro _ _ rfl
      exact fun _ => hslash rfl
  | @short e h =>
    have hescape := simpleEscape?_of_mem h
    have hletter : e ≠ 'u' := by
      rintro rfl
      simp [simpleEscape?] at hescape
    simp [readStringChar?, hescape, hletter]
  | @code x y z w h =>
    -- a character is no half of a surrogate pair
    obtain ⟨hvalid, hchar⟩ := ofNat_toNat_of_eq (c := c) rfl
    have hhalf : ¬ (0xd800 ≤ c.toNat ∧ c.toNat < 0xdc00) := by
      rcases hvalid with hlt | hlt <;> omega
    simp [readStringChar?, h, hhalf, hvalid, hchar]
  | @pair x y z w x' y' z' w' high low hh hl hhigh hlow hc =>
    obtain ⟨-, hchar⟩ := ofNat_toNat_of_eq hc
    simp [readStringChar?, hh, hl, hhigh, hlow, pairChar?, hchar]

theorem exists_cons_of_charText {c : Char} {text : List Char} (h : CharText c text) :
    ∃ d rest, text = d :: rest ∧ d ≠ '"' := by
  cases h with
  | plain _ hquote _ => exact ⟨c, [], rfl, hquote⟩
  | short | code | pair => exact ⟨'\\', _, rfl, by decide⟩

theorem readString?_of_readStringChar? {c d : Char} {cs rest : List Char} (hd : d ≠ '"')
    (h : readStringChar? (d :: cs) = some (c, rest)) :
    readString? (d :: cs) = (readString? rest).map fun (s, rest) => (c :: s, rest) := by
  rw [readString?]
  · split
    · rename_i hnone
      rw [h] at hnone
      simp at hnone
    · rename_i c' rest' hsome
      obtain ⟨rfl, rfl⟩ := Prod.mk.inj (Option.some.inj (h.symm.trans hsome))
      rfl
  · intro rest' heq
    exact hd (List.cons.inj heq).1

/-- The characters of a string are read up to its closing quote. -/
theorem readString?_of_charsText {cs inner : List Char} (h : CharsText cs inner)
    (rest : List Char) : readString? (inner ++ '"' :: rest) = some (cs, rest) := by
  induction h with
  | nil => rw [List.nil_append, readString?]
  | @cons c cs text texts h _ ih =>
    obtain ⟨d, text', rfl, hd⟩ := exists_cons_of_charText h
    have hread := readStringChar?_of_charText h (texts ++ '"' :: rest)
    rw [List.append_assoc]
    rw [List.cons_append] at hread ⊢
    rw [readString?_of_readStringChar? hd hread, ih, Option.map_some]

/-! ### Tokens -/

theorem ofText?_of_read? {c : Char} {cs rest : List Char} {t : JsonToken}
    (hgap : isGap c = false) (h : read? c cs = some (t, rest)) :
    ofText? (c :: cs) = (ofText? rest).map (t :: ·) := by
  rw [ofText?, hgap, if_neg Bool.false_ne_true]
  split
  · rename_i hnone
    rw [h] at hnone
    simp at hnone
  · rename_i t' rest' hsome
    obtain ⟨rfl, rfl⟩ := Prod.mk.inj (Option.some.inj (h.symm.trans hsome))
    rfl

theorem ofText?_gap {gap : List Char} (h : Json.IsGap gap) (rest : List Char) :
    ofText? (gap ++ rest) = ofText? rest := by
  induction gap with
  | nil => rfl
  | cons c cs ih =>
    obtain ⟨hc, hcs⟩ := List.forall_mem_cons.1 h
    have hgap : isGap c := by
      have hall : ∀ c ∈ [' ', '\t', '\n', '\r'], isGap c := by simp [isGap]
      exact hall c hc
    rw [List.cons_append, ofText?, if_pos hgap, ih hcs]

/-! ### Numbers -/

/-- No number begins with a zero but zero itself. -/
theorem head?_toDigits_ne {n : Nat} (hn : n ≠ 0) : (Nat.toDigits 10 n).head? ≠ some '0' := by
  induction n using Nat.strongRecOn with
  | ind n ih =>
    by_cases hlt : n < 10
    · have hdigits : ∀ n < 10, n ≠ 0 → (Nat.toDigits 10 n).head? ≠ some '0' := by decide
      exact hdigits n hlt hn
    · have hfront := ih (n / 10) (by omega) (by omega)
      obtain ⟨d, ds, hds⟩ := List.exists_cons_of_ne_nil (Nat.toDigits_ne_nil (n := n / 10) (b := 10))
      rw [Nat.toDigits_of_base_le (by decide) (Nat.not_lt.1 hlt)]
      rw [hds] at hfront ⊢
      exact hfront

theorem read?_digit {c : Char} (hdigit : c.isDigit) (hzero : c ≠ '0') (cs : List Char) :
    read? c cs = some (.number (Nat.ofDigitChars 10 (c :: cs.takeWhile Char.isDigit) 0),
      cs.dropWhile Char.isDigit) := by
  unfold read?
  split
  case h_11 => exact absurd rfl hzero
  case h_12 =>
    rw [if_pos hdigit]
    rfl
  all_goals exact absurd hdigit (by decide)

/-- A number is read up to the first character that is no digit. -/
theorem ofText?_toDigits (n : Nat) {rest : List Char} (hrest : ∀ c ∈ rest.head?, c.isDigit = false) :
    ofText? (Nat.toDigits 10 n ++ rest) = (ofText? rest).map (.number n :: ·) := by
  by_cases hn : n = 0
  · subst hn
    exact ofText?_of_read? (by decide) rfl
  obtain ⟨c, cs, hcs⟩ := List.exists_cons_of_ne_nil (Nat.toDigits_ne_nil (n := n) (b := 10))
  have hdigits : ∀ d ∈ c :: cs, d.isDigit := by
    intro d hd
    rw [← hcs] at hd
    exact Nat.isDigit_of_mem_toDigits (by decide) (by decide) hd
  obtain ⟨hc, htail⟩ := List.forall_mem_cons.1 hdigits
  have hzero : c ≠ '0' := by
    rintro rfl
    exact head?_toDigits_ne hn (by rw [hcs, List.head?_cons])
  have hgap : isGap c = false := by
    rw [← Bool.not_eq_true]
    intro hgap
    simp only [isGap, Bool.or_eq_true, beq_iff_eq] at hgap
    rcases hgap with ((rfl | rfl) | rfl) | rfl <;> exact absurd hc (by decide)
  have hvalue : Nat.ofDigitChars 10 (c :: cs) 0 = n := by
    rw [← hcs, Nat.ofDigitChars_ten_toDigits]
  rw [hcs, List.cons_append]
  refine ofText?_of_read? hgap ?_
  rw [read?_digit hc hzero, takeWhile_run htail hrest, dropWhile_run htail hrest, hvalue]

end JsonToken

/-! ### Parts of a text -/

namespace Json

/-- No digit comes first. -/
def NoDigit (cs : List Char) : Prop := ∀ c ∈ cs.head?, c.isDigit = false

/-- The text makes the tokens, whatever follows it but a digit. -/
def Reads (cs : List Char) (ts : List JsonToken) : Prop :=
  ∀ rest, NoDigit rest → JsonToken.ofText? (cs ++ rest) = (JsonToken.ofText? rest).map (ts ++ ·)

variable {cs ds gap : List Char} {ts us : List JsonToken}

theorem NoDigit.append (h : NoDigit cs) (h' : NoDigit ds) : NoDigit (cs ++ ds) := by
  cases cs with
  | nil => exact h'
  | cons c cs => exact h

theorem noDigit_cons {c : Char} (h : c.isDigit = false) (cs : List Char) : NoDigit (c :: cs) := by
  intro d hd
  obtain rfl := Option.some.inj hd
  exact h

theorem IsGap.noDigit (h : IsGap gap) : NoDigit gap := by
  intro c hc
  have hall : ∀ c ∈ [' ', '\t', '\n', '\r'], c.isDigit = false := by simp [Char.isDigit]
  exact hall c (h c (List.mem_of_mem_head? hc))

theorem Reads.append (h : Reads cs ts) (h' : Reads ds us) (hd : NoDigit ds) :
    Reads (cs ++ ds) (ts ++ us) := by
  intro rest hrest
  rw [List.append_assoc, h _ (hd.append hrest), h' rest hrest, Option.map_map]
  simp [Function.comp_def]

theorem reads_gap (h : IsGap gap) : Reads gap [] := by
  intro rest _
  simp [JsonToken.ofText?_gap h]

theorem Reads.gap_append (hg : IsGap gap) (h : Reads cs ts) : Reads (gap ++ cs) ts := by
  intro rest hrest
  rw [List.append_assoc, JsonToken.ofText?_gap hg, h rest hrest]

/-- The character makes the token, whatever follows it. -/
structure IsSign (c : Char) (t : JsonToken) : Prop where
  notGap : JsonToken.isGap c = false
  notDigit : c.isDigit = false
  read : ∀ cs, JsonToken.read? c cs = some (t, cs)

theorem Reads.cons {c : Char} {t : JsonToken} (hc : IsSign c t) (h : Reads cs ts) :
    Reads (c :: cs) (t :: ts) := by
  intro rest hrest
  rw [List.cons_append, JsonToken.ofText?_of_read? hc.notGap (hc.read _), h rest hrest,
    Option.map_map]
  rfl

/-- A sign ends a number, too. -/
theorem Reads.append_cons {c : Char} {t : JsonToken} (h : Reads cs ts) (hc : IsSign c t)
    (h' : Reads ds us) : Reads (cs ++ c :: ds) (ts ++ t :: us) :=
  h.append (h'.cons hc) (noDigit_cons hc.notDigit ds)

theorem Reads.string_append {s : String} {text : List Char} (hs : StringText s text)
    (h : Reads cs ts) : Reads (text ++ cs) (.string s.toList :: ts) := by
  obtain ⟨inner, hinner, rfl⟩ := hs
  intro rest hrest
  have hread : JsonToken.read? '"' (inner ++ '"' :: (cs ++ rest)) =
      some (.string s.toList, cs ++ rest) := by
    rw [JsonToken.read?, JsonToken.readString?_of_charsText hinner]
    rfl
  have htext : '"' :: (inner ++ ['"']) ++ cs ++ rest = '"' :: (inner ++ '"' :: (cs ++ rest)) := by
    simp
  rw [htext, JsonToken.ofText?_of_read? (by decide) hread, h rest hrest, Option.map_map]
  rfl

theorem reads_number (n : Nat) : Reads (Nat.toDigits 10 n) [.number n] := by
  intro rest hrest
  exact JsonToken.ofText?_toDigits n hrest

theorem reads_nil : Reads [] [] := by
  intro rest _
  simp

/-- A token of several characters that is told by the first of them. -/
theorem reads_word {c : Char} {t : JsonToken} (hgap : JsonToken.isGap c = false)
    (hc : ∀ rest, JsonToken.read? c (cs ++ rest) = some (t, rest)) : Reads (c :: cs) [t] := by
  intro rest _
  exact JsonToken.ofText?_of_read? hgap (hc rest)

/-! ### The tokens of a part -/

open JsonReader (step put)

section

variable {r r' : JsonReader} {t : JsonToken}

theorem foldlM_cons_of_step (h : step r t = some r') :
    (t :: ts).foldlM step r = ts.foldlM step r' := by
  rw [List.foldlM_cons, h]
  rfl

theorem foldlM_append_of_eq_some (h : ts.foldlM step r = some r') :
    (ts ++ us).foldlM step r = us.foldlM step r' := by
  rw [List.foldlM_append, h]
  rfl

theorem foldlM_singleton : [t].foldlM step r = step r t := by
  rw [List.foldlM_cons]
  cases step r t <;> rfl

end

/-- The tokens take the reader over the part, wherever it is expected and whatever is open. -/
def Part.Takes (ts : List JsonToken) : Part → Prop
  | .value v | .element v => ∀ stack mayClose,
    ts.foldlM step ⟨stack, .value mayClose⟩ = put stack v
  | .elements vs => ∀ items stack mayClose,
    ts.foldlM step ⟨.array items :: stack, .value mayClose⟩ =
      some ⟨.array (vs.reverse ++ items) :: stack, .separator⟩
  | .member k v => ∀ members stack mayClose,
    ts.foldlM step ⟨.object members :: stack, .key mayClose⟩ =
      some ⟨.object ((k, v) :: members) :: stack, .separator⟩
  | .members ms => ∀ members stack mayClose,
    ts.foldlM step ⟨.object members :: stack, .key mayClose⟩ =
      some ⟨.object (ms.reverse ++ members) :: stack, .separator⟩

/-- A token that is a value is taken as this value. -/
theorem takes_token {v : Json} {t : JsonToken}
    (h : ∀ stack mayClose, step ⟨stack, .value mayClose⟩ t = put stack v) :
    (Part.value v).Takes [t] := by
  intro stack mayClose
  rw [foldlM_singleton, h]

theorem takes_array {vs : List Json} (h : (Part.elements vs).Takes ts) :
    (Part.value (.array vs)).Takes (.openArray :: (ts ++ [.closeArray])) := by
  intro stack mayClose
  have hopen : step ⟨stack, .value mayClose⟩ .openArray = some ⟨.array [] :: stack, .value true⟩ :=
    rfl
  rw [foldlM_cons_of_step hopen, foldlM_append_of_eq_some (h [] stack true), foldlM_singleton,
    List.append_nil]
  simp [step, JsonReader.closeArray]

theorem takes_object {ms : List (String × Json)} (h : (Part.members ms).Takes ts) :
    (Part.value (.object ms)).Takes (.openObject :: (ts ++ [.closeObject])) := by
  intro stack mayClose
  have hopen : step ⟨stack, .value mayClose⟩ .openObject = some ⟨.object [] :: stack, .key true⟩ :=
    rfl
  rw [foldlM_cons_of_step hopen, foldlM_append_of_eq_some (h [] stack true), foldlM_singleton,
    List.append_nil]
  simp [step, JsonReader.closeObject]

theorem takes_elements {v : Json} {vs : List Json} (h : (Part.element v).Takes ts)
    (hs : (Part.elements vs).Takes us) : (Part.elements (v :: vs)).Takes (ts ++ .comma :: us) := by
  intro items stack mayClose
  rw [foldlM_append_of_eq_some (h (.array items :: stack) mayClose), foldlM_cons_of_step rfl,
    hs (v :: items) stack false, List.reverse_cons, List.append_assoc, List.singleton_append]

theorem takes_member {k : String} {v : Json} (h : (Part.element v).Takes ts) :
    (Part.member k v).Takes (.string k.toList :: .colon :: ts) := by
  intro members stack mayClose
  have hkey : step ⟨.object members :: stack, .key mayClose⟩ (.string k.toList) =
      some ⟨.member members k :: stack, .colon⟩ := by
    simp [step]
  rw [foldlM_cons_of_step hkey, foldlM_cons_of_step rfl]
  exact h (.member members k :: stack) false

theorem takes_members {k : String} {v : Json} {ms : List (String × Json)}
    (h : (Part.member k v).Takes ts) (hs : (Part.members ms).Takes us) :
    (Part.members ((k, v) :: ms)).Takes (ts ++ .comma :: us) := by
  intro members stack mayClose
  rw [foldlM_append_of_eq_some (h members stack mayClose), foldlM_cons_of_step rfl,
    hs ((k, v) :: members) stack false, List.reverse_cons, List.append_assoc,
    List.singleton_append]

/-- **Every part of a text is split into tokens that take the reader over it.** -/
theorem exists_reads_of_written {p : Part} {text : List Char} (h : Written p text) :
    ∃ ts, Reads text ts ∧ p.Takes ts := by
  have hcomma : IsSign ',' .comma := ⟨rfl, rfl, fun _ => rfl⟩
  have hcolon : IsSign ':' .colon := ⟨rfl, rfl, fun _ => rfl⟩
  have hopenArray : IsSign '[' .openArray := ⟨rfl, rfl, fun _ => rfl⟩
  have hcloseArray : IsSign ']' .closeArray := ⟨rfl, rfl, fun _ => rfl⟩
  have hopenObject : IsSign '\x7b' .openObject := ⟨rfl, rfl, fun _ => rfl⟩
  have hcloseObject : IsSign '\x7d' .closeObject := ⟨rfl, rfl, fun _ => rfl⟩
  induction h with
  | null => exact ⟨_, reads_word rfl fun _ => rfl, takes_token fun _ _ => rfl⟩
  | true => exact ⟨_, reads_word rfl fun _ => rfl, takes_token fun _ _ => rfl⟩
  | false => exact ⟨_, reads_word rfl fun _ => rfl, takes_token fun _ _ => rfl⟩
  | number n => exact ⟨_, reads_number n, takes_token fun _ _ => rfl⟩
  | @string s text h =>
    refine ⟨[.string s.toList], ?_, takes_token fun _ _ => by simp [step]⟩
    simpa using reads_nil.string_append h
  | emptyArray h =>
    refine ⟨_, ((reads_gap h).append_cons hcloseArray reads_nil).cons hopenArray, ?_⟩
    intro stack mayClose
    rw [foldlM_cons_of_step rfl, List.nil_append, foldlM_singleton]
    rfl
  | array h ih =>
    obtain ⟨ts, hreads, htakes⟩ := ih
    exact ⟨_, (hreads.append_cons hcloseArray reads_nil).cons hopenArray, takes_array htakes⟩
  | emptyObject h =>
    refine ⟨_, ((reads_gap h).append_cons hcloseObject reads_nil).cons hopenObject, ?_⟩
    intro stack mayClose
    rw [foldlM_cons_of_step rfl, List.nil_append, foldlM_singleton]
    rfl
  | object h ih =>
    obtain ⟨ts, hreads, htakes⟩ := ih
    exact ⟨_, (hreads.append_cons hcloseObject reads_nil).cons hopenObject, takes_object htakes⟩
  | element hbefore h hafter ih =>
    obtain ⟨ts, hreads, htakes⟩ := ih
    refine ⟨ts, ?_, htakes⟩
    simpa using (hreads.append (reads_gap hafter) hafter.noDigit).gap_append hbefore
  | lastElement h ih =>
    obtain ⟨ts, hreads, htakes⟩ := ih
    exact ⟨ts, hreads, fun items stack mayClose => htakes (.array items :: stack) mayClose⟩
  | elements h hs ih ihs =>
    obtain ⟨ts, hreads, htakes⟩ := ih
    obtain ⟨us, hreads', htakes'⟩ := ihs
    exact ⟨_, hreads.append_cons hcomma hreads', takes_elements htakes htakes'⟩
  | member hbefore hkey hafter h ih =>
    obtain ⟨ts, hreads, htakes⟩ := ih
    refine ⟨_, ?_, takes_member htakes⟩
    exact (((hreads.cons hcolon).gap_append hafter).string_append hkey).gap_append hbefore
  | lastMember h ih =>
    obtain ⟨ts, hreads, htakes⟩ := ih
    exact ⟨ts, hreads, htakes⟩
  | members h hs ih ihs =>
    obtain ⟨ts, hreads, htakes⟩ := ih
    obtain ⟨us, hreads', htakes'⟩ := ihs
    exact ⟨_, hreads.append_cons hcomma hreads', takes_members htakes htakes'⟩

/-- **Every JSON text is read as the value that it stands for.** -/
theorem ofText?_of_isText {v : Json} {text : String} (h : IsText v text.toList) :
    ofText? text = some v := by
  obtain ⟨ts, hreads, htakes⟩ := exists_reads_of_written h
  have htokens : JsonToken.ofText? text.toList = some ts := by
    have := hreads [] (by simp [NoDigit])
    simpa [JsonToken.ofText?] using this
  have hreader : ts.foldlM step .initial = some ⟨[], .nothing v⟩ := htakes [] false
  rw [ofText?, htokens]
  simp [ofTokens?, hreader, JsonReader.finish]

/-- A text stands for one value at most. -/
theorem IsText.unique {v v' : Json} {text : List Char} (h : IsText v text) (h' : IsText v' text) :
    v = v' := by
  have hread {v : Json} (h : IsText v text) : ofText? (String.ofList text) = some v :=
    ofText?_of_isText (by rwa [String.toList_ofList])
  exact Option.some.inj ((hread h).symm.trans (hread h'))

end Json

end LineLexer
