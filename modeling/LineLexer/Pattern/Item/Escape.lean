import LineLexer.Pattern.Item
import LineLexer.Text.Basic

/-!
# Escapes in pattern text

What may follow a backslash: the code point of a character, a named property or condition, or a
character that stands for itself.
-/

namespace LineLexer

namespace PatternItem

/-- The character that hexadecimal digits write. -/
def hexChar (ds : List Char) : Reading Char :=
  match hexNumber? ds with
  | some n => if n.isValidChar then .ok (Char.ofNat n) else .error .badCodePoint
  | none => .error .badCodePoint

/-- Reads the digits of a code point: in braces any number of them, otherwise `width`. -/
def readCodePoint (width : Nat) : List Char → Reading (Char × List Char)
  | '\x7b' :: cs =>
    match cs.dropWhile (· != '\x7d') with
    | _ :: rest => (hexChar (cs.takeWhile (· != '\x7d'))).map (·, rest)
    | [] => .error .badCodePoint
  | cs =>
    if cs.length < width then .error .badCodePoint
    else (hexChar (cs.take width)).map (·, cs.drop width)

/-- A character that stands for itself after a backslash: ASCII, but no letter, no digit and no
angle bracket. -/
def isEscapable (c : Char) : Bool :=
  c.toNat < 0x80 && !c.isAlphanum && c != '<' && c != '>'

/-- Reads what follows a backslash. -/
def readEscape : List Char → Reading (PatternItem × List Char)
  | [] => .error .finalBackslash
  | 'x' :: cs => (readCodePoint 2 cs).map fun (c, rest) => (.literal c, rest)
  | 'u' :: cs => (readCodePoint 4 cs).map fun (c, rest) => (.literal c, rest)
  | 'U' :: cs => (readCodePoint 8 cs).map fun (c, rest) => (.literal c, rest)
  | 'd' :: cs => .ok (.property .digit false, cs)
  | 'D' :: cs => .ok (.property .digit true, cs)
  | 's' :: cs => .ok (.property .blank false, cs)
  | 'S' :: cs => .ok (.property .blank true, cs)
  | 'w' :: cs => .ok (.property .word false, cs)
  | 'W' :: cs => .ok (.property .word true, cs)
  | 'a' :: cs => .ok (.literal '\x07', cs)
  | 'f' :: cs => .ok (.literal '\x0c', cs)
  | 't' :: cs => .ok (.literal '\t', cs)
  | 'n' :: cs => .ok (.literal '\n', cs)
  | 'r' :: cs => .ok (.literal '\r', cs)
  | 'v' :: cs => .ok (.literal '\x0b', cs)
  | 'A' :: cs => .ok (.look .textStart, cs)
  | 'z' :: cs => .ok (.look .textEnd, cs)
  | 'b' :: cs => .ok (.look .wordEdge, cs)
  | 'B' :: cs => .ok (.look .notWordEdge, cs)
  | c :: cs =>
    if c.isDigit then .error .backReference
    else if isEscapable c then .ok (.literal c, cs)
    else .error .unknownEscape

theorem readCodePoint_length {width : Nat} {cs rest : List Char} {c : Char}
    (h : readCodePoint width cs = .ok (c, rest)) : rest.length ≤ cs.length := by
  unfold readCodePoint at h
  split at h
  · rename_i cs
    split at h
    · rename_i d rest' hd
      obtain ⟨_, _, h⟩ := map_eq_ok h
      obtain ⟨-, rfl⟩ := Prod.mk.inj h
      have := length_dropWhile_le (· != '\x7d') cs
      rw [hd] at this
      simp only [List.length_cons] at this ⊢
      omega
    · simp at h
  · split at h
    · simp at h
    · obtain ⟨_, _, h⟩ := map_eq_ok h
      obtain ⟨-, rfl⟩ := Prod.mk.inj h
      simp

theorem readEscape_length {cs rest : List Char} {i : PatternItem}
    (h : readEscape cs = .ok (i, rest)) : rest.length < cs.length := by
  have point {w : Nat} {cs : List Char} (h : (readCodePoint w cs).map
      (fun (c, rest) => (PatternItem.literal c, rest)) = .ok (i, rest)) :
      rest.length ≤ cs.length := by
    obtain ⟨⟨c, rest'⟩, hc, h⟩ := map_eq_ok h
    obtain ⟨-, rfl⟩ := Prod.mk.inj h
    exact readCodePoint_length hc
  unfold readEscape at h
  split at h
  case h_2 | h_3 | h_4 => have := point h; simp only [List.length_cons]; omega
  case h_21 =>
    split at h
    · simp at h
    · split at h
      · obtain ⟨-, rfl⟩ := by simpa using h
        simp
      · simp at h
  all_goals
    first
    | (simp at h; done)
    | (obtain ⟨-, rfl⟩ := by simpa using h
       simp)

end PatternItem

end LineLexer
