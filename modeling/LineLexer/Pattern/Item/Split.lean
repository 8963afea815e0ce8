import LineLexer.Pattern.Item.Count
import LineLexer.Pattern.Item.Opening
import LineLexer.Pattern.Item.Set

/-!
# Splitting pattern text into items

`PatternItem.items` gives the items of a text.  Every item takes at least one character, so the
splitting comes to an end.
-/

namespace LineLexer

namespace PatternItem

/-- Reads the item that begins with `c`. -/
def readItem (c : Char) (cs : List Char) : Reading (PatternItem × List Char) :=
  match c with
  | '\\' => readEscape cs
  | '[' => readSet cs
  | '(' => readOpening cs
  | ')' => .ok (.closing, cs)
  | '|' => .ok (.bar, cs)
  | '.' => .ok (.anyChar, cs)
  | '^' => .ok (.lineBegin, cs)
  | '$' => .ok (.lineStop, cs)
  | '*' => .ok (readGreed 0 none cs)
  | '+' => .ok (readGreed 1 none cs)
  | '?' => .ok (readGreed 0 (some 1) cs)
  | '\x7b' => (readLimits cs).map fun ((lo, hi), rest) => readGreed lo hi rest
  | c => .ok (.literal c, cs)

theorem readItem_length {c : Char} {cs rest : List Char} {i : PatternItem}
    (h : readItem c cs = .ok (i, rest)) : rest.length ≤ cs.length := by
  have greed {lo : Nat} {hi : Option Nat} (h : readGreed lo hi cs = (i, rest)) :
      rest.length ≤ cs.length := by
    have := readGreed_length lo hi cs
    rwa [h] at this
  unfold readItem at h
  split at h
  case h_1 => exact Nat.le_of_lt (readEscape_length h)
  case h_2 => exact readSet_length h
  case h_3 => exact readOpening_length h
  case h_9 | h_10 | h_11 => exact greed (by simpa using h)
  case h_12 =>
    obtain ⟨⟨⟨lo, hi⟩, rest'⟩, hl, h⟩ := map_eq_ok h
    have := readGreed_length lo hi rest'
    dsimp only at h
    rw [h] at this
    exact Nat.le_trans this (readLimits_length hl)
  all_goals
    obtain ⟨-, rfl⟩ := by simpa using h
    exact Nat.le_refl _

/-- The items of a text. -/
def items : List Char → Reading (List PatternItem)
  | [] => .ok []
  | c :: cs =>
    match _h : readItem c cs with
    | .error e => .error e
    | .ok (item, rest) => (items rest).map (item :: ·)
termination_by cs => cs.length
decreasing_by
  have := readItem_length _h
  simp only [List.length_cons]
  omega

end PatternItem

end LineLexer
