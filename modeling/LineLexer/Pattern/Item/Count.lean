import LineLexer.Pattern.Item

/-!
# Repetitions in pattern text

A repetition gives the least and the greatest number of rounds.  A question mark after it makes
it lazy.
-/

namespace LineLexer

namespace PatternItem

/-- The largest repetition count. -/
def maxCount : Nat := 4294967295

/-- Reads a count, which may stand between white space. -/
def readCount (cs : List Char) : Reading (Nat × List Char) :=
  let cs := cs.dropWhile isBlank
  let digits := cs.takeWhile Char.isDigit
  let n := digits.foldl (fun n d => 10 * n + (d.toNat - '0'.toNat)) 0
  if digits.isEmpty || n > maxCount then .error .badCount
  else .ok (n, (cs.dropWhile Char.isDigit).dropWhile isBlank)

/-- Reads the limits of a repetition after the brace that opens them. -/
def readLimits (cs : List Char) : Reading ((Nat × Option Nat) × List Char) := do
  let (lo, rest) ← readCount cs
  match rest with
  | '\x7d' :: rest => return ((lo, some lo), rest)
  | ',' :: '\x7d' :: rest => return ((lo, none), rest)
  | ',' :: rest =>
    let (hi, rest) ← readCount rest
    match rest with
    | '\x7d' :: rest => if lo ≤ hi then return ((lo, some hi), rest) else throw .badCount
    | _ => throw .badCount
  | _ => throw .badCount

/-- A question mark after a repetition makes it lazy. -/
def readGreed (lo : Nat) (hi : Option Nat) : List Char → PatternItem × List Char
  | '?' :: cs => (.count lo hi false, cs)
  | cs => (.count lo hi true, cs)

theorem readCount_length {cs rest : List Char} {n : Nat}
    (h : readCount cs = .ok (n, rest)) : rest.length ≤ cs.length := by
  unfold readCount at h
  dsimp only at h
  split at h
  · simp at h
  · obtain ⟨-, rfl⟩ := by simpa using h
    exact Nat.le_trans (length_dropWhile_le _ _)
      (Nat.le_trans (length_dropWhile_le _ _) (length_dropWhile_le _ _))

theorem readLimits_length {cs rest : List Char} {l : Nat × Option Nat}
    (h : readLimits cs = .ok (l, rest)) : rest.length ≤ cs.length := by
  obtain ⟨⟨lo, rest'⟩, hlo, h⟩ := bind_eq_ok h
  have := readCount_length hlo
  dsimp only at h
  split at h
  · obtain ⟨-, rfl⟩ := by simpa [pure, Except.pure] using h
    simp only [List.length_cons] at this
    omega
  · obtain ⟨-, rfl⟩ := by simpa [pure, Except.pure] using h
    simp only [List.length_cons] at this
    omega
  · obtain ⟨⟨hi, rest''⟩, hhi, h⟩ := bind_eq_ok h
    have := readCount_length hhi
    dsimp only at h
    simp only [List.length_cons] at *
    split at h
    · split at h
      · obtain ⟨-, rfl⟩ := by simpa [pure, Except.pure] using h
        simp only [List.length_cons] at this
        omega
      · simp [throw, throwThe, MonadExceptOf.throw] at h
    · simp [throw, throwThe, MonadExceptOf.throw] at h
  · simp [throw, throwThe, MonadExceptOf.throw] at h

theorem readGreed_length (lo : Nat) (hi : Option Nat) (cs : List Char) :
    (readGreed lo hi cs).2.length ≤ cs.length := by
  unfold readGreed
  split <;> simp

end PatternItem

end LineLexer
