import LineLexer.Lexicon
import LineLexer.Proofs.Outcome

/-!
# Valid vocabularies

A vocabulary is valid exactly if every list is filled, and filled with identifiers
(`Vocabulary.valid_iff`).  Putting longer words first neither loses nor adds words
(`Vocabulary.mem_longerFirst`) and leaves no longer word behind a shorter one
(`Vocabulary.pairwise_longerFirst`).
-/

namespace LineLexer

namespace Vocabulary

/-- **A vocabulary is valid if every list is filled, and filled with identifiers.** -/
theorem valid_iff {v : Vocabulary} :
    v.Valid ↔ ∀ c, v.words c ≠ [] ∧ ∀ w ∈ v.words c, isIdentifier w := by
  have hcheck (c : WordClass) : v.checkWords c = .ok () ↔
      v.words c ≠ [] ∧ ∀ w ∈ v.words c, isIdentifier w := by
    rw [checkWords]
    by_cases hempty : v.words c = []
    · simp [hempty]
    · cases hfind : (v.words c).find? fun w => !isIdentifier w with
      | none => simpa [hempty] using hfind
      | some w =>
        have hw := List.find?_some hfind
        have hmem := List.mem_of_find?_eq_some hfind
        simp only [List.isEmpty_iff, hempty, if_false, ne_eq, not_false_eq_true, true_and,
          reduceCtorEq, false_iff]
        intro hall
        simp [hall w hmem] at hw
  rw [Valid, validate, Outcome.forM_eq_ok_iff]
  simp only [hcheck]
  constructor
  · intro h c
    exact h c (by cases c <;> decide)
  · intro h c _
    exact h c

variable {v : Vocabulary}

theorem Valid.words_ne_nil (hv : v.Valid) (c : WordClass) : v.words c ≠ [] := (valid_iff.1 hv c).1

theorem Valid.isIdentifier {c : WordClass} {w : String} (hv : v.Valid) (hw : w ∈ v.words c) :
    isIdentifier w :=
  (valid_iff.1 hv c).2 w hw

/-! ### Longer words first -/

theorem mem_insertByLength {w x : List Char} {ws : List (List Char)} :
    x ∈ insertByLength w ws ↔ x = w ∨ x ∈ ws := by
  induction ws with
  | nil => simp [insertByLength]
  | cons y ys ih =>
    rw [insertByLength]
    split
    · simp
    · rw [List.mem_cons, ih, List.mem_cons]
      exact or_left_comm

theorem mem_longerFirst {x : List Char} {ws : List (List Char)} :
    x ∈ longerFirst ws ↔ x ∈ ws := by
  induction ws with
  | nil => rfl
  | cons w ws ih => rw [longerFirst, mem_insertByLength, ih, List.mem_cons]

theorem pairwise_insertByLength (w : List Char) {ws : List (List Char)}
    (h : ws.Pairwise fun x y => byteSize y ≤ byteSize x) :
    (insertByLength w ws).Pairwise fun x y => byteSize y ≤ byteSize x := by
  induction ws with
  | nil => exact List.pairwise_singleton _ w
  | cons x xs ih =>
    obtain ⟨hx, hxs⟩ := List.pairwise_cons.1 h
    rw [insertByLength]
    split
    · rename_i hle
      refine List.pairwise_cons.2 ⟨?_, h⟩
      intro y hy
      rcases List.mem_cons.1 hy with rfl | hy
      · exact hle
      · exact Nat.le_trans (hx y hy) hle
    · rename_i hlt
      refine List.pairwise_cons.2 ⟨?_, ih hxs⟩
      intro y hy
      rcases mem_insertByLength.1 hy with rfl | hy
      · exact Nat.le_of_lt (Nat.not_le.1 hlt)
      · exact hx y hy

theorem pairwise_longerFirst (ws : List (List Char)) :
    (longerFirst ws).Pairwise fun x y => byteSize y ≤ byteSize x := by
  induction ws with
  | nil => exact .nil
  | cons w ws ih => exact pairwise_insertByLength w ih

end Vocabulary

end LineLexer
