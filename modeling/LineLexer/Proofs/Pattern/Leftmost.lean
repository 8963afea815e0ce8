import LineLexer.Proofs.Pattern.Results

/-!
# The leftmost place

A search tries the places of a text from left to right and stops at the first one where the
pattern has a result (`Pattern.leftmost_of_find?`).
-/

namespace LineLexer

namespace Cursor

/-- The place in `text` after its first `n` characters. -/
def place (text : List Char) (n : Nat) : Cursor :=
  { before := (text.take n).getLast?, rest := text.drop n, left := (text.drop n).length,
    captures := [] }

variable {text : List Char} {n : Nat}

theorem left_place (h : n ≤ text.length) : text.length - (place text n).left = n := by
  have hlen : (place text n).left = text.length - n := List.length_drop
  omega

theorem exists_before_place (hpos : 0 < n) (h : n ≤ text.length) :
    ∃ c, (place text n).before = some c := by
  refine Option.ne_none_iff_exists'.1 ?_
  intro hnone
  have hnil := congrArg List.length (List.getLast?_eq_none_iff.1 hnone)
  simp only [List.length_take, List.length_nil] at hnil
  omega

theorem next?_place (h : n < text.length) :
    (place text n).next? = some (text[n], place text (n + 1)) := by
  have hdrop : (place text n).rest = text[n] :: text.drop (n + 1) := List.drop_eq_getElem_cons h
  have hlast : (text.take (n + 1)).getLast? = some text[n] := by
    rw [List.take_succ_eq_append_getElem h, List.getLast?_concat]
  unfold next?
  split
  · rename_i hnil
    exact absurd (hdrop.symm.trans hnil) (List.cons_ne_nil _ _)
  · rename_i c cs hcons
    obtain ⟨rfl, rfl⟩ := List.cons.inj (hdrop.symm.trans hcons)
    simp only [place, hlast, Option.some.injEq, Prod.mk.injEq, Cursor.mk.injEq, true_and, and_true]
    rw [List.length_drop, List.length_drop]
    omega

theorem next?_place_length (text : List Char) : (place text text.length).next? = none := by
  unfold next?
  split
  · rfl
  · rename_i hcons
    simp [place] at hcons

end Cursor

namespace Pattern

/-- The place `k` is the first one of `text`, from `n` on, at which the pattern has a result. -/
structure Leftmost (p : Pattern) (text : List Char) (n k : Nat) : Prop where
  le : n ≤ k
  le_length : k ≤ text.length
  found : p.results (.place text k) ≠ []
  skipped : ∀ i, n ≤ i → i < k → p.results (.place text i) = []

variable {p : Pattern} {text : List Char} {m : Match} {n : Nat}

theorem matchAt_eq_none_iff {total : Nat} {s : Cursor} :
    p.matchAt total s = none ↔ p.results s = [] := by
  rw [matchAt, Option.map_eq_none_iff, run_eq, List.findSome?_eq_none_iff]
  simp [List.eq_nil_iff_forall_not_mem]

theorem leftmost_of_matchAt (hn : n ≤ text.length)
    (h : p.matchAt text.length (.place text n) = some m) : p.Leftmost text n m.start := by
  obtain ⟨t, ht, hstart, -⟩ := matchAt_eq_some h
  rw [Cursor.left_place hn] at hstart
  rw [hstart]
  refine ⟨Nat.le_refl n, hn, List.ne_nil_of_mem ht, ?_⟩
  intro i hi hlt
  omega

theorem leftmost_of_firstFrom (hn : n ≤ text.length)
    (h : p.firstFrom text.length (.place text n) = some m) : p.Leftmost text n m.start := by
  generalize hleft : text.length - n = left
  induction left generalizing n with
  | zero =>
    -- at the end of the text there is no later place
    obtain rfl : n = text.length := by omega
    rw [firstFrom, Option.orElse_eq_or, Option.or_eq_some_iff] at h
    rcases h with h | ⟨-, h⟩
    · exact leftmost_of_matchAt hn h
    · rw [Cursor.next?_place_length] at h
      simp at h
  | succ left ih =>
    have hlt : n < text.length := by omega
    rw [firstFrom, Option.orElse_eq_or, Option.or_eq_some_iff] at h
    rcases h with h | ⟨hnone, h⟩
    · exact leftmost_of_matchAt hn h
    · rw [Cursor.next?_place hlt] at h
      obtain ⟨hle, hlength, hfound, hskipped⟩ := ih hlt h (by omega)
      refine ⟨by omega, hlength, hfound, ?_⟩
      intro i hi him
      by_cases hin : i = n
      · subst hin
        exact matchAt_eq_none_iff.1 hnone
      · exact hskipped i (by omega) him

/-- **A search finds the leftmost place** at which the pattern has a result. -/
theorem leftmost_of_find? (h : p.find? text = some m) : p.Leftmost text 0 m.start := by
  rw [find?_eq] at h
  exact leftmost_of_firstFrom (Nat.zero_le _) h

end Pattern

end LineLexer
