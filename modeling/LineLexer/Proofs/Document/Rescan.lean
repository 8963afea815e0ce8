import LineLexer.Proofs.Document.Scratch
import LineLexer.Proofs.EncryScript.Table
import Mathlib.Data.List.Sort

/-!
# Which lines an edit scans

An edit scans the line at its place and then goes on as long as the states at the ends of the lines
change.  So the lines that begin in another state than before stand in a row right behind the place
of the edit, and the number that the edit gives is one more than theirs; every other line is what it
was (`Edit.Exact`).  Removing the last line is the exception: nothing is scanned then.

What scanning again does is read off the relation that it computes (`Table.Rescanned`), against the
lines as they stand before it.  Where a line stood before the edit is said by `Edit.origin`.  In a
document made of a text by edits the stored states are those of a scan from scratch, so there the
number is exact for what the lines really begin in (`Document.Reachable.edit_eq_ok_iff`).
-/

namespace LineLexer

/-! ### The scanned lines -/

namespace Table.Rescanned

variable {t : Table} {state : State} {lines ls : List DocumentLine} {n : Nat}

theorem length_eq (h : t.Rescanned state lines ls n) : ls.length = lines.length := by
  simpa using congrArg List.length h.map_text

theorem count_eq_zero_iff (h : t.Rescanned state lines ls n) : n = 0 ↔ lines = [] := by
  cases h <;> simp

theorem count_le (h : t.Rescanned state lines ls n) : n ≤ lines.length := by
  induction h with
  | nil => rfl
  | stop => simp
  | next _ _ _ ih => simpa using ih

theorem getElem?_of_le (h : t.Rescanned state lines ls n) {i : Nat} (hi : n ≤ i) :
    ls[i]? = lines[i]? := by
  induction h generalizing i with
  | nil | stop => rfl
  | next _ _ _ ih =>
    obtain ⟨j, rfl⟩ := Nat.exists_eq_add_of_le' (Nat.one_le_of_lt hi)
    simpa using ih (Nat.le_of_succ_le_succ hi)

/-- **The state after a line changes** as long as the next line is scanned too. -/
theorem map_endState_eq_iff (h : t.Rescanned state lines ls n) {i : Nat}
    (hi : i + 1 < lines.length) :
    ls[i]?.map (·.endState) = lines[i]?.map (·.endState) ↔ n ≤ i + 1 := by
  induction h generalizing i with
  | nil => simp at hi
  | stop => simp
  | @next _ _ l later _ n _ hne hlater ih =>
    cases i with
    | zero =>
      have hlater' : later ≠ [] := by rintro rfl; simp at hi
      simpa [hne] using mt hlater.count_eq_zero_iff.1 hlater'
    | succ i => simpa using ih (by simpa using hi)

variable {front : List DocumentLine} {j : Nat}

/-- Behind other lines too, all lines but the scanned ones are what they were. -/
theorem getElem?_append (h : t.Rescanned state lines ls n)
    (hj : j < front.length ∨ front.length + n ≤ j) :
    (front ++ ls)[j]? = (front ++ lines)[j]? := by
  rcases hj with hlt | hle
  · rw [List.getElem?_append_left hlt, List.getElem?_append_left hlt]
  · have hfront : front.length ≤ j := Nat.le_of_add_right_le hle
    rw [List.getElem?_append_right hfront, List.getElem?_append_right hfront]
    exact h.getElem?_of_le (Nat.le_sub_of_add_le' hle)

/-- **The lines that begin in another state** are the scanned ones behind the first. -/
theorem startState_eq_iff (h : t.Rescanned state lines ls n) (hlt : front.length < j)
    (hj : j < (front ++ lines).length) :
    (⟨front ++ ls⟩ : Document).startState j = (⟨front ++ lines⟩ : Document).startState j ↔
      front.length + n ≤ j := by
  obtain ⟨i, rfl⟩ := Nat.exists_eq_add_of_lt hlt
  have hi : i + 1 < lines.length := by simpa [Nat.add_assoc] using hj
  rw [Nat.add_assoc, Nat.add_le_add_iff_left, ← h.map_endState_eq_iff hi]
  have hls : i < ls.length := by rw [h.length_eq]; exact Nat.lt_of_succ_lt hi
  simp [Document.startState, hls, Nat.lt_of_succ_lt hi]

end Table.Rescanned

theorem Document.startState_append_of_le {front ls lines : List DocumentLine} {j : Nat}
    (hj : j ≤ front.length) :
    (⟨front ++ ls⟩ : Document).startState j = (⟨front ++ lines⟩ : Document).startState j := by
  cases j with
  | zero => rfl
  | succ i => simp only [startState, List.getElem?_append_left hj]

/-! ### Where lines come from -/

namespace Edit

variable {d d' : Document} {e : Edit} {j : Nat}

/-- The place that the line `j` after an edit had before it, unless the edit put it there. -/
def origin : Edit → Nat → Nat
  | .set _ _, j => j
  | .insert index _, j => if j ≤ index then j else j - 1
  | .remove index, j => if j < index then j else j + 1

/-- Before anything is scanned again, every line apart from the one at the place of the edit is
there. -/
theorem getElem?_change (hj : j ≠ e.index) : (e.change d).lines[j]? = d.lines[e.origin j]? := by
  cases e with
  | set i text =>
    have hij : i ≠ j := hj.symm
    simp [change, origin, hij]
  | insert i text =>
    change j ≠ i at hj
    rw [change, origin, List.getElem?_insertIdx]
    rcases Nat.lt_or_gt_of_ne hj with hlt | hgt
    · rw [if_pos hlt, if_pos (Nat.le_of_lt hlt)]
    · rw [if_neg (Nat.lt_asymm hgt), if_neg hj, if_neg (Nat.not_le.2 hgt)]
  | remove i =>
    rw [change, origin, List.getElem?_eraseIdx]
    split <;> rfl

theorem origin_zero (h : 0 ≠ e.index) : e.origin 0 = 0 := by
  cases e with
  | set i text => rfl
  | insert i text => rw [origin, if_pos (Nat.zero_le i)]
  | remove i =>
    change 0 ≠ i at h
    rw [origin, if_pos (Nat.pos_of_ne_zero h.symm)]

theorem origin_succ (h : j ≠ e.index) (h' : j + 1 ≠ e.index) :
    e.origin (j + 1) = e.origin j + 1 := by
  cases e <;> grind [origin, index]

/-- Behind the place, a line begins in the state that it began in: a line with a new text keeps its
stored state, and a new line is given the state that it begins in. -/
theorem startState_change_index_succ (he : e.index < e.bound d.size) :
    (e.change d).startState (e.index + 1) = d.startState (e.origin (e.index + 1)) := by
  cases e with
  | set i text => simp [change, origin, index, Document.startState, Function.comp_def]
  | insert i text =>
    have hi : i ≤ d.lines.length := Nat.le_of_lt_succ he
    rw [change, origin, index, if_neg (Nat.not_succ_le_self i), Document.startState]
    simp [List.getElem?_insertIdx_self, hi]
  | remove i =>
    rw [change, origin, index, if_neg (Nat.not_lt.2 (Nat.le_succ i)), Document.startState]
    simp [Document.startState, List.getElem?_eraseIdx]

theorem startState_change (he : e.index < e.bound d.size) (hj : j ≠ e.index) :
    (e.change d).startState j = d.startState (e.origin j) := by
  cases j with
  | zero => rw [origin_zero hj]; rfl
  | succ k =>
    by_cases hk : k = e.index
    · rw [hk, startState_change_index_succ he]
    · rw [origin_succ hk hj, Document.startState, Document.startState, getElem?_change hk]

/-- Only where the last line is removed, nothing stands at the place before it is scanned again. -/
theorem index_lt_size_change_or (he : e.index < e.bound d.size) :
    e.index < (e.change d).size ∧ e ≠ .remove (d.size - 1) ∨
      e.index = (e.change d).size ∧ e = .remove (d.size - 1) := by
  cases e with
  | set i text =>
    refine .inl ⟨?_, by simp⟩
    rw [change, Document.size, List.length_modify]
    exact he
  | insert i text =>
    refine .inl ⟨?_, by simp⟩
    rw [change, Document.size]
    exact (List.length_insertIdx_of_le_length (Nat.le_of_lt_succ he) _).symm ▸ he
  | remove i =>
    change i < d.lines.length at he
    rw [change, Document.size, Document.size, List.length_eraseIdx_of_lt he, index, ne_eq,
      remove.injEq]
    omega

/-! ### The moved lines -/

/-- The lines behind the place of an edit that begin in another state than before it. -/
def moved (e : Edit) (d d' : Document) : List Nat :=
  (List.range d'.size).filter fun j =>
    e.index < j ∧ d'.startState j ≠ d.startState (e.origin j)

/-- What an edit of `d` that gives `d'` and the number `n` did, line by line. -/
structure Exact (e : Edit) (d d' : Document) (n : Nat) : Prop where
  /-- The line at the place is scanned, unless the last one is removed, and the moved ones are. -/
  count_eq : n = if e = .remove (d.size - 1) then 0 else 1 + (e.moved d d').length
  /-- The moved lines stand in a row right behind the place. -/
  moved_eq : e.moved d d' = List.range' (e.index + 1) (e.moved d d').length
  /-- Every other line begins in the state that it began in, and it ends as it did. -/
  kept : ∀ j < d'.size, j ≠ e.index → j ∉ e.moved d d' →
    d'.startState j = d.startState (e.origin j) ∧ d'.lines[j]? = d.lines[e.origin j]?

variable {t : Table} {n : Nat}

theorem exists_append_of_edit (h : d.edit t e = .ok (d', n)) :
    ∃ front back ls state, e.change d = ⟨front ++ back⟩ ∧ front.length = e.index ∧
      t.Rescanned state back ls n ∧ d' = ⟨front ++ ls⟩ := by
  obtain ⟨he, ls, hls, hd'⟩ := Document.edit_eq_ok_iff_rescanned.1 h
  have hle : e.index ≤ (e.change d).lines.length := by
    rcases index_lt_size_change_or he with ⟨hlt, -⟩ | ⟨heq, -⟩
    · exact Nat.le_of_lt hlt
    · exact Nat.le_of_eq heq
  exact ⟨_, _, ls, _, by rw [List.take_append_drop], List.length_take_of_le hle, hls, hd'⟩

/-- **The moved lines are the scanned ones** behind the place. -/
theorem mem_moved_iff (h : d.edit t e = .ok (d', n)) :
    j ∈ e.moved d d' ↔ e.index < j ∧ j < e.index + n := by
  have he := (Document.edit_eq_ok_iff_rescanned.1 h).1
  obtain ⟨front, back, ls, state, hchange, hindex, hls, rfl⟩ := exists_append_of_edit h
  have hsize : (⟨front ++ ls⟩ : Document).size = (front ++ back).length := by
    simp [Document.size, hls.length_eq]
  rw [moved, List.mem_filter, List.mem_range, hsize]
  simp only [ne_eq, decide_eq_true_eq]
  constructor
  · rintro ⟨hj, hlt, hne⟩
    rw [← startState_change he hlt.ne', hchange, hls.startState_eq_iff (hindex ▸ hlt) hj] at hne
    exact ⟨hlt, hindex ▸ Nat.lt_of_not_le hne⟩
  · rintro ⟨hlt, hlt'⟩
    have hj : j < (front ++ back).length := by
      rw [List.length_append, hindex]
      exact Nat.lt_of_lt_of_le hlt' (Nat.add_le_add_left hls.count_le _)
    refine ⟨hj, hlt, ?_⟩
    rw [← startState_change he hlt.ne', hchange, hls.startState_eq_iff (hindex ▸ hlt) hj, hindex]
    exact Nat.not_le_of_lt hlt'

theorem moved_eq_range' (h : d.edit t e = .ok (d', n)) :
    e.moved d d' = List.range' (e.index + 1) (n - 1) := by
  have hrange : (List.range d'.size).Pairwise (· < ·) := List.pairwise_lt_range
  refine (hrange.filter _).eq_of_mem_iff List.pairwise_lt_range' fun j => ?_
  rw [← moved, mem_moved_iff h, List.mem_range'_1]
  omega

theorem count_eq_zero_iff (h : d.edit t e = .ok (d', n)) : n = 0 ↔ e = .remove (d.size - 1) := by
  have he := (Document.edit_eq_ok_iff_rescanned.1 h).1
  obtain ⟨front, back, ls, state, hchange, hindex, hls, -⟩ := exists_append_of_edit h
  have hsize : (e.change d).size = e.index + back.length := by
    rw [hchange, Document.size, List.length_append, hindex]
  rw [hls.count_eq_zero_iff, ← List.length_eq_zero_iff]
  rcases index_lt_size_change_or he with ⟨hlt, hne⟩ | ⟨heq, hremove⟩
  · exact iff_of_false (by omega) hne
  · exact iff_of_true (by omega) hremove

theorem startState_of_notMem_moved (h : d.edit t e = .ok (d', n)) (hj : j < d'.size)
    (hne : j ≠ e.index) (hmoved : j ∉ e.moved d d') :
    d'.startState j = d.startState (e.origin j) := by
  rcases Nat.lt_or_gt_of_ne hne with hlt | hgt
  · -- in front of the place nothing is scanned
    have he := (Document.edit_eq_ok_iff_rescanned.1 h).1
    obtain ⟨front, back, ls, state, hchange, hindex, -, rfl⟩ := exists_append_of_edit h
    rw [← startState_change he hne, hchange]
    exact Document.startState_append_of_le (hindex ▸ Nat.le_of_lt hlt)
  · simpa [moved, hj, hgt] using hmoved

theorem getElem?_of_notMem_moved (h : d.edit t e = .ok (d', n)) (hne : j ≠ e.index)
    (hmoved : j ∉ e.moved d d') : d'.lines[j]? = d.lines[e.origin j]? := by
  rw [mem_moved_iff h] at hmoved
  obtain ⟨front, back, ls, state, hchange, hindex, hls, rfl⟩ := exists_append_of_edit h
  rw [← getElem?_change hne, hchange]
  exact hls.getElem?_append (by omega)

/-- **What an edit does is exact**, whatever the stored states are. -/
theorem exact_of_edit (h : d.edit t e = .ok (d', n)) : e.Exact d d' n := by
  have hlen : (e.moved d d').length = n - 1 := by rw [moved_eq_range' h, List.length_range']
  refine ⟨?_, by rw [hlen, moved_eq_range' h], fun j hj hne hmoved =>
    ⟨startState_of_notMem_moved h hj hne hmoved, getElem?_of_notMem_moved h hne hmoved⟩⟩
  by_cases hn : n = 0
  · rw [if_pos ((count_eq_zero_iff h).1 hn), hn]
  · rw [if_neg (mt (count_eq_zero_iff h).2 hn), hlen,
      Nat.add_sub_cancel' (Nat.one_le_iff_ne_zero.2 hn)]

end Edit

/-! ### Documents -/

namespace Document

variable {t : Table} {d d' : Document} {e : Edit} {n : Nat}

/-- The documents of texts, and what edits make of them. -/
inductive Reachable (t : Table) : Document → Prop where
  | ofText {text : String} {d : Document} : ofText t text = .ok d → Reachable t d
  | edit {e : Edit} {d d' : Document} {n : Nat} :
      Reachable t d → d.edit t e = .ok (d', n) → Reachable t d'

theorem Reachable.chained (h : d.Reachable t) : t.Chained .initial d.lines := by
  induction h with
  | ofText h => exact (ofText_eq_ok_iff.1 h).2
  | edit _ h ih => exact (Table.documentLines_eq_ok_iff.1 (documentLines_of_edit ih h)).2

/-- **The number that an edit gives is exact.**  The states of a document that can be reached are
those of its lines scanned from scratch.  An edit of it gives a document and a number exactly if its
place is in range, the document is that of the new lines scanned from scratch, and the number is
that of the lines that had to be scanned. -/
theorem Reachable.edit_eq_ok_iff (hd : d.Reachable t) :
    t.documentLines .initial (d.lines.map (·.text)) = .ok d.lines ∧
      ∀ e d' n, d.edit t e = .ok (d', n) ↔ e.index < e.bound d.size ∧
        t.documentLines .initial (e.apply (d.lines.map (·.text))) = .ok d'.lines ∧
        e.Exact d d' n := by
  refine ⟨Table.documentLines_eq_ok_iff.2 ⟨rfl, hd.chained⟩, fun e d' n => ⟨fun h => ?_, ?_⟩⟩
  · exact ⟨(edit_eq_ok_iff_rescanned.1 h).1, documentLines_of_edit hd.chained h,
      Edit.exact_of_edit h⟩
  · rintro ⟨he, hlines, hexact⟩
    obtain ⟨d'', m, h⟩ := exists_edit_eq_ok_of_documentLines hd.chained he hlines
    -- an edit that succeeds gives this document and this number only
    obtain ⟨lines⟩ := d'
    obtain ⟨lines'⟩ := d''
    obtain rfl : lines = lines' :=
      Except.ok.inj (hlines.symm.trans (documentLines_of_edit hd.chained h))
    rw [h, hexact.count_eq, (Edit.exact_of_edit h).count_eq]

/-- A new line opens a string that the line after it keeps open, and then it is removed again.  Two
lines begin in another state at first; at last only one does, since the other is at the place. -/
theorem Reachable.edit_insert_remove : ∃ d d' d'' : Document,
    d.Reachable (EncryScript.tableOf .builtin) ∧ d'.Reachable (EncryScript.tableOf .builtin) ∧
    d.edit (EncryScript.tableOf .builtin) (.insert 1 "'\\") = .ok (d', 3) ∧
    (Edit.insert 1 "'\\").moved d d' = [2, 3] ∧ (Edit.insert 1 "'\\").Exact d d' 3 ∧
    d'.edit (EncryScript.tableOf .builtin) (.remove 1) = .ok (d'', 2) ∧
    (Edit.remove 1).moved d' d'' = [2] ∧ (Edit.remove 1).Exact d' d'' 2 := by
  let d : Document := ⟨[⟨"x", .start⟩, ⟨"y\\", .start⟩, ⟨"z", .start⟩]⟩
  let d' : Document :=
    ⟨[⟨"x", .start⟩, ⟨"'\\", .quotedString⟩, ⟨"y\\", .quotedString⟩, ⟨"z", .start⟩]⟩
  have htext : Document.ofText (EncryScript.tableOf .builtin) "x\ny\\\nz" = .ok d := by
    decide +kernel
  have hd : d.Reachable (EncryScript.tableOf .builtin) := .ofText htext
  have hinsert : d.edit (EncryScript.tableOf .builtin) (.insert 1 "'\\") = .ok (d', 3) := by
    decide +kernel
  have hremove : d'.edit (EncryScript.tableOf .builtin) (.remove 1) = .ok (d, 2) := by
    decide +kernel
  have hd' : d'.Reachable (EncryScript.tableOf .builtin) := .edit hd hinsert
  obtain ⟨-, -, hexact⟩ := (hd.edit_eq_ok_iff.2 _ _ _).1 hinsert
  obtain ⟨-, -, hexact'⟩ := (hd'.edit_eq_ok_iff.2 _ _ _).1 hremove
  exact ⟨d, d', d, hd, hd', hinsert, by decide, hexact, hremove, by decide, hexact'⟩

end Document

end LineLexer
