import Mathlib.Data.List.InsertIdx
import LineLexer.Proofs.Document.Chain

/-!
# Edits of a document

Every edit changes the list of lines and then scans again from the changed place on
(`Document.edit_eq`).  The change leaves the lines before the place chained, and the lines after
the first one there chained to its old state (`Edit.exists_change_eq`), which is what scanning
again needs.  So the stored states are right after every edit (`Document.documentLines_of_edit`),
and after any number of edits (`Document.editAll_spec`).  An edit succeeds if its place is in range
and the lines that it makes can be scanned (`Document.exists_edit_eq_ok_of_documentLines`).
-/

namespace LineLexer

/-- An edit of a buffer. -/
inductive Edit where
  | set (index : Nat) (text : String)
  | insert (index : Nat) (text : String)
  | remove (index : Nat)
  deriving DecidableEq

namespace Edit

/-- The place of the edit. -/
def index : Edit → Nat
  | .set index _ | .insert index _ | .remove index => index

/-- What the place has to be below in a buffer of `len` lines. -/
def bound : Edit → Nat → Nat
  | .insert .., len => len + 1
  | .set .., len | .remove _, len => len

/-- The edit of the lines of a buffer; a place that is out of range changes nothing. -/
def apply (texts : List String) : Edit → List String
  | .set index text => texts.set index text
  | .insert index text => texts.insertIdx index text
  | .remove index => texts.eraseIdx index

/-- The document with changed lines, before anything is scanned again. -/
def change (d : Document) : Edit → Document
  | .set index text => ⟨d.lines.modify index fun l => { l with text := text }⟩
  | .insert index text => ⟨d.lines.insertIdx index ⟨text, d.startState index⟩⟩
  | .remove index => ⟨d.lines.eraseIdx index⟩

theorem apply_of_bound_le {texts : List String} {e : Edit} (h : e.bound texts.length ≤ e.index) :
    e.apply texts = texts := by
  cases e with
  | set i text => exact List.set_eq_of_length_le h
  | insert i text => exact List.insertIdx_of_length_lt h
  | remove i => exact List.eraseIdx_of_length_le h

end Edit

namespace Document

/-- The document after an edit, with the number of scanned lines. -/
def edit (t : Table) (d : Document) : Edit → Except EditError (Document × Nat)
  | .set index text => d.setLine t index text
  | .insert index text => d.insertLine t index text
  | .remove index => d.removeLine t index

/-- The document after an edit; a failed edit leaves it alone. -/
def after (t : Table) (d : Document) (e : Edit) : Document :=
  match d.edit t e with
  | .ok (d', _) => d'
  | .error _ => d

/-- The document after edits. -/
def editAll (t : Table) (d : Document) (es : List Edit) : Document := es.foldl (after t) d

variable {t : Table} {d : Document}

/-! ### One edit -/

/-- **An edit is a change and a scan** from the place of the change on. -/
theorem edit_eq (t : Table) (d : Document) (e : Edit) :
    d.edit t e =
      checkIndex e.index (e.bound d.size) >>= fun _ => rescanFrom t (e.change d) e.index := by
  cases e with
  | set i text => rfl
  | insert i text => rfl
  | remove i =>
    rw [edit, removeLine]
    refine congrArg _ (funext fun _ => ?_)
    dsimp only
    split
    · -- at the end there is nothing to scan, so scanning changes nothing
      rename_i hi
      have hle : (d.lines.eraseIdx i).length ≤ i := Nat.le_of_eq hi.symm
      have hdrop : (d.lines.eraseIdx i).drop i = [] := List.drop_eq_nil_of_le hle
      have htake : (d.lines.eraseIdx i).take i = d.lines.eraseIdx i := List.take_of_length_le hle
      simp [rescanFrom, Edit.change, Edit.index, hdrop, htake, Table.rescan, pure, Except.pure]
    · rfl

theorem edit_of_bound_le {e : Edit} (h : e.bound d.size ≤ e.index) :
    d.edit t e = .error (.rejected (.lineOutOfRange e.index (e.bound d.size))) := by
  rw [edit_eq, checkIndex, if_neg (Nat.not_lt.2 h)]
  rfl

end Document

/-! ### What an edit changes -/

namespace Edit

variable {t : Table} {d : Document}

theorem exists_append_cons {α : Type} {xs : List α} {i : Nat} (h : i < xs.length) :
    ∃ front x back, xs = front ++ x :: back ∧ front.length = i :=
  ⟨xs.take i, xs[i], xs.drop (i + 1), by simp, by simp [Nat.le_of_lt h]⟩

theorem insertIdx_length_append {α : Type} (x : α) (front back : List α) :
    (front ++ back).insertIdx front.length x = front ++ x :: back := by
  induction front with
  | nil => rfl
  | cons y front ih => simp [ih]

/-- **What a change leaves**: the lines before the place are chained, and the lines after the
first one there are chained to the state stored for it. -/
theorem exists_change_eq (hd : t.Chained .initial d.lines) {e : Edit}
    (he : e.index < e.bound d.size) :
    ∃ front back, e.change d = ⟨front ++ back⟩ ∧ front.length = e.index ∧
      t.Chained .initial front ∧ (∀ l ∈ back.head?, t.Chained l.endState back.tail) ∧
      (front ++ back).map (·.text) = e.apply (d.lines.map (·.text)) := by
  obtain ⟨lines⟩ := d
  cases e with
  | set i text =>
    -- the line keeps its old state, which the lines after it are chained to
    obtain ⟨front, l, back, rfl, rfl⟩ := exists_append_cons he
    obtain ⟨hfront, hback⟩ := Table.chained_append_iff.1 hd
    refine ⟨front, { l with text := text } :: back, ?_, rfl, hfront, ?_, ?_⟩
    · simp [change, List.modify_eq_take_drop]
    · simpa using hback.tail
    · simp [apply]
  | insert i text =>
    -- the new line is given the state that the lines after it are chained to
    have hi : i ≤ lines.length := Nat.le_of_lt_succ he
    obtain ⟨front, back, rfl, rfl⟩ : ∃ front back, lines = front ++ back ∧ front.length = i :=
      ⟨lines.take i, lines.drop i, (List.take_append_drop i lines).symm, by simp [hi]⟩
    obtain ⟨hfront, hback⟩ := Table.chained_append_iff.1 hd
    have hstart : (⟨front ++ back⟩ : Document).startState front.length =
        DocumentLine.stateAfter .initial front := by
      rw [Document.startState_eq_stateAfter _ hi, List.take_left]
    refine ⟨front, ⟨text, DocumentLine.stateAfter .initial front⟩ :: back, ?_, rfl, hfront, ?_, ?_⟩
    · simp only [change, hstart, insertIdx_length_append]
    · simpa using hback
    · rw [apply, List.map_append, List.map_append, List.map_cons, ← insertIdx_length_append,
        List.length_map]
  | remove i =>
    -- whatever line comes next, the lines after it were chained to its state before
    obtain ⟨front, l, back, rfl, rfl⟩ := exists_append_cons he
    obtain ⟨hfront, hback⟩ := Table.chained_append_iff.1 hd
    refine ⟨front, back, ?_, rfl, hfront, ?_, ?_⟩
    · simp [change, List.eraseIdx_append_of_length_le]
    · exact (hback.tail l rfl).tail
    · simp [apply, List.eraseIdx_append_of_length_le]

end Edit

/-! ### The document after edits -/

namespace Document

variable {t : Table} {d d' : Document} {e : Edit} {n : Nat}

theorem rescanFrom_eq_ok_iff {index : Nat} : rescanFrom t d index = .ok (d', n) ↔
    ∃ ls, t.Rescanned (d.startState index) (d.lines.drop index) ls n ∧
      d' = ⟨d.lines.take index ++ ls⟩ := by
  rw [rescanFrom]
  constructor
  · intro h
    split at h
    · rename_i ls m hls
      obtain ⟨rfl, rfl⟩ := Prod.mk.inj (Except.ok.inj h)
      exact ⟨ls, Table.rescan_eq_ok_iff.1 hls, rfl⟩
    · simp at h
  · rintro ⟨ls, hls, rfl⟩
    rw [Table.rescan_eq_ok_iff.2 hls]

/-- **An edit that succeeds** is in range and scans the changed lines again. -/
theorem edit_eq_ok_iff_rescanned : d.edit t e = .ok (d', n) ↔ e.index < e.bound d.size ∧
    ∃ ls, t.Rescanned ((e.change d).startState e.index) ((e.change d).lines.drop e.index) ls n ∧
      d' = ⟨(e.change d).lines.take e.index ++ ls⟩ := by
  rw [edit_eq, checkIndex, ← rescanFrom_eq_ok_iff]
  by_cases he : e.index < e.bound d.size <;> simp [he, bind, Except.bind]

/-- **What an edit scans again**: the lines behind its place, from the state after those in front
of it. -/
theorem exists_rescanned_of_change (hd : t.Chained .initial d.lines)
    (he : e.index < e.bound d.size) :
    ∃ front back, t.Chained .initial front ∧ (∀ l ∈ back.head?, t.Chained l.endState back.tail) ∧
      (front ++ back).map (·.text) = e.apply (d.lines.map (·.text)) ∧
      ∀ d' n, d.edit t e = .ok (d', n) ↔
        ∃ ls, t.Rescanned (DocumentLine.stateAfter .initial front) back ls n ∧
          d' = ⟨front ++ ls⟩ := by
  obtain ⟨front, back, hchange, hindex, hfront, hback, htexts⟩ := Edit.exists_change_eq hd he
  refine ⟨front, back, hfront, hback, htexts, fun d' n => ?_⟩
  have hstart : (⟨front ++ back⟩ : Document).startState front.length =
      DocumentLine.stateAfter .initial front := by
    rw [startState_eq_stateAfter _ (by simp [size]), List.take_left]
  rw [edit_eq_ok_iff_rescanned, and_iff_right he, hchange, ← hindex, hstart, List.drop_left,
    List.take_left]

/-- **The lines after an edit are those scanned from scratch.** -/
theorem documentLines_of_edit (hd : t.Chained .initial d.lines)
    (h : d.edit t e = .ok (d', n)) :
    t.documentLines .initial (e.apply (d.lines.map (·.text))) = .ok d'.lines := by
  obtain ⟨front, back, hfront, hback, htexts, hedit⟩ :=
    exists_rescanned_of_change hd (edit_eq_ok_iff_rescanned.1 h).1
  obtain ⟨ls, hls, rfl⟩ := (hedit d' n).1 h
  rw [Table.documentLines_eq_ok_iff, ← htexts]
  refine ⟨?_, Table.chained_append_iff.2 ⟨hfront, hls.chained hback⟩⟩
  rw [List.map_append, List.map_append, hls.map_text]

/-- **An edit in range succeeds** if the lines that it makes can be scanned. -/
theorem exists_edit_eq_ok_of_documentLines (hd : t.Chained .initial d.lines)
    (he : e.index < e.bound d.size) {lines : List DocumentLine}
    (h : t.documentLines .initial (e.apply (d.lines.map (·.text))) = .ok lines) :
    ∃ d' n, d.edit t e = .ok (d', n) := by
  obtain ⟨front, back, hfront, -, htexts, hedit⟩ := exists_rescanned_of_change hd he
  obtain ⟨hlines, hch⟩ := Table.documentLines_eq_ok_iff.1 h
  rw [← htexts, List.map_append] at hlines
  obtain ⟨front', back', rfl, hfront', hback'⟩ := List.map_eq_append_iff.1 hlines
  obtain ⟨hch, hch'⟩ := Table.chained_append_iff.1 hch
  -- the lines in front are scanned from scratch too, so they are the same
  obtain rfl : front = front' := Except.ok.inj
    ((Table.documentLines_eq_ok_iff.2 ⟨rfl, hfront⟩).symm.trans
      (Table.documentLines_eq_ok_iff.2 ⟨hfront', hch⟩))
  obtain ⟨ls, n, hls⟩ := Table.exists_rescanned (Table.documentLines_eq_ok_iff.2 ⟨hback', hch'⟩)
  exact ⟨_, n, (hedit _ n).2 ⟨ls, hls, rfl⟩⟩

/-- **An edit in range keeps the states right.** -/
theorem exists_edit_eq_ok (hok : ∀ text state, ∃ stop, t.endState text state = .ok stop)
    (hd : t.Chained .initial d.lines) {e : Edit} (he : e.index < e.bound d.size) :
    ∃ d' n, d.edit t e = .ok (d', n) ∧ d'.lines.map (·.text) = e.apply (d.lines.map (·.text)) ∧
      t.Chained .initial d'.lines := by
  obtain ⟨lines, hlines⟩ :=
    Table.exists_documentLines_eq_ok hok .initial (e.apply (d.lines.map (·.text)))
  obtain ⟨d', n, hedit⟩ := exists_edit_eq_ok_of_documentLines hd he hlines
  exact ⟨d', n, hedit, Table.documentLines_eq_ok_iff.1 (documentLines_of_edit hd hedit)⟩

/-- The lines and states after an edit, in range or not. -/
theorem after_spec (hok : ∀ text state, ∃ stop, t.endState text state = .ok stop)
    (hd : t.Chained .initial d.lines) (e : Edit) :
    (d.after t e).lines.map (·.text) = e.apply (d.lines.map (·.text)) ∧
      t.Chained .initial (d.after t e).lines := by
  by_cases he : e.index < e.bound d.size
  · obtain ⟨d', n, hedit, htexts, hch⟩ := exists_edit_eq_ok hok hd he
    rw [after, hedit]
    exact ⟨htexts, hch⟩
  · have hle : e.bound d.size ≤ e.index := Nat.not_lt.1 he
    rw [after, edit_of_bound_le hle]
    exact ⟨(Edit.apply_of_bound_le (by rwa [List.length_map])).symm, hd⟩

theorem editAll_spec (hok : ∀ text state, ∃ stop, t.endState text state = .ok stop)
    (hd : t.Chained .initial d.lines) (es : List Edit) :
    (d.editAll t es).lines.map (·.text) = es.foldl Edit.apply (d.lines.map (·.text)) ∧
      t.Chained .initial (d.editAll t es).lines := by
  induction es generalizing d with
  | nil => exact ⟨rfl, hd⟩
  | cons e es ih =>
    obtain ⟨htexts, hch⟩ := after_spec hok hd e
    obtain ⟨htexts', hch'⟩ := ih hch
    exact ⟨by rw [List.foldl_cons, ← htexts]; exact htexts', hch'⟩

end Document

end LineLexer
