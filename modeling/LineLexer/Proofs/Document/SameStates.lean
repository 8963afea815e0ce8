import LineLexer.Proofs.Document.Edit

/-!
# Documents over tables with the same states

A document asks a table for the states after its lines only.  So two tables that agree on these
build the same document of every text (`Document.ofText_congr`) and edit it alike
(`Document.editAll_congr`), whatever tokens they make.
-/

namespace LineLexer

variable {t t' : Table}

namespace Table

theorem documentLines_congr (h : t.endState = t'.endState)
    (state : State) (texts : List String) :
    t.documentLines state texts = t'.documentLines state texts := by
  induction texts generalizing state with
  | nil => rfl
  | cons text texts ih =>
    rw [documentLines, documentLines, h]
    exact congrArg _ (funext fun stop => by rw [ih])

theorem rescan_congr (h : t.endState = t'.endState)
    (state : State) (lines : List DocumentLine) : t.rescan state lines = t'.rescan state lines := by
  induction lines generalizing state with
  | nil => rfl
  | cons l ls ih =>
    rw [rescan, rescan, h]
    exact congrArg _ (funext fun stop => by rw [ih])

end Table

namespace Document

/-- **Tables with the same states build the same documents.** -/
theorem ofText_congr (h : t.endState = t'.endState)
    (text : String) : ofText t text = ofText t' text := by
  rw [ofText, ofText, Table.documentLines_congr h]

theorem rescanFrom_congr (h : t.endState = t'.endState)
    (d : Document) (index : Nat) : d.rescanFrom t index = d.rescanFrom t' index := by
  rw [rescanFrom, rescanFrom, Table.rescan_congr h]

theorem edit_congr (h : t.endState = t'.endState)
    (d : Document) (e : Edit) : d.edit t e = d.edit t' e := by
  cases e with
  | set index text => simp only [edit, setLine, rescanFrom_congr h]
  | insert index text => simp only [edit, insertLine, rescanFrom_congr h]
  | remove index => simp only [edit, removeLine, rescanFrom_congr h]

/-- **Tables with the same states edit a document alike.** -/
theorem editAll_congr (h : t.endState = t'.endState)
    (d : Document) (es : List Edit) : d.editAll t es = d.editAll t' es := by
  induction es generalizing d with
  | nil => rfl
  | cons e es ih =>
    have hafter : d.after t e = d.after t' e := by rw [after, after, edit_congr h]
    rw [editAll, editAll, List.foldl_cons, List.foldl_cons, hafter]
    exact ih _

end Document

end LineLexer
