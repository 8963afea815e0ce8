import LineLexer.Proofs.Outcome
import LineLexer.Proofs.Text.Lines
import LineLexer.Scan

/-!
# Scans of several lines

Lines can be scanned in two parts, the second beginning in the state that the first ends in
(`Table.scanLines_append`), and so can a text that is cut where a line ends
(`Table.scanText_append`).  So the results for the lines of a buffer and for those of
a finished text differ where the lines do: they are the same but for the result of an empty line
at the end (`Table.scanLines_bufferLines_eq`), unless the text ends in a carriage return, which
only the last line of the finished text has (`Table.exists_scanLines_of_return`).
-/

namespace LineLexer

/-- The state after the lines, the first of which begins in `state`. -/
def ScannedLine.stateAfter (state : State) : List ScannedLine → State
  | [] => state
  | l :: ls => stateAfter l.endState ls

/-- The state after lines is the one after the last of them. -/
theorem ScannedLine.stateAfter_eq (state : State) (ls : List ScannedLine) :
    stateAfter state ls = (ls.getLast?.map (·.endState)).getD state := by
  induction ls generalizing state with
  | nil => rfl
  | cons l ls ih =>
    rw [stateAfter, ih, List.getLast?_cons]
    cases ls.getLast? <;> rfl

namespace Table

open ScannedLine (stateAfter)

variable {t : Table} {state : State}

/-- Lines are scanned one after the other. -/
theorem scanLines_cons_eq_ok_iff {line : String} {lines : List String} {ls : List ScannedLine} :
    t.scanLines state (line :: lines) = .ok ls ↔ ∃ l rest, ls = l :: rest ∧
      t.scanLine line state = .ok l ∧ t.scanLines l.endState lines = .ok rest := by
  rw [scanLines, Outcome.bind_eq_ok_iff]
  constructor
  · rintro ⟨l, hl, h⟩
    obtain ⟨rest, hrest, h⟩ := Outcome.bind_eq_ok_iff.1 h
    exact ⟨l, rest, (Except.ok.inj h).symm, hl, hrest⟩
  · rintro ⟨l, rest, rfl, hl, hrest⟩
    exact ⟨l, hl, Outcome.bind_eq_ok_iff.2 ⟨rest, hrest, rfl⟩⟩

theorem scanLines_singleton_eq_ok_iff {line : String} {ls : List ScannedLine} :
    t.scanLines state [line] = .ok ls ↔ ∃ l, ls = [l] ∧ t.scanLine line state = .ok l := by
  rw [scanLines_cons_eq_ok_iff]
  constructor
  · rintro ⟨l, rest, rfl, hl, hrest⟩
    obtain rfl := Except.ok.inj hrest
    exact ⟨l, rfl, hl⟩
  · rintro ⟨l, rfl, hl⟩
    exact ⟨l, [], rfl, hl, rfl⟩

/-- **Lines are scanned in two parts** as they are in one, and go wrong alike. -/
theorem scanLines_append (t : Table) (state : State) (xs ys : List String) :
    t.scanLines state (xs ++ ys) = do
      let front ← t.scanLines state xs
      let back ← t.scanLines (stateAfter state front) ys
      return front ++ back := by
  induction xs generalizing state with
  | nil =>
    have hnil : t.scanLines state [] = pure [] := rfl
    simp only [hnil, pure_bind, stateAfter, List.nil_append, bind_pure]
  | cons x xs ih =>
    simp only [List.cons_append, scanLines, ih, bind_assoc, pure_bind, stateAfter]

theorem scanLines_append_eq_ok_iff {xs ys : List String} {ls : List ScannedLine} :
    t.scanLines state (xs ++ ys) = .ok ls ↔ ∃ front back, ls = front ++ back ∧
      t.scanLines state xs = .ok front ∧ t.scanLines (stateAfter state front) ys = .ok back := by
  rw [scanLines_append, Outcome.bind_eq_ok_iff]
  constructor
  · rintro ⟨front, hfront, h⟩
    obtain ⟨back, hback, h⟩ := Outcome.bind_eq_ok_iff.1 h
    exact ⟨front, back, (Except.ok.inj h).symm, hfront, hback⟩
  · rintro ⟨front, back, rfl, hfront, hback⟩
    exact ⟨front, hfront, Outcome.bind_eq_ok_iff.2 ⟨back, hback, rfl⟩⟩

theorem exists_scanLines_eq_ok (hok : ∀ line state, ∃ l, t.scanLine line state = .ok l)
    (state : State) (lines : List String) : ∃ ls, t.scanLines state lines = .ok ls := by
  induction lines generalizing state with
  | nil => exact ⟨[], rfl⟩
  | cons line lines ih =>
    obtain ⟨l, hl⟩ := hok line state
    obtain ⟨ls, hls⟩ := ih l.endState
    exact ⟨l :: ls, scanLines_cons_eq_ok_iff.2 ⟨l, ls, rfl, hl, hls⟩⟩

/-- The results have the texts of the lines, if that is so for every line by itself. -/
theorem map_text_of_scanLines
    (htext : ∀ line state l, t.scanLine line state = .ok l → l.text = line) {lines : List String}
    {ls : List ScannedLine} (h : t.scanLines state lines = .ok ls) :
    ls.map (·.text) = lines := by
  induction lines generalizing state ls with
  | nil =>
    obtain rfl := Except.ok.inj h
    rfl
  | cons line lines ih =>
    obtain ⟨l, rest, rfl, hl, hrest⟩ := scanLines_cons_eq_ok_iff.1 h
    rw [List.map_cons, htext line state l hl, ih hrest]

/-- A text is scanned in two parts, the second beginning in the state that the first ends in, where
the first part is empty or ends a line. -/
theorem scanText_append (t : Table) (state : State) {front : String}
    (hends : front = "" ∨ ∃ s, front = s ++ "\n") (back : String) :
    t.scanText (front ++ back) state = do
      let xs ← t.scanText front state
      let ys ← t.scanText back (stateAfter state xs)
      return xs ++ ys := by
  have hfeed : front.toList = [] ∨ front.toList.getLast? = some '\n' := by
    rcases hends with rfl | ⟨s, rfl⟩
    · exact .inl rfl
    · refine .inr ?_
      rw [String.toList_append]
      exact List.getLast?_concat
  have hlines : lines (front ++ back) = lines front ++ lines back := by
    rw [lines, String.toList_append, lineTexts_append_of_ends hfeed, List.map_append]
    rfl
  rw [scanText, hlines, scanLines_append]
  rfl

/-! ### The lines of a buffer and of a finished text -/

section

variable {text : String} {ls ws : List ScannedLine} {final : ScannedLine}

/-- **A buffer and a finished text have the same results**, the buffer one more for an empty
line at its end, if the text does not end in a carriage return. -/
theorem scanLines_bufferLines_eq (hreturn : text.toList.getLast? ≠ some '\r')
    (hls : t.scanLines state ((bufferLines text.toList).map String.ofList) = .ok ls)
    (hws : t.scanText text state = .ok ws)
    (hfinal : t.scanLine "" (stateAfter state ws) = .ok final) :
    ls = if text.toList = [] ∨ text.toList.getLast? = some '\n' then ws ++ [final] else ws := by
  rw [(bufferLines_eq_lineTexts text.toList).1 hreturn, List.map_append,
    scanLines_append_eq_ok_iff] at hls
  obtain ⟨front, back, rfl, hfront, hback⟩ := hls
  obtain rfl := Except.ok.inj (hfront.symm.trans hws)
  by_cases hends : text.toList = [] ∨ text.toList.getLast? = some '\n'
  · rw [if_pos hends] at hback ⊢
    obtain ⟨l, rfl, hl⟩ := scanLines_singleton_eq_ok_iff.1 hback
    obtain rfl := Except.ok.inj (hl.symm.trans hfinal)
    rfl
  · rw [if_neg hends] at hback ⊢
    obtain rfl := Except.ok.inj hback
    rw [List.append_nil]

/-- **A carriage return at the end of a text** is scanned with the last line of the finished
text, and is missing from the last line of the buffer; the lines before have the same results. -/
theorem exists_scanLines_of_return (hreturn : text.toList.getLast? = some '\r')
    (hls : t.scanLines state ((bufferLines text.toList).map String.ofList) = .ok ls)
    (hws : t.scanText text state = .ok ws) :
    ∃ front line x y, ls = front ++ [x] ∧ ws = front ++ [y] ∧
      t.scanLine line (stateAfter state front) = .ok x ∧
      t.scanLine (line ++ "\r") (stateAfter state front) = .ok y := by
  obtain ⟨lines, line, hbuffer, htexts⟩ := (bufferLines_eq_lineTexts text.toList).2 hreturn
  rw [hbuffer, List.map_append, List.map_singleton, scanLines_append_eq_ok_iff] at hls
  rw [scanText, LineLexer.lines, htexts, List.map_append, List.map_singleton,
    scanLines_append_eq_ok_iff] at hws
  obtain ⟨front, _, rfl, hfront, hback⟩ := hls
  obtain ⟨front', _, rfl, hfront', hback'⟩ := hws
  obtain rfl := Except.ok.inj (hfront.symm.trans hfront')
  obtain ⟨x, rfl, hx⟩ := scanLines_singleton_eq_ok_iff.1 hback
  obtain ⟨y, rfl, hy⟩ := scanLines_singleton_eq_ok_iff.1 hback'
  refine ⟨front, String.ofList line, x, y, rfl, rfl, hx, ?_⟩
  rw [String.ofList_append] at hy
  exact hy

end

end Table

end LineLexer
