import LineLexer.Proofs.Document.Edit

/-!
# Documents and scans from scratch

A document whose states are chained agrees with a scan of its lines from scratch in everything
that can be asked of it (`Document.agrees_of_chained`): its lines with their tokens, the state
that each begins in and the one that it ends in.  So does a document after any edits
(`Document.agrees_editAll`).
-/

namespace LineLexer

namespace Document

/-- The document gives what a scan of `texts` from scratch gives. -/
structure Agrees (t : Table) (d : Document) (texts : List String) : Prop where
  texts_eq : d.lines.map (·.text) = texts
  startState_zero : d.startState 0 = .initial
  startState_succ : ∀ i l, d.lines[i]? = some l → d.startState (i + 1) = l.endState
  endState_eq : ∀ i l, d.lines[i]? = some l →
    (t.scanLine l.text (d.startState i)).map (·.endState) = .ok l.endState
  scanned : ∃ ls, t.scanLines .initial texts = .ok ls ∧
    d.lines.map (·.endState) = ls.map (·.endState) ∧ d.scannedLines t = .ok ls ∧
    (∀ i, d.line? t i = .ok ls[i]?) ∧
    (∀ i, d.startState (i + 1) = (ls[i]?.map (·.endState)).getD .initial) ∧
    d.endState = (ls.getLast?.map (·.endState)).getD .initial

variable {t : Table} {d : Document}

theorem filterMap_getElem?_range {α : Type} (xs : List α) :
    (List.range xs.length).filterMap (fun i => xs[i]?) = xs := by
  have hmap : (List.range xs.length).map (fun i => xs[i]?) = xs.map some :=
    List.ext_getElem (by simp) fun i hi _ => by simp
  calc (List.range xs.length).filterMap (fun i => xs[i]?)
      = ((List.range xs.length).map fun i => xs[i]?).filterMap id := by
        rw [List.filterMap_map]; rfl
    _ = xs := by rw [hmap, List.filterMap_map]; exact List.filterMap_some

/-- **A chained document agrees with a scan from scratch.** -/
theorem agrees_of_chained (h : t.Chained .initial d.lines) :
    d.Agrees t (d.lines.map (·.text)) := by
  obtain ⟨ls, hls, hstates, hlines⟩ := h.exists_scanLines_eq_ok
  have hlen : d.lines.length = ls.length := by
    rw [← List.length_map (·.endState), hstates, List.length_map]
  have hstart {i : Nat} {l : DocumentLine} (hl : d.lines[i]? = some l) :
      d.startState i = DocumentLine.stateAfter .initial (d.lines.take i) :=
    startState_eq_stateAfter d (Nat.le_of_lt (List.getElem?_eq_some_iff.1 hl).1)
  have hline (i : Nat) : d.line? t i = .ok ls[i]? := by
    rw [line?]
    cases hl : d.lines[i]? with
    | none =>
      rw [List.getElem?_eq_none_iff, hlen] at hl
      rw [List.getElem?_eq_none hl]
    | some l =>
      obtain ⟨scanned, hi, hscan⟩ := hlines i l hl
      dsimp only
      rw [hi, hstart hl, hscan]
      rfl
  refine ⟨rfl, rfl, fun i l hl => by rw [startState, hl]; rfl, fun i l hl => ?_,
    ls, hls, hstates, ?_, hline, fun i => ?_, ?_⟩
  · -- the scan of the line ends in the state at its index in the list of all states
    obtain ⟨scanned, hi, hscan⟩ := hlines i l hl
    have hstop := congrArg (fun states => states[i]?) hstates
    simp only [List.getElem?_map, hl, hi, Option.map_some, Option.some.injEq] at hstop
    rw [hstart hl, hscan, hstop]
    rfl
  · rw [scannedLines, Outcome.filterMapM_eq_ok fun i _ => hline i, size, hlen,
      filterMap_getElem?_range]
  · rw [startState, ← List.getElem?_map, hstates, List.getElem?_map]
  · rw [endState, ← List.getLast?_map, hstates, List.getLast?_map]

theorem ofText_eq_ok_iff {text : String} : ofText t text = .ok d ↔
    d.lines.map (·.text) = (bufferLines text.toList).map String.ofList ∧
      t.Chained .initial d.lines := by
  obtain ⟨lines⟩ := d
  rw [ofText, ← Table.documentLines_eq_ok_iff, Outcome.bind_eq_ok_iff]
  constructor
  · rintro ⟨ls, hls, h⟩
    obtain rfl := Document.mk.inj (Except.ok.inj h)
    exact hls
  · exact fun hls => ⟨lines, hls, rfl⟩

/-- **Edits keep a document in agreement** with a scan of its lines from scratch. -/
theorem agrees_editAll (hok : ∀ text state, ∃ stop, t.endState text state = .ok stop)
    {text : String} (h : ofText t text = .ok d) (es : List Edit) :
    (d.editAll t es).Agrees t
      (es.foldl Edit.apply ((bufferLines text.toList).map String.ofList)) := by
  obtain ⟨htexts, hch⟩ := ofText_eq_ok_iff.1 h
  obtain ⟨htexts', hch'⟩ := editAll_spec hok hch es
  rw [← htexts, ← htexts']
  exact agrees_of_chained hch'

end Document

end LineLexer
