import LineLexer.Document
import LineLexer.Proofs.Outcome

/-!
# Chained lines

The stored states of a document are right if every line ends in its stored state when it begins
in the state that the line before it ends in (`Table.Chained`).  Scanning lines from scratch
gives chained lines (`Table.documentLines_eq_ok_iff`).  Scanning again after a change needs only
that the lines after the first are chained to its old state (`Table.Rescanned.chained`): where it
stops early, the rest is chained already.
-/

namespace LineLexer

/-! ### The state after lines -/

/-- The state after the lines, the first of which begins in `state`. -/
def DocumentLine.stateAfter (state : State) : List DocumentLine → State
  | [] => state
  | l :: ls => stateAfter l.endState ls

theorem DocumentLine.stateAfter_concat (state : State) (ls : List DocumentLine)
    (l : DocumentLine) : stateAfter state (ls ++ [l]) = l.endState := by
  induction ls generalizing state with
  | nil => rfl
  | cons _ _ ih => exact ih _

namespace Document

theorem startState_eq_stateAfter (d : Document) {index : Nat} (h : index ≤ d.size) :
    d.startState index = DocumentLine.stateAfter .initial (d.lines.take index) := by
  cases index with
  | zero => rfl
  | succ i =>
    rw [startState, List.take_succ_eq_append_getElem h, DocumentLine.stateAfter_concat,
      List.getElem?_eq_getElem h]
    rfl

end Document

namespace Table

/-! ### Chained lines -/

/-- Every line ends in its stored state, the first beginning in `state` and every other one in
the stored state of the line before it. -/
inductive Chained (t : Table) : State → List DocumentLine → Prop where
  | nil (state : State) : Chained t state []
  | cons {state : State} {l : DocumentLine} {ls : List DocumentLine} :
      t.endState l.text state = .ok l.endState → Chained t l.endState ls →
      Chained t state (l :: ls)

variable {t : Table} {state : State}

theorem chained_append_iff {xs ys : List DocumentLine} : t.Chained state (xs ++ ys) ↔
    t.Chained state xs ∧ t.Chained (DocumentLine.stateAfter state xs) ys := by
  induction xs generalizing state with
  | nil => exact ⟨fun h => ⟨.nil _, h⟩, And.right⟩
  | cons x xs ih =>
    constructor
    · rintro (_ | ⟨hx, h⟩)
      obtain ⟨hxs, hys⟩ := ih.1 h
      exact ⟨.cons hx hxs, hys⟩
    · rintro ⟨_ | ⟨hx, hxs⟩, hys⟩
      exact .cons hx (ih.2 ⟨hxs, hys⟩)

/-- **Lines scanned from scratch are the chained ones.** -/
theorem documentLines_eq_ok_iff {texts : List String} {ls : List DocumentLine} :
    t.documentLines state texts = .ok ls ↔ ls.map (·.text) = texts ∧ t.Chained state ls := by
  induction texts generalizing state ls with
  | nil =>
    rw [documentLines]
    constructor
    · rintro h
      obtain rfl := Except.ok.inj h
      exact ⟨rfl, .nil _⟩
    · rintro ⟨h, -⟩
      rw [List.map_eq_nil_iff.1 h]
  | cons text texts ih =>
    rw [documentLines, Outcome.bind_eq_ok_iff]
    constructor
    · rintro ⟨stop, hstop, h⟩
      obtain ⟨later, hlater, h⟩ := Outcome.bind_eq_ok_iff.1 h
      obtain rfl := Except.ok.inj h
      obtain ⟨rfl, hch⟩ := ih.1 hlater
      exact ⟨rfl, .cons hstop hch⟩
    · rintro ⟨htexts, hch⟩
      cases hch with
      | nil => simp at htexts
      | @cons _ l ls hl hch =>
        obtain ⟨rfl, rfl⟩ := List.cons.inj htexts
        refine ⟨l.endState, hl, Outcome.bind_eq_ok_iff.2 ⟨ls, ih.2 ⟨rfl, hch⟩, rfl⟩⟩

theorem exists_documentLines_eq_ok (hok : ∀ text state, ∃ stop, t.endState text state = .ok stop)
    (state : State) (texts : List String) : ∃ ls, t.documentLines state texts = .ok ls := by
  induction texts generalizing state with
  | nil => exact ⟨[], rfl⟩
  | cons text texts ih =>
    obtain ⟨stop, hstop⟩ := hok text state
    obtain ⟨ls, hls⟩ := ih stop
    exact ⟨⟨text, stop⟩ :: ls, Outcome.bind_eq_ok_iff.2
      ⟨stop, hstop, Outcome.bind_eq_ok_iff.2 ⟨ls, hls, rfl⟩⟩⟩

/-! ### Scanning again -/

theorem Chained.tail {lines : List DocumentLine} (h : t.Chained state lines) :
    ∀ l ∈ lines.head?, t.Chained l.endState lines.tail := by
  cases h with
  | nil => simp
  | cons _ h => simpa using h

/-- Scanning `lines` again gives `ls`, and the first `n` lines are scanned for it: up to the first
one that ends in its stored state, or up to the last one. -/
inductive Rescanned (t : Table) : State → List DocumentLine → List DocumentLine → Nat → Prop where
  | nil (state : State) : Rescanned t state [] [] 0
  | stop {state : State} {l : DocumentLine} {lines : List DocumentLine} :
      t.endState l.text state = .ok l.endState → Rescanned t state (l :: lines) (l :: lines) 1
  | next {state stop : State} {l : DocumentLine} {lines ls : List DocumentLine} {n : Nat} :
      t.endState l.text state = .ok stop → stop ≠ l.endState → Rescanned t stop lines ls n →
      Rescanned t state (l :: lines) (⟨l.text, stop⟩ :: ls) (n + 1)

variable {lines ls : List DocumentLine} {n : Nat}

theorem rescan_eq_ok_iff :
    t.rescan state lines = .ok (ls, n) ↔ t.Rescanned state lines ls n := by
  induction lines generalizing state ls n with
  | nil =>
    rw [rescan]
    constructor
    · intro h
      obtain ⟨rfl, rfl⟩ := Prod.mk.inj (Except.ok.inj h)
      exact .nil _
    · rintro ⟨⟩
      rfl
  | cons l lines ih =>
    rw [rescan, Outcome.bind_eq_ok_iff]
    constructor
    · rintro ⟨stop, hstop, h⟩
      by_cases hsame : stop = l.endState
      · rw [if_pos hsame] at h
        obtain ⟨rfl, rfl⟩ := Prod.mk.inj (Except.ok.inj h)
        exact .stop (hsame ▸ hstop)
      · rw [if_neg hsame] at h
        obtain ⟨⟨later, m⟩, hlater, h⟩ := Outcome.bind_eq_ok_iff.1 h
        obtain ⟨rfl, rfl⟩ := Prod.mk.inj (Except.ok.inj h)
        exact .next hstop hsame (ih.1 hlater)
    · rintro (_ | hl | ⟨hl, hne, hlater⟩)
      · exact ⟨_, hl, if_pos rfl⟩
      · exact ⟨_, hl, (if_neg hne).trans (Outcome.bind_eq_ok_iff.2 ⟨_, ih.2 hlater, rfl⟩)⟩

/-- Lines that can be scanned from scratch can be scanned again. -/
theorem exists_rescanned (h : t.documentLines state (lines.map (·.text)) = .ok ls) :
    ∃ ls n, t.Rescanned state lines ls n := by
  induction lines generalizing state ls with
  | nil => exact ⟨[], 0, .nil _⟩
  | cons l lines ih =>
    obtain ⟨stop, hstop, h⟩ := Outcome.bind_eq_ok_iff.1 h
    obtain ⟨later, hlater, -⟩ := Outcome.bind_eq_ok_iff.1 h
    by_cases hsame : stop = l.endState
    · exact ⟨_, _, .stop (hsame ▸ hstop)⟩
    · obtain ⟨ls, n, hls⟩ := ih hlater
      exact ⟨_, _, .next hstop hsame hls⟩

theorem Rescanned.map_text (h : t.Rescanned state lines ls n) :
    ls.map (·.text) = lines.map (·.text) := by
  induction h with
  | nil | stop => rfl
  | next _ _ _ ih => rw [List.map_cons, List.map_cons, ih]

/-- **Scanning again restores the chain** if the lines after the first are chained to the state
that is stored for it. -/
theorem Rescanned.chained (h : t.Rescanned state lines ls n)
    (hlines : ∀ l ∈ lines.head?, t.Chained l.endState lines.tail) : t.Chained state ls := by
  induction h with
  | nil => exact .nil _
  | stop hl =>
    -- the rest is chained to this state already
    exact .cons hl (hlines _ rfl)
  | next hl _ _ ih => exact .cons hl (ih (hlines _ rfl).tail)

/-! ### The scans of chained lines -/

theorem endState_eq_map_scanLine (t : Table) (line : String) (state : State) :
    t.endState line state = (t.scanLine line state).map (·.endState) := by
  rw [endState, scanLine]
  cases (t.scan line state).outcome <;> rfl

/-- **A scan of chained lines from scratch** ends every line in its stored state, and is the scan
of each line from the state that is stored before it. -/
theorem Chained.exists_scanLines_eq_ok {lines : List DocumentLine} (h : t.Chained state lines) :
    ∃ ls, t.scanLines state (lines.map (·.text)) = .ok ls ∧
      lines.map (·.endState) = ls.map (·.endState) ∧
      ∀ i l, lines[i]? = some l → ∃ scanned, ls[i]? = some scanned ∧
        t.scanLine l.text (DocumentLine.stateAfter state (lines.take i)) = .ok scanned := by
  induction h with
  | nil => exact ⟨[], rfl, rfl, by simp⟩
  | @cons state l lines hl _ ih =>
    rw [endState_eq_map_scanLine] at hl
    obtain ⟨scanned, hscan, hstop⟩ := Outcome.map_eq_ok_iff.1 hl
    obtain ⟨ls, hls, hstates, hlines⟩ := ih
    refine ⟨scanned :: ls, ?_, ?_, ?_⟩
    · rw [List.map_cons, scanLines]
      refine Outcome.bind_eq_ok_iff.2 ⟨scanned, hscan, Outcome.bind_eq_ok_iff.2 ⟨ls, ?_, rfl⟩⟩
      rw [hstop, hls]
    · rw [List.map_cons, List.map_cons, hstates, hstop]
    · rintro (_ | i) m hm
      · obtain rfl := Option.some.inj hm
        exact ⟨scanned, rfl, hscan⟩
      · exact hlines i m hm

end Table

end LineLexer
