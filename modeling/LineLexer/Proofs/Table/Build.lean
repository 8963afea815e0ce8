import LineLexer.Proofs.Outcome
import LineLexer.Table

/-!
# Tables that were built

When a rule is read (`Rule.ofText_eq_ok_iff`), what the table of a draft consists of
(`TableDraft.build_eq_ok_iff`), and what the checks of a draft ensure for every state
(`TableDraft.checkState_eq_ok_iff`): one of its rules matches at the end of a line, and one that
is meant to cover everything gets on with one text of one character.
-/

namespace LineLexer

namespace Rule

theorem checkGroups_eq_ok_iff {state : State} {text : RuleText} {groups : Nat} :
    checkGroups state text groups = .ok () ↔
      ∀ kinds, text.classification = .perGroup kinds → groups = kinds.length := by
  unfold checkGroups
  split
  · rename_i kinds hkinds
    by_cases h : groups = kinds.length
    · simp [hkinds, h]
    · simp [hkinds, h]
  · rename_i hne
    exact ⟨fun _ kinds hkinds => absurd hkinds (hne kinds), fun _ => rfl⟩

/-- **A rule is read** if its patterns are, and every group has a kind where kinds are given. -/
theorem ofText_eq_ok_iff {state : State} {text : RuleText} {r : Rule} :
    ofText state text = .ok r ↔ r.text = text ∧
      readPattern state text.pattern = .ok r.pattern ∧
      text.ahead.mapM (readPattern state) = .ok r.ahead ∧
      ∀ kinds, text.classification = .perGroup kinds → r.pattern.groupCount = kinds.length := by
  obtain ⟨text', pattern, ahead⟩ := r
  rw [ofText, Outcome.bind_eq_ok_iff]
  constructor
  · rintro ⟨p, hp, h⟩
    obtain ⟨a, ha, h⟩ := Outcome.bind_eq_ok_iff.1 h
    obtain ⟨_, hgroups, h⟩ := Outcome.bind_eq_ok_iff.1 h
    obtain ⟨rfl, rfl, rfl⟩ := Rule.mk.inj (Except.ok.inj h)
    exact ⟨rfl, hp, ha, checkGroups_eq_ok_iff.1 hgroups⟩
  · rintro ⟨rfl, hp, ha, hgroups⟩
    refine ⟨pattern, hp, Outcome.bind_eq_ok_iff.2 ⟨ahead, ha, ?_⟩⟩
    exact Outcome.bind_eq_ok_iff.2 ⟨(), checkGroups_eq_ok_iff.2 hgroups, rfl⟩

theorem readPattern_eq_ok_iff {state : State} {pattern : String} {p : Pattern} :
    readPattern state pattern = .ok p ↔ Pattern.ofText (framed pattern) = .ok p := by
  unfold readPattern
  cases Pattern.ofText (framed pattern) with
  | error e => simp
  | ok q => simp

end Rule

namespace TableDraft

/-- The rules of one state, read. -/
def readEntry (entry : State × List RuleText) : Except TableError (State × List Rule) := do
  return (entry.1, ← entry.2.mapM (Rule.ofText entry.1))

theorem readEntry_eq_ok_iff {entry : State × List RuleText} {read : State × List Rule} :
    readEntry entry = .ok read ↔
      entry.1 = read.1 ∧ entry.2.mapM (Rule.ofText entry.1) = .ok read.2 := by
  obtain ⟨s, rules⟩ := read
  rw [readEntry, Outcome.bind_eq_ok_iff]
  constructor
  · rintro ⟨rs, hrs, heq⟩
    obtain ⟨rfl, rfl⟩ := Prod.mk.inj (Except.ok.inj heq)
    exact ⟨rfl, hrs⟩
  · rintro ⟨rfl, hrs⟩
    exact ⟨rules, hrs, rfl⟩

theorem build_eq_ok_iff {d : TableDraft} {t : Table} :
    d.build = .ok t ↔ ∃ lexicon entries, Lexicon.ofVocabulary d.vocabulary = .ok lexicon ∧
      d.entries.mapM readEntry = .ok entries ∧
      (∀ state, checkState state (rulesOf entries state) = .ok ()) ∧
      t = ⟨lexicon, rulesOf entries⟩ := by
  have hcheck (entries : List (State × List Rule)) :
      (∀ state ∈ State.all, checkState state (rulesOf entries state) = .ok ()) ↔
        ∀ state, checkState state (rulesOf entries state) = .ok () :=
    ⟨fun h state => h state state.mem_all, fun h state _ => h state⟩
  rw [build, Outcome.bind_eq_ok_iff]
  refine exists_congr fun lexicon => ?_
  rw [Outcome.bind_eq_ok_iff, ← exists_and_left]
  refine exists_congr fun entries => and_congr_right fun _ => and_congr_right fun _ => ?_
  rw [Outcome.bind_eq_ok_iff]
  constructor
  · rintro ⟨_, hstates, ht⟩
    exact ⟨(hcheck entries).1 (Outcome.forM_eq_ok_iff.1 hstates), (Except.ok.inj ht).symm⟩
  · rintro ⟨hstates, rfl⟩
    exact ⟨(), Outcome.forM_eq_ok_iff.2 ((hcheck entries).2 hstates), rfl⟩

theorem checkState_eq_ok_iff {state : State} {rules : List Rule} :
    checkState state rules = .ok () ↔ (∃ r ∈ rules, (r.matchAt []).isSome) ∧
      ∃ r ∈ rules, r.text.fallback ∧ coversAnything state r := by
  rw [checkState, ← List.any_eq_true]
  simp only [← Bool.and_eq_true]
  rw [← List.any_eq_true]
  cases hend : rules.any fun r => (r.matchAt []).isSome
  · cases rules <;> simp
  · cases hany : rules.any fun r => r.text.fallback && coversAnything state r
    · cases rules <;> simp
    · cases rules
      · simp at hend
      · simp

/-- One more rule in front does no harm to the checks. -/
theorem checkState_cons {state : State} {r : Rule} {rs : List Rule}
    (h : checkState state rs = .ok ()) : checkState state (r :: rs) = .ok () := by
  rw [checkState_eq_ok_iff] at h ⊢
  obtain ⟨⟨q, hq, hend⟩, q', hq', hcover⟩ := h
  exact ⟨⟨q, List.mem_cons_of_mem _ hq, hend⟩, q', List.mem_cons_of_mem _ hq', hcover⟩

theorem exists_matchAt_nil {d : TableDraft} {t : Table} (h : d.build = .ok t) (state : State) :
    ∃ r ∈ t.rules state, (r.matchAt []).isSome := by
  obtain ⟨lexicon, entries, -, -, hcheck, rfl⟩ := build_eq_ok_iff.1 h
  exact (checkState_eq_ok_iff.1 (hcheck state)).1

theorem exists_mem_of_mem_rulesOf {α : Type} {entries : List (State × List α)} {state : State}
    {x : α} (h : x ∈ rulesOf entries state) : ∃ xs, (state, xs) ∈ entries ∧ x ∈ xs := by
  unfold rulesOf at h
  cases hl : entries.lookup state with
  | none => simp [hl] at h
  | some xs =>
    rw [hl, Option.getD_some] at h
    obtain ⟨front, back, rfl, -⟩ := List.lookup_eq_some_iff.1 hl
    exact ⟨xs, by simp, h⟩

/-- Every rule of a built table is a declared rule of the state, read. -/
theorem exists_entry_of_mem_rules {d : TableDraft} {t : Table} (h : d.build = .ok t)
    {state : State} {r : Rule} (hr : r ∈ t.rules state) :
    ∃ texts, (state, texts) ∈ d.entries ∧ r.text ∈ texts ∧ Rule.ofText state r.text = .ok r := by
  obtain ⟨lexicon, entries, -, hentries, -, rfl⟩ := build_eq_ok_iff.1 h
  obtain ⟨rs, hrs, hrule⟩ := exists_mem_of_mem_rulesOf hr
  obtain ⟨⟨s, texts⟩, hentry, hread⟩ := Outcome.exists_of_mem_mapM hentries hrs
  obtain ⟨rfl, htexts⟩ := readEntry_eq_ok_iff.1 hread
  obtain ⟨text, hmem, htext⟩ := Outcome.exists_of_mem_mapM htexts hrule
  obtain ⟨rfl, -⟩ := Rule.ofText_eq_ok_iff.1 htext
  exact ⟨texts, hentry, hmem, htext⟩

end TableDraft

end LineLexer
