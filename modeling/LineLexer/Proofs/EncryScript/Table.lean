import LineLexer.Proofs.EncryScript.Grammar
import LineLexer.Proofs.Table.Build

/-!
# The table of EncryScript

Over a valid vocabulary the rule table of EncryScript is built (`EncryScript.table_eq`): it has
the rules `Grammar.rules` and the lexicon of the vocabulary.  The rest of the development works
on these rules and reads no pattern text any more.
-/

namespace LineLexer

namespace Lexicon

/-- The words of a vocabulary with their kinds. -/
def ofWords (v : Vocabulary) : Lexicon := WordClass.byPriority.foldl (addClass v) empty

theorem ofVocabulary_eq {v : Vocabulary} (hv : v.Valid) : ofVocabulary v = .ok (ofWords v) := by
  rw [ofVocabulary, show v.validate = .ok () from hv]
  rfl

end Lexicon

theorem Vocabulary.valid_builtin : builtin.Valid := by
  unfold Valid
  decide +kernel

namespace EncryScript

/-- The rule table over a valid vocabulary. -/
def tableOf (v : Vocabulary) : Table := ⟨Lexicon.ofWords v, Grammar.rules v⟩

namespace Grammar

/-! ### The checks of the draft -/

theorem checkState_rules (v : Vocabulary) (state : State) :
    TableDraft.checkState state (rules v state) = .ok () := by
  by_cases hstate : state = .functionArguments
  · subst hstate
    rw [rules_functionArguments]
    apply TableDraft.checkState_cons
    decide +kernel
  · have hfixed : ∀ s ∈ State.all, s ≠ .functionArguments →
        TableDraft.checkState s (rules .builtin s) = .ok () := by decide +kernel
    rw [rules_eq v hstate]
    exact hfixed state state.mem_all hstate

end Grammar

/-! ### The table -/

theorem draft_entries (v : Vocabulary) :
    (draft v).entries = State.all.map fun state => (state, Grammar.texts v state) := rfl

theorem readEntries (v : Vocabulary) :
    (draft v).entries.mapM TableDraft.readEntry =
      .ok (State.all.map fun state => (state, Grammar.rules v state)) := by
  have hread (state : State) : TableDraft.readEntry (state, Grammar.texts v state) =
      .ok (state, Grammar.rules v state) := by
    simp only [TableDraft.readEntry, Grammar.read_texts]
    rfl
  rw [draft_entries, List.mapM_map]
  simp only [Function.comp_def, hread]
  exact List.mapM_pure

theorem rulesOf_map (v : Vocabulary) (state : State) :
    TableDraft.rulesOf (State.all.map fun state => (state, Grammar.rules v state)) state =
      Grammar.rules v state := by
  cases state <;> rfl

/-- **The table over a valid vocabulary** is built, and is `tableOf`. -/
theorem table_eq {v : Vocabulary} (hv : v.Valid) : table v = .ok (tableOf v) := by
  have hbuild : (draft v).build = .ok (tableOf v) := by
    refine TableDraft.build_eq_ok_iff.2 ⟨_, _, Lexicon.ofVocabulary_eq hv, readEntries v, ?_, ?_⟩
    · intro state
      rw [rulesOf_map]
      exact Grammar.checkState_rules v state
    · rw [tableOf, funext (rulesOf_map v)]
      rfl
  rw [table, show v.validate = .ok () from hv]
  exact hbuild

end EncryScript

end LineLexer
