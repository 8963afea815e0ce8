import LineLexer.Proofs.EncryScript.Table

/-!
# Which vocabularies are accepted

`Vocabulary.validate` is the only check that a vocabulary has to pass: the lexicon and the rule
table of EncryScript are refused exactly with its error (`EncryScript.accepts_as_validate`).  The
rules themselves are never at fault, whatever the words are: their patterns are read, their
groups have their kinds, and every state passes the checks of the draft.
-/

namespace LineLexer

theorem Lexicon.map_ofVocabulary (v : Vocabulary) :
    (Lexicon.ofVocabulary v).map (fun _ => ()) = v.validate := by
  cases hv : v.validate with
  | error e =>
    rw [Lexicon.ofVocabulary, hv]
    rfl
  | ok _ =>
    rw [Lexicon.ofVocabulary_eq hv]
    rfl

namespace EncryScript

theorem map_table (v : Vocabulary) : (table v).map (fun _ => ()) = v.validate := by
  cases hv : v.validate with
  | error e =>
    rw [table, hv]
    rfl
  | ok _ =>
    rw [table_eq hv]
    rfl

/-- The rules of a state are read, each with a kind for every group, and pass the checks. -/
theorem exists_rules_of_mem_entries (v : Vocabulary) {entry : State × List RuleText}
    (h : entry ∈ (draft v).entries) :
    ∃ rules, entry.2.mapM (Rule.ofText entry.1) = .ok rules ∧
      (∀ r ∈ rules, ∀ kinds, r.text.classification = .perGroup kinds →
        r.pattern.groupCount = kinds.length) ∧
      TableDraft.checkState entry.1 rules = .ok () := by
  rw [draft_entries] at h
  obtain ⟨state, -, rfl⟩ := List.mem_map.1 h
  have hread := Grammar.read_texts v state
  refine ⟨Grammar.rules v state, hread, ?_, Grammar.checkState_rules v state⟩
  intro r hr
  obtain ⟨text, -, htext⟩ := Outcome.exists_of_mem_mapM hread hr
  obtain ⟨rfl, -, -, hgroups⟩ := Rule.ofText_eq_ok_iff.1 htext
  exact hgroups

/-- **A valid vocabulary is all that the table needs.**  Validation, the lexicon and the table
accept the same vocabularies and refuse the others with the same error, for the rules of every
state are read and pass every check. -/
theorem accepts_as_validate (v : Vocabulary) :
    (Lexicon.ofVocabulary v).map (fun _ => ()) = v.validate ∧
      (table v).map (fun _ => ()) = v.validate ∧
      (draft v).entries.map (·.1) = State.all ∧
      ∀ entry ∈ (draft v).entries, ∃ rules, entry.2.mapM (Rule.ofText entry.1) = .ok rules ∧
        (∀ r ∈ rules, ∀ kinds, r.text.classification = .perGroup kinds →
          r.pattern.groupCount = kinds.length) ∧
        TableDraft.checkState entry.1 rules = .ok () := by
  refine ⟨Lexicon.map_ofVocabulary v, map_table v, rfl, ?_⟩
  intro entry hentry
  exact exists_rules_of_mem_entries v hentry

end EncryScript

end LineLexer
