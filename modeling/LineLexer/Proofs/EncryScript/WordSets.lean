import LineLexer.Proofs.EncryScript.Structure

/-!
# The lists of a vocabulary are sets

In which order a list of a vocabulary names its words, and how often, makes no difference to any
line (`EncryScript.scanLine_of_sameWords`).  The lexicon asks only whether a list has a word
(`Lexicon.kindOf_congr`), and the rule of typed parameters, whose pattern names the types one after
the other, takes the longest type that is there (`EncryScript.Grammar.matchAt_typedParameter`).
-/

namespace LineLexer

/-- Corresponding lists have the same words. -/
def Vocabulary.SameWords (v v' : Vocabulary) : Prop := ∀ c w, w ∈ v.words c ↔ w ∈ v'.words c

theorem Lexicon.kindOf_congr {v v' : Vocabulary} (h : v.SameWords v') (word : String) :
    (ofWords v).kindOf word = (ofWords v').kindOf word := by
  have hfind : (WordClass.byPriority.find? fun c => decide (word ∈ v.words c)) =
      WordClass.byPriority.find? fun c => decide (word ∈ v'.words c) := by
    congr 1
    funext c
    exact decide_eq_decide.2 (h c word)
  rw [kindOf_ofWords, kindOf_ofWords, hfind]

namespace EncryScript

open Grammar

/-- **Order and repetition of words do not matter**: vocabularies whose lists have the same words
classify every line alike, in every state. -/
theorem scanLine_of_sameWords {v v' : Vocabulary} (hv : v.Valid) (hv' : v'.Valid)
    (h : v.SameWords v') :
    ∃ t t', table v = .ok t ∧ table v' = .ok t' ∧ ∀ line state, ∃ l,
      t.scanLine line state = .ok l ∧ t'.scanLine line state = .ok l := by
  refine ⟨tableOf v, tableOf v', table_eq hv, table_eq hv', ?_⟩
  intro line state
  obtain ⟨l, hl, -⟩ := (total_tableOf v).exists_scanLine_eq_ok line state
  have htypes (w : String) : w ∈ v.types ↔ w ∈ v'.types := h .types w
  exact ⟨l, hl, Table.scanLine_of_alike (alike_rules hv hv' htypes) (Lexicon.kindOf_congr h) hl⟩

/-- Every list backwards, and then once more. -/
def doubled (v : Vocabulary) : Vocabulary where
  keywords := v.keywords.reverse ++ v.keywords
  controlKeywords := v.controlKeywords.reverse ++ v.controlKeywords
  constants := v.constants.reverse ++ v.constants
  functions := v.functions.reverse ++ v.functions
  types := v.types.reverse ++ v.types
  libraryRoots := v.libraryRoots.reverse ++ v.libraryRoots
  structures := v.structures.reverse ++ v.structures

theorem words_doubled (v : Vocabulary) (c : WordClass) :
    (doubled v).words c = (v.words c).reverse ++ v.words c := by
  cases c <;> rfl

theorem sameWords_doubled (v : Vocabulary) : v.SameWords (doubled v) := by
  intro c w
  rw [words_doubled, List.mem_append, List.mem_reverse, or_self]

theorem valid_doubled {v : Vocabulary} (hv : v.Valid) : (doubled v).Valid := by
  rw [Vocabulary.valid_iff]
  intro c
  have hwords := hv.words_ne_nil c
  rw [words_doubled]
  refine ⟨by simp [hwords], ?_⟩
  intro w hw
  rw [List.mem_append, List.mem_reverse, or_self] at hw
  exact hv.isIdentifier hw

/-- The patterns of the types differ, and still the lines are classified alike. -/
theorem scanLine_doubled_builtin : Vocabulary.builtin.Valid ∧ (doubled .builtin).Valid ∧
    Vocabulary.builtin.SameWords (doubled .builtin) ∧
    Vocabulary.builtin.typesPattern ≠ (doubled .builtin).typesPattern ∧
    ∃ t t', table .builtin = .ok t ∧ table (doubled .builtin) = .ok t' ∧ ∀ line state, ∃ l,
      t.scanLine line state = .ok l ∧ t'.scanLine line state = .ok l :=
  ⟨Vocabulary.valid_builtin, valid_doubled Vocabulary.valid_builtin, sameWords_doubled .builtin,
    by decide +kernel, scanLine_of_sameWords Vocabulary.valid_builtin
      (valid_doubled Vocabulary.valid_builtin) (sameWords_doubled .builtin)⟩

end EncryScript

end LineLexer
