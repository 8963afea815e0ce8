import LineLexer.Proofs.Document.SameStates
import LineLexer.Proofs.EncryScript.Parameters
import LineLexer.Proofs.EncryScript.WholeText
import LineLexer.Proofs.Scan.Twins

/-!
# Words do not change the structure of a line

Of a vocabulary only the set of types takes part in the rules.  So vocabularies with the same types
have tables that are twins (`EncryScript.twins_tableOf`): lines and documents have the same states
over both, and a byte has different kinds only if both are kinds of words
(`EncryScript.structure_of_types`).
-/

namespace LineLexer

namespace EncryScript

open Grammar

variable {v v' : Vocabulary}

theorem alike_typedParameterRead (hv : v.Valid) (hv' : v'.Valid)
    (htypes : ∀ w, w ∈ v.types ↔ w ∈ v'.types) :
    (typedParameterRead v).Alike (typedParameterRead v') :=
  ⟨matchAt_typedParameter_congr hv hv' htypes, rfl, rfl, rfl⟩

/-- **Vocabularies with the same types have rules that are alike.** -/
theorem alike_rules (hv : v.Valid) (hv' : v'.Valid) (htypes : ∀ w, w ∈ v.types ↔ w ∈ v'.types)
    (state : State) : List.Forall₂ Rule.Alike (rules v state) (rules v' state) := by
  have hsame (rs : List Rule) : List.Forall₂ Rule.Alike rs rs :=
    List.forall₂_same.2 fun r _ => .refl r
  by_cases hstate : state = .functionArguments
  · rw [hstate, rules_functionArguments, rules_functionArguments]
    exact .cons (alike_typedParameterRead hv hv' htypes) (hsame _)
  · rw [rules_eq v hstate, rules_eq v' hstate]
    exact hsame _

/-- **Vocabularies with the same types have tables that are twins.** -/
theorem twins_tableOf (hv : v.Valid) (hv' : v'.Valid) (htypes : ∀ w, w ∈ v.types ↔ w ∈ v'.types) :
    (tableOf v).Twins (tableOf v') where
  rules := alike_rules hv hv' htypes
  kindOf word := .inr ⟨Lexicon.isVocabulary_kindOf v word, Lexicon.isVocabulary_kindOf v' word⟩

theorem exists_kinds_of_alike {l l' : ScannedLine} {n : Nat} (h : l.Alike l')
    (hcovered : ∃ kind, l.kindAt? n = some kind) :
    ∃ k k', l.kindAt? n = some k ∧ l'.kindAt? n = some k' ∧ k.Alike k' := by
  obtain ⟨k, hk⟩ := hcovered
  have hrel := h.kindAt? n
  rw [hk] at hrel
  cases hk' : l'.kindAt? n with
  | none =>
    rw [hk'] at hrel
    cases hrel
  | some k' =>
    rw [hk'] at hrel
    cases hrel with
    | some halike => exact ⟨k, k', hk, rfl, halike⟩

theorem endState_eq_of_twins (h : (tableOf v).Twins (tableOf v')) :
    (tableOf v).endState = (tableOf v').endState := by
  funext line state
  obtain ⟨l, hl, -⟩ := (total_tableOf v).exists_scanLine_eq_ok line state
  obtain ⟨l', hl', halike⟩ := h.scanLine hl
  rw [Table.endState_eq_map_scanLine, Table.endState_eq_map_scanLine, hl, hl']
  exact congrArg Except.ok halike.endState_eq

/-- **Only the types of a vocabulary take part in the structure of a text**, and they do so as a
set. -/
theorem structure_of_types {v v' : Vocabulary} (hv : v.Valid) (hv' : v'.Valid)
    (htypes : ∀ w, w ∈ v.types ↔ w ∈ v'.types) :
    ∃ t t', table v = .ok t ∧ table v' = .ok t' ∧
      (∀ line state, ∃ l l', t.scanLine line state = .ok l ∧ t'.scanLine line state = .ok l' ∧
        l.endState = l'.endState ∧ ∀ n < line.utf8ByteSize, ∃ k k', l.kindAt? n = some k ∧
          l'.kindAt? n = some k' ∧ (k = k' ∨ k.isVocabulary ∧ k'.isVocabulary)) ∧
      (∀ text state, ∃ ls ls', t.scanText text state = .ok ls ∧
        t'.scanText text state = .ok ls' ∧ ls.map (·.endState) = ls'.map (·.endState)) ∧
      ∀ text, ∃ d, Document.ofText t text = .ok d ∧ Document.ofText t' text = .ok d ∧
        ∀ es : List Edit, d.editAll t es = d.editAll t' es := by
  have htwins := twins_tableOf hv hv' htypes
  refine ⟨_, _, table_eq hv, table_eq hv', ?_, ?_, ?_⟩
  · intro line state
    obtain ⟨l, hl, hpartition, -⟩ := (total_tableOf v).exists_scanLine_eq_ok line state
    obtain ⟨l', hl', halike⟩ := htwins.scanLine hl
    refine ⟨l, l', hl, hl', halike.endState_eq, ?_⟩
    intro n hn
    exact exists_kinds_of_alike halike (hpartition.exists_kindAt? hn)
  · intro text state
    obtain ⟨ls, hls⟩ := exists_scanText_eq_ok v text state
    obtain ⟨ls', hls', halike⟩ := htwins.scanLines hls
    refine ⟨ls, ls', hls, hls', ?_⟩
    have hstates : List.Forall₂ Eq (ls.map (·.endState)) (ls'.map (·.endState)) := by
      rw [List.forall₂_map_left_iff, List.forall₂_map_right_iff]
      exact halike.imp fun _ _ h => h.endState_eq
    rwa [List.forall₂_eq_eq_eq] at hstates
  · intro text
    have hstates := endState_eq_of_twins htwins
    obtain ⟨d, hd⟩ := exists_ofText_eq_ok v text
    refine ⟨d, hd, ?_, fun es => Document.editAll_congr hstates d es⟩
    rw [← Document.ofText_congr hstates, hd]

/-- The built-in types in another order, one of them twice, with other words in the other lists. -/
def otherWords : Vocabulary where
  keywords := ["x", "def"]
  controlKeywords := ["Int"]
  constants := ["y"]
  functions := ["Int", "f"]
  types := "Int" :: Vocabulary.builtin.types.reverse
  libraryRoots := ["return"]
  structures := ["let"]

theorem valid_otherWords : otherWords.Valid := by
  unfold Vocabulary.Valid
  decide +kernel

theorem mem_types_otherWords (w : String) :
    w ∈ Vocabulary.builtin.types ↔ w ∈ otherWords.types := by
  have hint : "Int" ∈ Vocabulary.builtin.types := by decide
  rw [otherWords, List.mem_cons, List.mem_reverse]
  constructor
  · exact .inr
  · rintro (rfl | h)
    · exact hint
    · exact h

/-- Over the other words the first name and the arrow are one token, and still the bytes have kinds
that are alike. -/
theorem structure_otherWords : Vocabulary.builtin.Valid ∧ otherWords.Valid ∧
    (∀ w, w ∈ Vocabulary.builtin.types ↔ w ∈ otherWords.types) ∧
    ∃ t t' l l', table .builtin = .ok t ∧ table otherWords = .ok t' ∧
      t.scanLine "x->y" .start = .ok l ∧ t'.scanLine "x->y" .start = .ok l' ∧
      l.tokens = [⟨.identifier, "x", ⟨0, 1⟩⟩, ⟨.keyword, "->", ⟨1, 3⟩⟩,
        ⟨.identifier, "y", ⟨3, 4⟩⟩] ∧
      l'.tokens = [⟨.keyword, "x->", ⟨0, 3⟩⟩, ⟨.builtinConstant, "y", ⟨3, 4⟩⟩] ∧
      l.endState = l'.endState ∧ ∀ n < 4, ∃ k k', l.kindAt? n = some k ∧
        l'.kindAt? n = some k' ∧ (k = k' ∨ k.isVocabulary ∧ k'.isVocabulary) := by
  obtain ⟨t, t', ht, ht', hscan, -⟩ :=
    structure_of_types Vocabulary.valid_builtin valid_otherWords mem_types_otherWords
  obtain ⟨l, l', hl, hl', hend, hkinds⟩ := hscan "x->y" .start
  have hfirst : (tableOf .builtin).scanLine "x->y" .start = .ok ⟨[⟨.identifier, "x", ⟨0, 1⟩⟩,
      ⟨.keyword, "->", ⟨1, 3⟩⟩, ⟨.identifier, "y", ⟨3, 4⟩⟩], .start⟩ := by decide +kernel
  have hsecond : (tableOf otherWords).scanLine "x->y" .start =
      .ok ⟨[⟨.keyword, "x->", ⟨0, 3⟩⟩, ⟨.builtinConstant, "y", ⟨3, 4⟩⟩], .start⟩ := by
    decide +kernel
  have htable : t = tableOf .builtin :=
    Except.ok.inj (ht.symm.trans (table_eq Vocabulary.valid_builtin))
  have htable' : t' = tableOf otherWords := Except.ok.inj (ht'.symm.trans (table_eq valid_otherWords))
  refine ⟨Vocabulary.valid_builtin, valid_otherWords, mem_types_otherWords, t, t', l, l', ht, ht',
    hl, hl', ?_, ?_, hend, hkinds⟩
  · rw [htable, hfirst] at hl
    exact congrArg ScannedLine.tokens (Except.ok.inj hl).symm
  · rw [htable', hsecond] at hl'
    exact congrArg ScannedLine.tokens (Except.ok.inj hl').symm

end EncryScript

end LineLexer
