import LineLexer.Proofs.EncryScript.Table
import LineLexer.Proofs.EncryScript.Words
import LineLexer.Proofs.Pattern.Fields
import LineLexer.Proofs.Pattern.Refusal
import LineLexer.Proofs.Table.Priority
import LineLexer.Proofs.Vocabulary

/-!
# What an applied rule has matched

The rules of EncryScript are bound to the start of the text, so a match is a text that the pattern
of the rule spells, with what has to follow it behind (`Grammar.exists_spells_of_matchAt`).  Of a
rule with groups it is one text for each group (`Grammar.exists_fields_of_matchAt`), and of a
rule that prefers the longest match it is the longest text (`Grammar.matchAt_eq_some_iff`).
-/

namespace LineLexer

namespace EncryScript

namespace Grammar

open Pattern

variable {text : RuleText} {p : Pattern} {ahead : Option Pattern} {rest : List Char} {m : Match}

/-- **A match of a rule** is a text that its pattern spells. -/
theorem exists_spells_of_matchAt (h : (anchored text p ahead).matchAt rest = some m) :
    ∃ w after, rest = w ++ after ∧ p.Spells none w after ∧ m.start = 0 ∧ m.stop = w.length ∧
      ∀ q ∈ ahead, ∃ u after', after = u ++ after' ∧ q.Spells none u after' := by
  obtain ⟨hfind, hahead⟩ := Rule.matchAt_eq_some_iff.1 h
  have hstart : (anchored text p ahead).pattern.startsAtTextStart := rfl
  obtain ⟨w, after, hrest, hspells, hzero, hstop⟩ := exists_spells_of_find? hstart hfind
  refine ⟨w, after, hrest, spells_textStart_seq.1 hspells, hzero, hstop, ?_⟩
  rintro q rfl
  -- what follows is looked for at the start of what is left
  have hdrop : rest.drop m.stop = after := by rw [hstop, hrest, List.drop_left]
  obtain ⟨m', hm'⟩ := Option.isSome_iff_exists.1 (hahead _ rfl)
  rw [hdrop] at hm'
  obtain ⟨u, after', hafter, hspells', -⟩ := exists_spells_of_find? rfl hm'
  exact ⟨u, after', hafter, spells_textStart_seq.1 hspells'⟩

theorem matchAt_eq_find? (text : RuleText) (p : Pattern) (rest : List Char) :
    (anchored text p none).matchAt rest = (seq (look .textStart) p).find? rest :=
  Rule.matchAt_eq_find? rfl rest

/-- Where the pattern of a rule spells the front of a text, the rule matches a text that the
pattern spells there, maybe another one. -/
theorem exists_matchAt_of_spells (text : RuleText) {w after : List Char}
    (h : p.Spells none w after) : ∃ u after' m, w ++ after = u ++ after' ∧ p.Spells none u after' ∧
      (anchored text p none).matchAt (w ++ after) = some m ∧ m.start = 0 ∧ m.stop = u.length := by
  have hsome := find?_isSome_of_spells (spells_textStart_seq.2 h)
  rw [← matchAt_eq_find? text] at hsome
  obtain ⟨m, hm⟩ := Option.isSome_iff_exists.1 hsome
  obtain ⟨u, after', hrest, hspells, hzero, hstop, -⟩ := exists_spells_of_matchAt hm
  exact ⟨u, after', m, hrest, hspells, hm, hzero, hstop⟩

/-! ### Groups -/

/-- The groups of a declaration. -/
def declarationFields : List Pattern :=
  [.word ['l', 'e', 't'], .plus true (.char ' '), .concat identifier]

/-- The groups of an access to a member. -/
def memberFields : List Pattern := [.concat identifier, .char '.', .concat identifier]

/-- The groups of the front of a function header. -/
def headerFields : List Pattern :=
  [.word ['d', 'e', 'f'], .plus true (.char ' '), .concat identifier, .char '(']

/-- The groups of a parameter with its type. -/
def parameterFields (names : List (List Char)) : List Pattern :=
  [.concat identifier, .char ':', .star true (.char ' '), .oneOf names]

theorem typedParameter_eq (names : List (List Char)) :
    typedParameter names = concat (fields 1 (parameterFields names) ++ [wordEdge]) := rfl

theorem eq_nil_of_spells_nil {before : Option Char} {w after : List Char}
    (h : (concat []).Spells before w after) : w = [] := h

theorem eq_nil_of_spells_wordEdge {before : Option Char} {w after : List Char}
    (h : (concat [wordEdge]).Spells before w after) : w = [] := h.1

/-- **A match of a rule with groups** is one text for each group, and the groups hold them. -/
theorem exists_fields_of_matchAt {ps qs : List Pattern} (hps : ∀ p ∈ ps, p.isPlain)
    (hqs : ∀ q ∈ qs, q.isPlain) (hne : ps ≠ [])
    (hlooks : ∀ before w after, (concat qs).Spells before w after → w = [])
    (h : (anchored text (concat (fields 1 ps ++ qs)) none).matchAt rest = some m) :
    ∃ ws after, rest = ws.flatten ++ after ∧ SpellEach ps none ws after ∧
      (concat qs).Spells ws.flatten.getLast? [] after ∧
      m = ⟨0, ws.flatten.length, spans 0 ws⟩ := by
  rw [matchAt_eq_find?] at h
  obtain ⟨ws, w, after, hrest, hspells, htail, hm⟩ := exists_fields_of_find? hps hqs hne h
  obtain rfl := hlooks _ _ _ htail
  rw [List.append_nil] at hrest hm
  exact ⟨ws, after, hrest, hspells, htail, hm⟩

/-- **The match of a rule with groups that prefers the longest match** is given by the texts that
are longer than all others. -/
theorem matchAt_of_fields {ps qs : List Pattern} (hps : ∀ p ∈ ps, p.isPlain)
    (hqs : ∀ q ∈ qs, q.isPlain) (hne : ps ≠ [])
    (hlooks : ∀ before w after, (concat qs).Spells before w after → w = [])
    (hfirst : (concat (fields 1 ps ++ qs)).LongestFirst) {ws : List (List Char)} {after : List Char}
    (hws : SpellEach ps none ws after) (hlook : (concat qs).Spells ws.flatten.getLast? [] after)
    (hbest : ∀ ws' after', ws.flatten ++ after = ws'.flatten ++ after' →
      SpellEach ps none ws' after' → (concat qs).Spells ws'.flatten.getLast? [] after' →
      ws' = ws ∨ ws'.flatten.length < ws.flatten.length) :
    (anchored text (concat (fields 1 ps ++ qs)) none).matchAt (ws.flatten ++ after) =
      some ⟨0, ws.flatten.length, spans 0 ws⟩ := by
  have hspells : (concat (fields 1 ps ++ qs)).Spells none ws.flatten after := by
    refine spells_concat_append.2 ⟨ws.flatten, [], (List.append_nil _).symm, ?_, ?_⟩
    · exact spells_concat_fields.2 ⟨ws, rfl, hws⟩
    · rwa [Option.or_none]
  obtain ⟨m, hm⟩ := Option.isSome_iff_exists.1
    (find?_isSome_of_spells (spells_textStart_seq.2 hspells))
  obtain ⟨w, _, hlongest, -, hstop⟩ :=
    exists_longest_of_find? rfl (hfirst.seq_of_single (single_look .textStart)) hm
  rw [← matchAt_eq_find? text] at hm
  obtain ⟨ws', after', htext, hws', hlook', rfl⟩ :=
    exists_fields_of_matchAt hps hqs hne hlooks hm
  rcases hbest ws' after' htext hws' hlook' with rfl | hlt
  · exact hm
  · -- shorter texts would not be the longest match
    have hle := (longest_textStart_seq.1 hlongest).longest _ _ rfl hspells
    rw [← hstop] at hle
    exact absurd hle (Nat.not_le_of_lt hlt)

/-- **The match of a rule that prefers the longest match.** -/
theorem matchAt_eq_some_iff (hplain : p.isPlain) (hp : p.LongestFirst) :
    (anchored text p none).matchAt rest = some m ↔
      ∃ w after, p.Longest rest w after ∧ m = ⟨0, w.length, []⟩ := by
  rw [matchAt_eq_find?, find?_eq_some_iff hplain hp]

/-- A rule for one character takes the next one, whatever it is. -/
theorem matchAt_anyChar (c : Char) (cs : List Char) :
    (anchored text anyChar none).matchAt (c :: cs) = some ⟨0, 1, []⟩ := by
  have hsingle : anyChar.LongestFirst := (single_set _).descending.longestFirst
  refine (matchAt_eq_some_iff rfl hsingle).2 ⟨[c], cs, ⟨rfl, ⟨c, rfl, rfl⟩, ?_⟩, rfl⟩
  rintro w after - ⟨c, -, rfl⟩
  exact Nat.le_refl 1

/-! ### Names of types -/

section

variable {v : Vocabulary} {w : List Char}

theorem mem_typeNames : w ∈ typeNames v ↔ String.ofList w ∈ v.types := by
  rw [typeNames, Vocabulary.mem_longerFirst, List.mem_map]
  constructor
  · rintro ⟨name, hname, rfl⟩
    rwa [String.ofList_toList]
  · intro h
    exact ⟨_, h, String.toList_ofList⟩

theorem isIdentifier_of_mem_typeNames (hv : v.Valid) (hw : w ∈ typeNames v) :
    isIdentifier (String.ofList w) := by
  have hmem : String.ofList w ∈ v.words .types := mem_typeNames.1 hw
  exact hv.isIdentifier hmem

theorem typeNames_ne_nil (hv : v.Valid) : typeNames v ≠ [] := by
  obtain ⟨name, names, hnames⟩ := List.exists_cons_of_ne_nil (hv.words_ne_nil .types)
  have hmem : String.ofList name.toList ∈ v.words .types := by
    rw [hnames, String.ofList_toList]
    exact List.mem_cons_self
  exact List.ne_nil_of_mem (mem_typeNames.2 hmem)

theorem isPlain_oneOf {ws : List (List Char)} (hws : ws ≠ []) : (oneOf ws).isPlain := by
  obtain ⟨u, us, rfl⟩ := List.exists_cons_of_ne_nil hws
  have hchoice : ∀ (p : Pattern) (ps : List Pattern), (∀ q ∈ p :: ps, q.isPlain) →
      (choice p ps).isPlain := by
    intro p ps hps
    induction ps generalizing p with
    | nil => exact hps p List.mem_cons_self
    | cons q qs ih =>
      obtain ⟨hp, hqs⟩ := List.forall_mem_cons.1 hps
      rw [choice, isPlain, hp, ih q hqs]
      rfl
  refine hchoice _ _ ?_
  intro q hq
  have hword : q ∈ (u :: us).map Pattern.word := hq
  obtain ⟨x, -, rfl⟩ := List.mem_map.1 hword
  exact isPlain_word x

theorem isPlain_parameterFields {names : List (List Char)} (hnames : names ≠ []) :
    ∀ p ∈ parameterFields names, p.isPlain := by
  simp only [parameterFields, List.forall_mem_cons, isPlain_oneOf hnames]
  decide

end

/-! ### Refusals -/

/-- The shape of the rule shows that it refuses every text which begins with `c` and has no
character that satisfies `q`. -/
def refuses (c : Char) (q : Char → Bool) (r : Rule) : Bool :=
  r.pattern.blockedBy c || r.pattern.needs q || r.ahead.any (·.needs q)

/-- **A rule refuses the texts that its shape shows it to refuse.** -/
theorem matchAt_eq_none_of_refuses {v : Vocabulary} {state : State} {r : Rule}
    (hr : r ∈ rules v state) {c : Char} {q : Char → Bool} (h : refuses c q r)
    (hhead : rest.head? = some c) (hrest : ∀ d ∈ rest, q d = false) : r.matchAt rest = none := by
  obtain ⟨⟨text, p, ahead⟩, -, rfl⟩ := List.mem_map.1 hr
  rw [refuses, Bool.or_eq_true, Bool.or_eq_true] at h
  rcases h with (h | h) | h
  · exact Rule.matchAt_eq_none_of_find? (find?_eq_none_of_blockedBy rfl h hhead)
  · exact Rule.matchAt_eq_none_of_find? (find?_eq_none_of_needs rfl h hrest)
  · cases ahead with
    | none => simp [anchored] at h
    | some a =>
      refine Rule.matchAt_eq_none_of_ahead rfl ?_
      intro m _
      refine find?_eq_none_of_needs rfl h ?_
      intro d hd
      exact hrest d (List.mem_of_mem_drop hd)

/-- A rule refuses a text that its pattern spells no front of. -/
theorem matchAt_eq_none (h : ∀ w after, rest = w ++ after → ¬ p.Spells none w after) :
    (anchored text p ahead).matchAt rest = none := by
  refine Rule.matchAt_eq_none_of_find? (find?_eq_none_of_not_spells rfl ?_)
  intro w after hrest hspells
  exact h w after hrest (spells_textStart_seq.1 hspells)

end Grammar

end EncryScript

end LineLexer
