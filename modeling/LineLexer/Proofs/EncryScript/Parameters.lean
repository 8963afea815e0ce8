import LineLexer.Proofs.EncryScript.Applied

/-!
# Parameters with their types

The rule of typed parameters matches an identifier, a colon, any number of spaces and the longest
name of a type that ends at the edge of a word there (`Grammar.matchAt_typedParameter`).  So what
it matches depends on the types of the vocabulary as a set only
(`Grammar.matchAt_typedParameter_congr`).
-/

namespace LineLexer

namespace EncryScript

namespace Grammar

open Pattern

/-- The texts that a parameter with its type is made of. -/
def parameterTexts (name : List Char) (n : Nat) (type : List Char) : List (List Char) :=
  [name, [':'], List.replicate n ' ', type]

/-- A text begins with a parameter of the given name, so many spaces, and the longest of the types
that ends at the edge of a word there. -/
structure ParameterAt (types : List String) (text name : List Char) (n : Nat)
    (type after : List Char) : Prop where
  text_eq : text = (parameterTexts name n type).flatten ++ after
  isIdentifier_name : isIdentifier (String.ofList name)
  mem_types : String.ofList type ∈ types
  edge : Look.asciiWordEdge.holds type.getLast? after.head?
  longest : ∀ type' after', type ++ after = type' ++ after' → String.ofList type' ∈ types →
    Look.asciiWordEdge.holds type'.getLast? after'.head? → type'.length ≤ type.length

/-- The text begins with no parameter with its type. -/
def NoParameter (types : List String) (text : List Char) : Prop :=
  ∀ name n type after, ¬ ParameterAt types text name n type after

theorem flatten_parameterTexts (name : List Char) (n : Nat) (type : List Char) :
    (parameterTexts name n type).flatten = name ++ ':' :: (List.replicate n ' ' ++ type) := by
  simp [parameterTexts]

theorem getLast?_parameterTexts (name : List Char) (n : Nat) {type : List Char} (h : type ≠ []) :
    (parameterTexts name n type).flatten.getLast? = type.getLast? := by
  rw [flatten_parameterTexts, ← List.cons_append, ← List.append_assoc,
    List.getLast?_append_of_ne_nil _ h]

theorem isIdentifierChar_colon : isIdentifierChar ':' = false := by decide

theorem not_isIdentifierStart_space : isIdentifierStart ' ' = false := by decide

theorem exists_head?_of_isIdentifier {w : List Char} (after : List Char)
    (hw : isIdentifier (String.ofList w)) :
    ∃ c, (w ++ after).head? = some c ∧ (c == ' ') = false := by
  obtain ⟨c, cs, rfl, hc, -⟩ := isIdentifier_iff.1 hw
  refine ⟨c, rfl, ?_⟩
  rw [beq_eq_false_iff_ne]
  rintro rfl
  rw [not_isIdentifierStart_space] at hc
  exact Bool.noConfusion hc

/-- Spaces in front of identifiers are as many as they are. -/
theorem eq_of_spaces {n n' : Nat} {u w after after' : List Char}
    (hu : isIdentifier (String.ofList u)) (hw : isIdentifier (String.ofList w))
    (h : List.replicate n ' ' ++ (u ++ after) = List.replicate n' ' ' ++ (w ++ after')) :
    n = n' ∧ u ++ after = w ++ after' := by
  have hspaces (m : Nat) : ∀ c ∈ List.replicate m ' ', (c == ' ') = true := by
    intro c hc
    rw [List.eq_of_mem_replicate hc]
    rfl
  have hhead {u : List Char} (hu : isIdentifier (String.ofList u)) (after : List Char) :
      ∀ c ∈ (u ++ after).head?, (c == ' ') = false := by
    obtain ⟨d, hd, hspace⟩ := exists_head?_of_isIdentifier after hu
    intro c hc
    obtain rfl := Option.some.inj (hd.symm.trans hc)
    exact hspace
  obtain ⟨hreplicate, hrest⟩ := eq_of_run h (hspaces n) (hhead hu after) (hspaces n') (hhead hw after')
  exact ⟨by simpa using congrArg List.length hreplicate, hrest⟩

theorem isIdentifierChar_head?_cons {c : Char} (hc : isIdentifierChar c = false)
    (after : List Char) : ∀ d ∈ (c :: after).head?, isIdentifierChar d = false := by
  intro d hd
  obtain rfl : c = d := by simpa using hd
  exact hc

/-- An identifier in front of a character that stands in none is as long as it is. -/
theorem eq_of_identifier {c c' : Char} {u w after after' : List Char}
    (hu : isIdentifier (String.ofList u)) (hw : isIdentifier (String.ofList w))
    (hc : isIdentifierChar c = false) (hc' : isIdentifierChar c' = false)
    (h : u ++ c :: after = w ++ c' :: after') : u = w ∧ c :: after = c' :: after' :=
  eq_of_run h (forall_isIdentifierChar hu) (isIdentifierChar_head?_cons hc after)
    (forall_isIdentifierChar hw) (isIdentifierChar_head?_cons hc' after')

variable {types : List String} {text name type after : List Char} {n : Nat}

/-- **A text begins with one parameter at most.** -/
theorem ParameterAt.unique (htypes : ∀ w ∈ types, isIdentifier w) {name' type' after' : List Char}
    {n' : Nat} (h : ParameterAt types text name n type after)
    (h' : ParameterAt types text name' n' type' after') :
    name = name' ∧ n = n' ∧ type = type' ∧ after = after' := by
  have htext := h.text_eq.symm.trans h'.text_eq
  simp only [flatten_parameterTexts, List.append_assoc, List.cons_append] at htext
  obtain ⟨rfl, htail⟩ := eq_of_identifier h.isIdentifier_name h'.isIdentifier_name
    isIdentifierChar_colon isIdentifierChar_colon htext
  obtain ⟨hn, htype⟩ := eq_of_spaces (htypes _ h.mem_types) (htypes _ h'.mem_types)
    (List.cons.inj htail).2
  have hlen : type.length = type'.length := Nat.le_antisymm
    (h'.longest _ _ htype.symm h.mem_types h.edge) (h.longest _ _ htype h'.mem_types h'.edge)
  obtain ⟨rfl, rfl⟩ := List.append_inj htype hlen
  exact ⟨rfl, hn, rfl, rfl⟩

theorem ParameterAt.length_lt (h : ParameterAt types text name n type after) :
    after.length < text.length := by
  rw [h.text_eq, flatten_parameterTexts]
  simp only [List.length_append, List.length_cons]
  omega

/-- A parameter begins like an identifier. -/
theorem noParameter_of_head? (h : ∀ c ∈ text.head?, isIdentifierStart c = false) :
    NoParameter types text := by
  intro name n type after hparameter
  obtain ⟨c, cs, rfl, hc, -⟩ := isIdentifier_iff.1 hparameter.isIdentifier_name
  have htext := hparameter.text_eq
  rw [flatten_parameterTexts] at htext
  have hnot := h c (by rw [htext]; rfl)
  rw [hc] at hnot
  exact Bool.noConfusion hnot

/-! ### What the pattern spells -/

section

variable {names : List (List Char)} {w : List Char} {ws : List (List Char)}

theorem forall_eq_space_iff : (∀ c ∈ w, (CharSet.single ' ').holds c) ↔
    ∃ n, w = List.replicate n ' ' := by
  simp only [holds_single]
  rw [← List.eq_replicate_length]
  constructor
  · intro h
    exact ⟨_, h⟩
  · rintro ⟨n, rfl⟩
    rw [List.length_replicate]

theorem spells_star_space {before : Option Char} :
    (star true (char ' ')).Spells before w after ↔ ∃ n, w = List.replicate n ' ' :=
  spells_star_set.trans forall_eq_space_iff

theorem spells_plus_space {before : Option Char} :
    (plus true (char ' ')).Spells before w after ↔ ∃ n, 1 ≤ n ∧ w = List.replicate n ' ' := by
  rw [char, spells_plus_set, forall_eq_space_iff]
  constructor
  · rintro ⟨hne, n, rfl⟩
    exact ⟨n, Nat.one_le_iff_ne_zero.2 (by simpa using hne), rfl⟩
  · rintro ⟨n, hn, rfl⟩
    exact ⟨by simpa using Nat.one_le_iff_ne_zero.1 hn, n, rfl⟩

theorem spellEach_parameterFields (hnames : names ≠ []) :
    SpellEach (parameterFields names) none ws after ↔ ∃ x n T, ws = parameterTexts x n T ∧
      isIdentifier (String.ofList x) ∧ T ∈ names := by
  simp only [parameterFields, spellEach_cons, spellEach_nil, spells_identifier, spells_char,
    spells_star_space, spells_oneOf hnames]
  constructor
  · rintro ⟨x, _, rfl, hx, _, _, rfl, rfl, _, _, rfl, ⟨n, rfl⟩, T, _, rfl, hT, rfl⟩
    exact ⟨x, n, T, rfl, hx, hT⟩
  · rintro ⟨x, n, T, rfl, hx, hT⟩
    exact ⟨x, _, rfl, hx, _, _, rfl, rfl, _, _, rfl, ⟨n, rfl⟩, T, _, rfl, hT, rfl⟩

theorem spells_typedParameter (hnames : names ≠ []) (hne : ∀ w ∈ names, w ≠ []) :
    (typedParameter names).Spells none w after ↔ ∃ x n T, w = (parameterTexts x n T).flatten ∧
      isIdentifier (String.ofList x) ∧ T ∈ names ∧
      Look.asciiWordEdge.holds T.getLast? after.head? := by
  rw [typedParameter_eq, wordEdge, spells_concat_append_look, spells_concat_fields, Option.or_none]
  simp only [spellEach_parameterFields hnames]
  constructor
  · rintro ⟨⟨_, rfl, x, n, T, rfl, hx, hT⟩, hedge⟩
    rw [getLast?_parameterTexts x n (hne T hT)] at hedge
    exact ⟨x, n, T, rfl, hx, hT, hedge⟩
  · rintro ⟨x, n, T, rfl, hx, hT, hedge⟩
    refine ⟨⟨_, rfl, x, n, T, rfl, hx, hT⟩, ?_⟩
    rwa [getLast?_parameterTexts x n (hne T hT)]

/-- **A parameter is taken with the longest type**: neither the name nor the spaces can end
elsewhere. -/
theorem longestFirst_typedParameter (hnames : names ≠ [])
    (hid : ∀ w ∈ names, isIdentifier (String.ofList w))
    (hdescending : names.Pairwise fun u v => v.length ≤ u.length) :
    (typedParameter names).LongestFirst := by
  have htype : (seq (group 4 (oneOf names)) wordEdge).LongestFirst :=
    (((descending_oneOf hnames hdescending).group 4).seq_look _).longestFirst
  have hspaces : (seq (group 3 (star true (char ' ')))
      (seq (group 4 (oneOf names)) wordEdge)).LongestFirst := by
    refine htype.run_seq 3 (c := (· == ' ')) rfl ?_ ?_
    · intro before w after hspells d hd
      rw [holds_single.1 (spells_star_set.1 hspells d hd)]
      rfl
    · rintro before _ after ⟨u, v, rfl, hu, -⟩
      rw [List.append_assoc]
      exact exists_head?_of_isIdentifier _ (hid u ((spells_oneOf hnames).1 hu))
  have hcolon := hspaces.seq_of_single ((single_set (.single ':')).group 2)
  refine hcolon.run_seq 1 (c := isIdentifierChar) (isPlain_concat (by decide)) ?_ ?_
  · intro before w after hspells
    exact forall_isIdentifierChar (spells_identifier.1 hspells)
  · rintro before _ after ⟨u, v, rfl, hu, -⟩
    rw [spells_group, spells_char] at hu
    subst hu
    exact ⟨':', rfl, isIdentifierChar_colon⟩

end

/-! ### The rule -/

variable {v : Vocabulary}

theorem pairwise_typeNames (hv : v.Valid) :
    (typeNames v).Pairwise fun u w => w.length ≤ u.length := by
  -- the names are sorted by their bytes; an identifier has as many characters
  have hbytes (w : List Char) (hw : w ∈ typeNames v) : byteSize w = w.length :=
    byteSize_eq_length (forall_isIdentifierChar (isIdentifier_of_mem_typeNames hv hw))
  have hpair : (typeNames v).Pairwise fun u w => byteSize w ≤ byteSize u :=
    Vocabulary.pairwise_longerFirst _
  refine hpair.imp_of_mem ?_
  intro u w hu hw hle
  rwa [hbytes u hu, hbytes w hw] at hle

/-- The match of a parameter with its type. -/
def parameterMatch (name : List Char) (n : Nat) (type : List Char) : Match :=
  ⟨0, (parameterTexts name n type).flatten.length, spans 0 (parameterTexts name n type)⟩

theorem spells_typedParameter_typeNames (hv : v.Valid) {w : List Char} :
    (typedParameter (typeNames v)).Spells none w after ↔ ∃ x n T,
      w = (parameterTexts x n T).flatten ∧ isIdentifier (String.ofList x) ∧
        String.ofList T ∈ v.types ∧ Look.asciiWordEdge.holds T.getLast? after.head? := by
  have hne (w : List Char) (hw : w ∈ typeNames v) : w ≠ [] :=
    ne_nil_of_isIdentifier (isIdentifier_of_mem_typeNames hv hw)
  simp only [spells_typedParameter (typeNames_ne_nil hv) hne, mem_typeNames]

/-- A longer match would be one with a longer type. -/
theorem longest_of_matchAt (hv : v.Valid) {m : Match} {x T : List Char} {n : Nat}
    (h : (typedParameterRead v).matchAt text = some m) (hm : m = parameterMatch x n T)
    (htext : text = (parameterTexts x n T).flatten ++ after) (hx : isIdentifier (String.ofList x)) :
    ∀ T' after', T ++ after = T' ++ after' → String.ofList T' ∈ v.types →
      Look.asciiWordEdge.holds T'.getLast? after'.head? → T'.length ≤ T.length := by
  intro T' after' hboth hT' hedge'
  have hfirst := (longestFirst_typedParameter (typeNames_ne_nil hv)
    (fun _ hw => isIdentifier_of_mem_typeNames hv hw) (pairwise_typeNames hv)).seq_of_single
    (single_look .textStart)
  rw [typedParameterRead, matchAt_eq_find?] at h
  obtain ⟨w, _, hlongest, -, hstop⟩ := exists_longest_of_find? rfl hfirst h
  have hle := (longest_textStart_seq.1 hlongest).longest (parameterTexts x n T').flatten after'
    (by simp [htext, flatten_parameterTexts, hboth])
    ((spells_typedParameter_typeNames hv).2 ⟨x, n, T', rfl, hx, hT', hedge'⟩)
  rw [← hstop, hm, parameterMatch] at hle
  simp only [flatten_parameterTexts, List.length_append, List.length_cons] at hle
  omega

theorem exists_parameterAt_of_matchAt (hv : v.Valid) {m : Match}
    (h : (typedParameterRead v).matchAt text = some m) : ∃ name n type after,
      ParameterAt v.types text name n type after ∧ m = parameterMatch name n type := by
  have hnames := typeNames_ne_nil hv
  obtain ⟨ws, after, htext, hws, hedge, hm⟩ :=
    exists_fields_of_matchAt (isPlain_parameterFields hnames) (by decide) (List.cons_ne_nil _ _)
      (fun _ _ _ => eq_nil_of_spells_wordEdge) h
  obtain ⟨x, n, T, rfl, hx, hT⟩ := (spellEach_parameterFields hnames).1 hws
  have hne := ne_nil_of_isIdentifier (isIdentifier_of_mem_typeNames hv hT)
  rw [getLast?_parameterTexts x n hne] at hedge
  exact ⟨x, n, T, after, ⟨htext, hx, mem_typeNames.1 hT, hedge.2,
    longest_of_matchAt hv h hm htext hx⟩, hm⟩

/-- **The rule of typed parameters matches exactly the parameter that the text begins with.** -/
theorem matchAt_typedParameter (hv : v.Valid) {m : Match} :
    (typedParameterRead v).matchAt text = some m ↔ ∃ name n type after,
      ParameterAt v.types text name n type after ∧ m = parameterMatch name n type := by
  constructor
  · exact exists_parameterAt_of_matchAt hv
  · rintro ⟨x, n, T, after, hparameter, rfl⟩
    have hspells := (spells_typedParameter_typeNames hv).2 ⟨x, n, T, rfl,
      hparameter.isIdentifier_name, hparameter.mem_types, hparameter.edge⟩
    have hsome := find?_isSome_of_spells (spells_textStart_seq.2 hspells)
    rw [← hparameter.text_eq, ← matchAt_eq_find? (typedParameterRule v)] at hsome
    -- something is matched, and there is only one parameter that it can be
    obtain ⟨m, hm⟩ := Option.isSome_iff_exists.1 hsome
    obtain ⟨x', n', T', after', hparameter', rfl⟩ := exists_parameterAt_of_matchAt hv hm
    have htypes (w : String) (hw : w ∈ v.types) : isIdentifier w := by
      have hmem : w ∈ v.words .types := hw
      exact hv.isIdentifier hmem
    obtain ⟨rfl, rfl, rfl, -⟩ := hparameter.unique htypes hparameter'
    exact hm

theorem matchAt_typedParameter_eq_none (hv : v.Valid) (h : NoParameter v.types text) :
    (typedParameterRead v).matchAt text = none := by
  rw [Option.eq_none_iff_forall_not_mem]
  intro m hm
  obtain ⟨name, n, type, after, hparameter, -⟩ := (matchAt_typedParameter hv).1 hm
  exact h name n type after hparameter

/-- **Types that are the same as a set are matched alike.** -/
theorem matchAt_typedParameter_congr {v' : Vocabulary} (hv : v.Valid) (hv' : v'.Valid)
    (htypes : ∀ w, w ∈ v.types ↔ w ∈ v'.types) (text : List Char) :
    (typedParameterRead v).matchAt text = (typedParameterRead v').matchAt text := by
  refine Option.ext fun m => ?_
  have hat (name : List Char) (n : Nat) (type after : List Char) :
      ParameterAt v.types text name n type after ↔
        ParameterAt v'.types text name n type after := by
    constructor
    · rintro ⟨htext, hname, hmem, hedge, hlongest⟩
      exact ⟨htext, hname, (htypes _).1 hmem, hedge,
        fun _ _ hboth hmem' => hlongest _ _ hboth ((htypes _).2 hmem')⟩
    · rintro ⟨htext, hname, hmem, hedge, hlongest⟩
      exact ⟨htext, hname, (htypes _).2 hmem, hedge,
        fun _ _ hboth hmem' => hlongest _ _ hboth ((htypes _).1 hmem')⟩
  simp only [matchAt_typedParameter hv, matchAt_typedParameter hv', hat]

end Grammar

end EncryScript

end LineLexer
