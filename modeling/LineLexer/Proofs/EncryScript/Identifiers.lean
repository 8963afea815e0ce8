import LineLexer.Proofs.EncryScript.Headers

/-!
# Identifiers outside of strings

What an identifier is taken for depends on what follows it (`EncryScript.Followed`): the name in a
declaration, the name of a function in its header, the sides of an access to a member and a name in
front of a parenthesis have kinds of their own; every other identifier is looked up without the
dollar signs at its end (`EncryScript.takes_identifier`).  The rules for these cases overlap, and
their patterns go back over what they have read; but each of them needs a space, a point or a
parenthesis behind the identifier, so the identifier can end in one place only.
-/

namespace LineLexer

namespace Table

/-- The first rule that matches at the place makes these texts, with their kinds, of what stands
there, and leads to the state with `rest` left of the line. -/
def Takes (t : Table) (p : Place) (fs : List (Kind × String)) (state : State) (rest : List Char) :
    Prop :=
  ∃ a w, t.application? p = some a ∧ p.rest = w ++ rest ∧ Piece.pairs (a.pieces t.lexicon) = fs ∧
    a.after = ⟨state, p.offset + byteSize w, rest⟩

section

variable {t : Table} {s : State} {n : Nat} {r : Rule} {w after : List Char}

theorem takes_of_hit {m : Match} {fs : List (Kind × String)}
    (h : t.application? ⟨s, n, w ++ after⟩ = some ⟨⟨s, n, w ++ after⟩, r, m⟩)
    (hstop : m.stop = w.length)
    (hpairs : Piece.pairs (Application.pieces t.lexicon ⟨⟨s, n, w ++ after⟩, r, m⟩) = fs) :
    t.Takes ⟨s, n, w ++ after⟩ fs (r.text.next.getD s) after :=
  ⟨_, w, h, rfl, hpairs, Application.after_eq rfl hstop⟩

theorem takes_single {m : Match} {kind : Kind}
    (h : t.application? ⟨s, n, w ++ after⟩ = some ⟨⟨s, n, w ++ after⟩, r, m⟩)
    (hrule : r.text.classification = .single kind) (hstart : m.start = 0)
    (hstop : m.stop = w.length) (hne : w ≠ []) :
    t.Takes ⟨s, n, w ++ after⟩ [(kind, String.ofList w)] (r.text.next.getD s) after := by
  refine takes_of_hit h hstop ?_
  rw [Application.pieces_of_single hrule rfl hstart hstop]
  exact Piece.pairs_singleton hne

theorem takes_word {m : Match}
    (h : t.application? ⟨s, n, w ++ after⟩ = some ⟨⟨s, n, w ++ after⟩, r, m⟩)
    (hrule : r.text.classification = .word) (hstart : m.start = 0)
    (hstop : m.stop = w.length) (hne : w ≠ []) :
    t.Takes ⟨s, n, w ++ after⟩ [(t.lexicon.kindOf (String.ofList w), String.ofList w)]
      (r.text.next.getD s) after := by
  refine takes_of_hit h hstop ?_
  rw [Application.pieces_of_word hrule rfl hstart hstop]
  exact Piece.pairs_singleton hne

theorem takes_groups {kinds : List Kind} {ws : List (List Char)}
    (h : t.application? ⟨s, n, ws.flatten ++ after⟩ =
      some ⟨⟨s, n, ws.flatten ++ after⟩, r, ⟨0, ws.flatten.length, Pattern.spans 0 ws⟩⟩)
    (hrule : r.text.classification = .perGroup kinds) (hlen : kinds.length = ws.length)
    (hne : ∀ w ∈ ws, w ≠ []) : t.Takes ⟨s, n, ws.flatten ++ after⟩
      (kinds.zip (ws.map String.ofList)) (r.text.next.getD s) after := by
  refine takes_of_hit h rfl ?_
  rw [Piece.pairs, Application.filled_pieces_of_perGroup hrule rfl rfl hlen, ← Piece.pairs,
    Piece.pairs_row, List.filter_eq_self.2, List.zip_map_right]
  · rfl
  · intro f hf
    simpa using hne f.2 (List.of_mem_zip hf).2

end

end Table

namespace EncryScript

open Pattern Grammar

/-! ### Identifiers and what follows them -/

/-- The text begins with the identifier `w`, which goes on as long as it can. -/
structure IdentifierAt (text w rest : List Char) : Prop where
  text_eq : text = w ++ rest
  isIdentifier : isIdentifier (String.ofList w)
  ends : ∀ c ∈ rest.head?, isIdentifierChar c = false

/-- The identifier `w` is taken for something else than a word because of what follows it: its
texts are `fs`, the next state is `state`, and `rest` is what is left. -/
inductive Followed : List Char → List Char → List (Kind × String) → State → List Char → Prop
  | declaration {k : Nat} {tail x rest : List Char} : 1 ≤ k → IdentifierAt tail x rest →
      core x ≠ [] → Followed ['l', 'e', 't'] (List.replicate k ' ' ++ tail)
        [(.storageDeclaration, "let"), (.whitespace, spaces k),
          (.variable, String.ofList (core x))] .start (dollars x ++ rest)
  | member {w tail x rest : List Char} : IdentifierAt tail x rest → Followed w ('.' :: tail)
      [(.memberAccessLeft, String.ofList w), (.punctuation, "."),
        (.memberAccessRight, String.ofList x)] .start rest
  | header {k : Nat} {tail f rest : List Char} : 1 ≤ k → IdentifierAt tail f ('(' :: rest) →
      Followed ['d', 'e', 'f'] (List.replicate k ' ' ++ tail)
        [(.keyword, "def"), (.whitespace, spaces k), (.functionName, String.ofList f),
          (.openParen, "(")] .functionArguments rest
  | call {w rest : List Char} : Followed w ('(' :: rest) [(.functionName, String.ofList w)] .start
      ('(' :: rest)

variable {text w u rest after tail x : List Char} {k : Nat}

namespace IdentifierAt

theorem of_head? {c : Char} (hhead : text.head? = some c) (hc : isIdentifierStart c) :
    IdentifierAt text (text.takeWhile isIdentifierChar) (text.dropWhile isIdentifierChar) where
  text_eq := List.takeWhile_append_dropWhile.symm
  isIdentifier := by
    obtain ⟨cs, rfl⟩ := List.head?_eq_some_iff.1 hhead
    rw [List.takeWhile_cons_of_pos (isIdentifierChar_of_isIdentifierStart hc)]
    exact isIdentifier_iff.2 ⟨c, _, rfl, hc, fun d hd => List.mem_takeWhile_imp hd⟩
  ends d hd := by
    have hnot := List.head?_dropWhile_not isIdentifierChar text
    rw [Option.mem_def.1 hd] at hnot
    simpa using hnot

theorem of_isIdentifier (hu : LineLexer.isIdentifier (String.ofList u)) (after : List Char) :
    ∃ x rest, IdentifierAt (u ++ after) x rest := by
  obtain ⟨c, cs, rfl, hc, -⟩ := isIdentifier_iff.1 hu
  exact ⟨_, _, of_head? rfl hc⟩

/-- An identifier in front of a character that stands in none is all of it. -/
theorem eq_of_append (h : IdentifierAt text w rest) {c : Char}
    (hu : LineLexer.isIdentifier (String.ofList u)) (hc : isIdentifierChar c = false)
    (htext : text = u ++ c :: after) : w = u ∧ rest = c :: after :=
  eq_of_run (h.text_eq.symm.trans htext) (forall_isIdentifierChar h.isIdentifier) h.ends
    (forall_isIdentifierChar hu) (isIdentifierChar_head?_cons hc after)

theorem exists_append (h : IdentifierAt text w rest)
    (hu : LineLexer.isIdentifier (String.ofList u)) (htext : text = u ++ after) :
    ∃ v, w = u ++ v ∧ after = v ++ rest :=
  exists_append_of_run (h.text_eq.symm.trans htext) (forall_isIdentifierChar h.isIdentifier) h.ends
    (forall_isIdentifierChar hu)

end IdentifierAt

/-! ### Declarations -/

/-- The rule of declarations. -/
def declarationRule : Rule :=
  anchored (.perGroup [.storageDeclaration, .whitespace, .variable]
    ("(let)( +)(" ++ EncryScript.identifier ++ ")" ++ wordEnd))
    (concat (fields 1 declarationFields ++ [wordEdge])) none

/-- The texts that a declaration is made of. -/
def declarationTexts (k : Nat) (x : List Char) : List (List Char) :=
  [['l', 'e', 't'], List.replicate k ' ', x]

theorem getLast?_declarationTexts (k : Nat) (hx : x ≠ []) :
    (declarationTexts k x).flatten.getLast? = x.getLast? := by
  have hflatten : (declarationTexts k x).flatten =
      ['l', 'e', 't'] ++ List.replicate k ' ' ++ x := by
    simp [declarationTexts]
  rw [hflatten, List.getLast?_append_of_ne_nil _ hx]

/-- What a declaration spells: the name in it is a word. -/
theorem spellEach_declarationFields {ws : List (List Char)} :
    SpellEach declarationFields none ws after ∧
        (concat [wordEdge]).Spells ws.flatten.getLast? [] after ↔
      ∃ k x, ws = declarationTexts k x ∧ 1 ≤ k ∧ wholeWord.Spells none x after := by
  simp only [declarationFields, spellEach_cons, spellEach_nil, spells_word, spells_plus_space,
    spells_identifier, spells_wholeWord]
  constructor
  · rintro ⟨⟨_, _, rfl, rfl, _, _, rfl, ⟨k, hk, rfl⟩, x, _, rfl, hx, rfl⟩, hedge⟩
    have hlast := getLast?_declarationTexts k (ne_nil_of_isIdentifier hx)
    rw [declarationTexts] at hlast
    rw [hlast] at hedge
    exact ⟨k, x, rfl, hk, hx, hedge.2⟩
  · rintro ⟨k, x, rfl, hk, hx, hedge⟩
    refine ⟨⟨_, _, rfl, rfl, _, _, rfl, ⟨k, hk, rfl⟩, x, _, rfl, hx, rfl⟩, ?_⟩
    rw [getLast?_declarationTexts k (ne_nil_of_isIdentifier hx)]
    exact ⟨rfl, hedge⟩

theorem longestFirst_declaration :
    (concat (fields 1 declarationFields ++ [wordEdge])).LongestFirst := by
  have hname : (seq (group 3 (concat Grammar.identifier)) wordEdge).LongestFirst :=
    (((Descending.seq_of_single (single_set _) (single_set _).descending_star).group 3).seq_look
      _).longestFirst
  have hspaces : (seq (group 2 (plus true (char ' ')))
      (seq (group 3 (concat Grammar.identifier)) wordEdge)).LongestFirst := by
    refine hname.run_seq 2 (c := (· == ' ')) rfl ?_ ?_
    · intro before w after hspells d hd
      obtain ⟨k, -, rfl⟩ := spells_plus_space.1 hspells
      rw [List.eq_of_mem_replicate hd]
      rfl
    · rintro before _ after ⟨u, v, rfl, hu, -⟩
      rw [List.append_assoc]
      exact exists_head?_of_isIdentifier _ (spells_identifier.1 hu)
  exact hspaces.seq_of_single ((single_word _).group 1)

theorem matchAt_declarationRule (hk : 1 ≤ k) (hx : IdentifierAt tail x rest) (hcore : core x ≠ []) :
    declarationRule.matchAt ((declarationTexts k (core x)).flatten ++ (dollars x ++ rest)) =
      some ⟨0, (declarationTexts k (core x)).flatten.length,
        spans 0 (declarationTexts k (core x))⟩ := by
  have hlongest := longest_wholeWord hx.isIdentifier hx.ends hcore
  obtain ⟨hws, hlook⟩ := spellEach_declarationFields.2 ⟨k, core x, rfl, hk, hlongest.spells⟩
  refine matchAt_of_fields (by decide) (by decide) (List.cons_ne_nil _ _)
    (fun _ _ _ => eq_nil_of_spells_wordEdge) longestFirst_declaration hws hlook ?_
  intro ws' after' htext hws' hlook'
  obtain ⟨k', x', rfl, -, hx'⟩ := spellEach_declarationFields.1 ⟨hws', hlook'⟩
  -- the spaces can end in one place only, and the name is the longest word there
  have hspaces : List.replicate k ' ' ++ (core x ++ (dollars x ++ rest)) =
      List.replicate k' ' ' ++ (x' ++ after') := by
    simpa [declarationTexts] using htext
  obtain ⟨rfl, hname⟩ := eq_of_spaces (spells_wholeWord.1 hlongest.spells).1
    (spells_wholeWord.1 hx').1 hspaces
  have hle := hlongest.longest x' after' (hlongest.text_eq.trans hname) hx'
  rcases Nat.eq_or_lt_of_le hle with heq | hlt
  · obtain ⟨rfl, -⟩ := List.append_inj hname heq.symm
    exact .inl rfl
  · refine .inr ?_
    simpa [declarationTexts] using hlt

/-- What is matched as a declaration is one. -/
theorem exists_of_matchAt_declarationRule (h : IdentifierAt text w rest) {m : Match}
    (hm : declarationRule.matchAt text = some m) : ∃ k tail x rest', 1 ≤ k ∧ w = ['l', 'e', 't'] ∧
      rest = List.replicate k ' ' ++ tail ∧ IdentifierAt tail x rest' ∧ core x ≠ [] := by
  obtain ⟨ws, after, htext, hws, hlook, -⟩ := exists_fields_of_matchAt (by decide) (by decide)
    (List.cons_ne_nil _ _) (fun _ _ _ => eq_nil_of_spells_wordEdge) hm
  obtain ⟨k, u, rfl, hk, hu⟩ := spellEach_declarationFields.1 ⟨hws, hlook⟩
  obtain ⟨k, rfl⟩ := Nat.exists_eq_add_of_le' hk
  have hlet : text = ['l', 'e', 't'] ++ ' ' :: (List.replicate k ' ' ++ (u ++ after)) := by
    simpa [declarationTexts, List.replicate_succ] using htext
  obtain ⟨rfl, rfl⟩ := h.eq_of_append (by decide) (by decide) hlet
  obtain ⟨x, rest', hx⟩ := IdentifierAt.of_isIdentifier (spells_wholeWord.1 hu).1 after
  refine ⟨k + 1, u ++ after, x, rest', hk, rfl, by rw [List.replicate_succ]; rfl, hx, ?_⟩
  -- dollar signs alone are no word
  intro hcore
  exact not_spells_wholeWord (core_eq_nil_iff.1 hcore) hx.ends hx.text_eq.symm hu

/-! ### Members -/

theorem longestFirst_member : (concat (fields 1 memberFields ++ [])).LongestFirst := by
  have hright : (group 3 (concat Grammar.identifier)).Descending :=
    (Descending.seq_of_single (single_set _) (single_set _).descending_star).group 3
  have hpoint : (seq (group 2 (char '.')) (group 3 (concat Grammar.identifier))).LongestFirst :=
    hright.longestFirst.seq_of_single ((single_set _).group 2)
  refine hpoint.run_seq 1 (c := isIdentifierChar) rfl ?_ ?_
  · intro before w after hspells
    exact forall_isIdentifierChar (spells_identifier.1 hspells)
  · rintro before _ after ⟨u, v, rfl, hu, -⟩
    rw [spells_group, spells_char] at hu
    subst hu
    exact ⟨'.', rfl, by decide⟩

theorem matchAt_memberRule_of_identifiers (hw : isIdentifier (String.ofList w))
    (hx : IdentifierAt tail x rest) : memberRule.matchAt ((memberTexts w x).flatten ++ rest) =
      some ⟨0, (memberTexts w x).flatten.length, spans 0 (memberTexts w x)⟩ := by
  have hws : SpellEach memberFields none (memberTexts w x) rest :=
    spellEach_memberFields.2 ⟨w, x, rfl, hw, hx.isIdentifier⟩
  refine matchAt_of_fields (by decide) (by simp) (List.cons_ne_nil _ _)
    (fun _ _ _ => eq_nil_of_spells_nil) longestFirst_member hws rfl ?_
  intro ws' after' htext hws' _
  obtain ⟨w', x', rfl, hw', hx'⟩ := spellEach_memberFields.1 hws'
  -- the left side ends at the point, and the right side goes on as long as it can
  have hpoint : w ++ '.' :: (x ++ rest) = w' ++ '.' :: (x' ++ after') := by
    simpa [memberTexts] using htext
  obtain ⟨rfl, hright⟩ := eq_of_identifier hw hw' (by decide) (by decide) hpoint
  obtain ⟨v, rfl, -⟩ := hx.exists_append hx' (hx.text_eq.trans (List.cons.inj hright).2)
  cases v with
  | nil => exact .inl (by rw [List.append_nil])
  | cons c v =>
    refine .inr ?_
    simp [memberTexts]

/-- What is matched as an access to a member is one. -/
theorem exists_of_matchAt_memberRule (h : IdentifierAt text w rest) {m : Match}
    (hm : memberRule.matchAt text = some m) :
    ∃ tail x rest', rest = '.' :: tail ∧ IdentifierAt tail x rest' := by
  obtain ⟨u, after, htext, hspells, -⟩ := exists_spells_of_matchAt hm
  obtain ⟨ws, rfl, hws⟩ := spells_concat_fields.1 hspells
  obtain ⟨w', x, rfl, hw', hx⟩ := spellEach_memberFields.1 hws
  have hpoint : text = w' ++ '.' :: (x ++ after) := by simpa [memberTexts] using htext
  obtain ⟨-, rfl⟩ := h.eq_of_append hw' (by decide) hpoint
  obtain ⟨x', rest', hx'⟩ := IdentifierAt.of_isIdentifier hx after
  exact ⟨_, x', rest', rfl, hx'⟩

/-! ### Headers -/

/-- What is matched as the front of a header is one. -/
theorem exists_of_matchAt_headerRule (h : IdentifierAt text w rest) {m : Match}
    (hm : headerRule.matchAt text = some m) : ∃ k tail f rest', 1 ≤ k ∧ w = ['d', 'e', 'f'] ∧
      rest = List.replicate k ' ' ++ tail ∧ IdentifierAt tail f ('(' :: rest') := by
  obtain ⟨u, after, htext, hspells, -⟩ := exists_spells_of_matchAt hm
  rw [List.append_nil] at hspells
  obtain ⟨ws, rfl, hws⟩ := spells_concat_fields.1 hspells
  obtain ⟨k, f, rfl, hk, hf⟩ := spellEach_headerFields.1 hws
  obtain ⟨k, rfl⟩ := Nat.exists_eq_add_of_le' hk
  have hdef : text = ['d', 'e', 'f'] ++ ' ' :: (List.replicate k ' ' ++ (f ++ '(' :: after)) := by
    simpa [headerTexts, List.replicate_succ] using htext
  obtain ⟨rfl, rfl⟩ := h.eq_of_append (by decide) (by decide) hdef
  have hbracket : isIdentifierChar '(' = false := by decide
  exact ⟨k + 1, f ++ '(' :: after, f, after, hk, rfl, by rw [List.replicate_succ]; rfl, rfl, hf,
    isIdentifierChar_head?_cons hbracket after⟩

/-! ### Calls -/

/-- The rule of names in front of a parenthesis. -/
def callRule : Rule :=
  anchored (.followedBy (.single .functionName EncryScript.identifier) "\\(")
    (concat Grammar.identifier) (some (char '('))

theorem matchAt_callRule (h : IdentifierAt text w ('(' :: rest)) :
    callRule.matchAt text = some ⟨0, w.length, []⟩ := by
  have hfirst : (concat Grammar.identifier).LongestFirst :=
    (Descending.seq_of_single (single_set _) (single_set _).descending_star).longestFirst
  have hlongest : (concat Grammar.identifier).Longest text w ('(' :: rest) := by
    refine ⟨h.text_eq, spells_identifier.2 h.isIdentifier, ?_⟩
    intro u after htext hu
    obtain ⟨v, rfl, -⟩ := h.exists_append (spells_identifier.1 hu) htext
    rw [List.length_append]
    exact Nat.le_add_right _ _
  refine Rule.matchAt_eq_some_iff.2 ⟨(find?_eq_some_iff rfl hfirst).2 ⟨w, _, hlongest, rfl⟩, ?_⟩
  rintro q ⟨⟩
  rw [h.text_eq, List.drop_left]
  exact find?_isSome_of_spells
    (spells_textStart_seq.2 (spells_char.2 rfl) : Spells _ none ['('] rest)

/-- What is matched as a call is one. -/
theorem exists_of_matchAt_callRule (h : IdentifierAt text w rest) {m : Match}
    (hm : callRule.matchAt text = some m) : ∃ rest', rest = '(' :: rest' := by
  obtain ⟨u, after, htext, hspells, -, -, hahead⟩ := exists_spells_of_matchAt hm
  obtain ⟨v, after', rfl, hv⟩ := hahead _ rfl
  rw [spells_char.1 hv] at htext
  obtain ⟨-, rfl⟩ := h.eq_of_append (spells_identifier.1 hspells) (by decide) htext
  exact ⟨after', rfl⟩

/-! ### Which rule is applied -/

variable {v : Vocabulary} {fs : List (Kind × String)} {state : State} {n : Nat}

/-- The rules that look at what follows an identifier, in their order. -/
def followedRules : List Rule := [declarationRule, memberRule, headerRule, callRule]

theorem rules_start_eq (v : Vocabulary) : (tableOf v).rules .start =
    (rules .builtin .start).take 4 ++ followedRules ++ (rules .builtin .start).drop 8 := by
  rw [rules_start]
  rfl

/-- The other rules in front of the rule of words do not begin like an identifier. -/
theorem matchAt_eq_none_of_identifier (h : IdentifierAt text w rest) {r : Rule}
    (hr : r ∈ (rules .builtin .start).take 4 ++ ((rules .builtin .start).drop 8).take 1) :
    r.matchAt text = none := by
  obtain ⟨c, cs, rfl, hc, -⟩ := isIdentifier_iff.1 h.isIdentifier
  have hall : ((rules .builtin .start).take 4 ++ ((rules .builtin .start).drop 8).take 1).all
      (refuses c fun _ => false) := by
    refine of_isIdentifierStart (P := fun c => ((rules .builtin .start).take 4 ++
      ((rules .builtin .start).drop 8).take 1).all (refuses c fun _ => false)) ?_ hc
    decide +kernel
  have hmem : r ∈ rules .builtin .start := by
    rcases List.mem_append.1 hr with hr | hr
    · exact List.mem_of_mem_take hr
    · exact List.mem_of_mem_drop (List.mem_of_mem_take hr)
  exact matchAt_eq_none_of_refuses hmem (List.all_eq_true.1 hall r hr) (by rw [h.text_eq]; rfl)
    fun _ _ => rfl

/-- A rule that looks at what follows the identifier matches only where something else than a word
is taken. -/
theorem exists_followed_of_matchAt (h : IdentifierAt text w rest) {r : Rule}
    (hr : r ∈ followedRules) {m : Match} (hm : r.matchAt text = some m) :
    ∃ fs state rest', Followed w rest fs state rest' := by
  simp only [followedRules, List.mem_cons, List.not_mem_nil, or_false] at hr
  rcases hr with rfl | rfl | rfl | rfl
  · obtain ⟨k, tail, x, rest', hk, rfl, rfl, hx, hcore⟩ := exists_of_matchAt_declarationRule h hm
    exact ⟨_, _, _, .declaration hk hx hcore⟩
  · obtain ⟨tail, x, rest', rfl, hx⟩ := exists_of_matchAt_memberRule h hm
    exact ⟨_, _, _, .member hx⟩
  · obtain ⟨k, tail, f, rest', hk, rfl, rfl, hf⟩ := exists_of_matchAt_headerRule h hm
    exact ⟨_, _, _, .header hk hf⟩
  · obtain ⟨rest', rfl⟩ := exists_of_matchAt_callRule h hm
    exact ⟨_, _, _, .call⟩

theorem head?_spaces (hk : 1 ≤ k) (tail : List Char) :
    (List.replicate k ' ' ++ tail).head? = some ' ' := by
  obtain ⟨k, rfl⟩ := Nat.exists_eq_add_of_le' hk
  rfl

theorem matchAt_declarationRule_eq_none (h : IdentifierAt text w rest)
    (hno : rest.head? = some ' ' → w ≠ ['l', 'e', 't']) : declarationRule.matchAt text = none := by
  refine Option.eq_none_iff_forall_ne_some.2 ?_
  intro m hm
  obtain ⟨k, tail, x, rest', hk, hlet, rfl, -⟩ := exists_of_matchAt_declarationRule h hm
  exact hno (head?_spaces hk tail) hlet

theorem matchAt_memberRule_eq_none (h : IdentifierAt text w rest) (hno : rest.head? ≠ some '.') :
    memberRule.matchAt text = none := by
  refine Option.eq_none_iff_forall_ne_some.2 ?_
  intro m hm
  obtain ⟨tail, x, rest', rfl, -⟩ := exists_of_matchAt_memberRule h hm
  exact hno rfl

theorem matchAt_headerRule_eq_none (h : IdentifierAt text w rest) (hno : rest.head? ≠ some ' ') :
    headerRule.matchAt text = none := by
  refine Option.eq_none_iff_forall_ne_some.2 ?_
  intro m hm
  obtain ⟨k, tail, f, rest', hk, -, rfl, -⟩ := exists_of_matchAt_headerRule h hm
  exact hno (head?_spaces hk tail)

/-- One of these rules is applied where it matches and those in front of it refuse. -/
theorem application?_of_followed (h : IdentifierAt text w rest) {front back : List Rule} {r : Rule}
    {m : Match} (hsplit : followedRules = front ++ r :: back)
    (hfront : ∀ r' ∈ front, r'.matchAt text = none) (hm : r.matchAt text = some m) (n : Nat) :
    (tableOf v).application? ⟨.start, n, text⟩ = some ⟨⟨.start, n, text⟩, r, m⟩ := by
  have hrules : (tableOf v).rules .start =
      ((rules .builtin .start).take 4 ++ front) ++
        r :: (back ++ (rules .builtin .start).drop 8) := by
    rw [rules_start_eq, hsplit]
    simp
  refine Table.application?_of_front hrules ?_ hm
  intro r' hr'
  rcases List.mem_append.1 hr' with hr' | hr'
  · exact matchAt_eq_none_of_identifier h (List.mem_append_left _ hr')
  · exact hfront r' hr'

/-- **What follows the identifier decides which rule is applied.** -/
theorem takes_of_followed (h : IdentifierAt text w rest) {left : List Char}
    (hf : Followed w rest fs state left) (n : Nat) :
    (tableOf v).Takes ⟨.start, n, text⟩ fs state left := by
  cases hf with
  | @declaration k tail x rest hk hx hcore =>
    have htext : text = (declarationTexts k (core x)).flatten ++ (dollars x ++ rest) := by
      rw [h.text_eq, hx.text_eq]
      conv_lhs => rw [← core_append_dollars x]
      simp [declarationTexts]
    have hm := matchAt_declarationRule hk hx hcore
    rw [← htext] at hm
    have hfront : ∀ r ∈ ([] : List Rule), r.matchAt text = none := by simp
    have happlied := application?_of_followed (v := v) h rfl hfront hm n
    rw [htext] at happlied ⊢
    refine Table.takes_groups happlied rfl rfl ?_
    simp [declarationTexts, hcore, Nat.one_le_iff_ne_zero.1 hk]
  | @member _ tail x _ hx =>
    have htext : text = (memberTexts w x).flatten ++ left := by
      rw [h.text_eq, hx.text_eq]
      simp [memberTexts]
    have hm := matchAt_memberRule_of_identifiers h.isIdentifier hx
    rw [← htext] at hm
    have hfront : ∀ r ∈ [declarationRule], r.matchAt text = none :=
      List.forall_mem_singleton.2 (matchAt_declarationRule_eq_none h (by simp))
    have happlied := application?_of_followed (v := v) h rfl hfront hm n
    rw [htext] at happlied ⊢
    refine Table.takes_groups happlied rfl rfl ?_
    simp [memberTexts, ne_nil_of_isIdentifier h.isIdentifier,
      ne_nil_of_isIdentifier hx.isIdentifier]
  | @header k tail f _ hk hf =>
    have htext : text = (headerTexts k f).flatten ++ left := by
      rw [h.text_eq, hf.text_eq]
      simp [headerTexts]
    have hm := matchAt_headerRule hk hf.isIdentifier left
    rw [← htext] at hm
    have hfront : ∀ r ∈ [declarationRule, memberRule], r.matchAt text = none := by
      simp only [List.forall_mem_cons, List.not_mem_nil, false_implies, implies_true, and_true]
      refine ⟨matchAt_declarationRule_eq_none h (by simp), matchAt_memberRule_eq_none h ?_⟩
      rw [head?_spaces hk]
      decide
    have happlied := application?_of_followed (v := v) h rfl hfront hm n
    rw [htext] at happlied ⊢
    refine Table.takes_groups happlied rfl rfl ?_
    simp [headerTexts, ne_nil_of_isIdentifier hf.isIdentifier, Nat.one_le_iff_ne_zero.1 hk]
  | @call _ rest =>
    have hfront : ∀ r ∈ [declarationRule, memberRule, headerRule], r.matchAt text = none := by
      simp only [List.forall_mem_cons, List.not_mem_nil, false_implies, implies_true, and_true]
      exact ⟨matchAt_declarationRule_eq_none h (by simp), matchAt_memberRule_eq_none h (by simp),
        matchAt_headerRule_eq_none h (by simp)⟩
    have happlied := application?_of_followed (v := v) h rfl hfront (matchAt_callRule h) n
    rw [h.text_eq] at happlied ⊢
    exact Table.takes_single happlied rfl rfl rfl (ne_nil_of_isIdentifier h.isIdentifier)

/-- Every other identifier is looked up without the dollar signs at its end; of dollar signs alone
the first one is a text. -/
theorem takes_of_not_followed (h : IdentifierAt text w rest)
    (hno : ∀ fs state left, ¬ Followed w rest fs state left) (n : Nat) :
    if core w = [] then (tableOf v).Takes ⟨.start, n, text⟩ [(.text, "$")] .start (w.tail ++ rest)
    else (tableOf v).Takes ⟨.start, n, text⟩
      [((Lexicon.ofWords v).kindOf (String.ofList (core w)), String.ofList (core w))] .start
      (dollars w ++ rest) := by
  have hfront : ∀ r ∈ (rules .builtin .start).take 9, r.matchAt text = none := by
    intro r hr
    have hsplit : (rules .builtin .start).take 9 = (rules .builtin .start).take 4 ++
        followedRules ++ ((rules .builtin .start).drop 8).take 1 := rfl
    rw [hsplit, List.mem_append, List.mem_append] at hr
    rcases hr with (hr | hr) | hr
    · exact matchAt_eq_none_of_identifier h (List.mem_append_left _ hr)
    · refine Option.eq_none_iff_forall_ne_some.2 ?_
      intro m hm
      obtain ⟨fs, state, left, hf⟩ := exists_followed_of_matchAt h hr hm
      exact hno fs state left hf
    · exact matchAt_eq_none_of_identifier h (List.mem_append_right _ hr)
  rw [h.text_eq] at hfront
  split
  case isTrue hcore =>
    obtain ⟨d, ds, rfl⟩ := List.exists_cons_of_ne_nil (ne_nil_of_isIdentifier h.isIdentifier)
    obtain ⟨rfl, hds⟩ := List.forall_mem_cons.1 (core_eq_nil_iff.1 hcore)
    have happlied := application?_dollar_of_front (v := v) hds h.ends hfront n
    rw [h.text_eq]
    exact Table.takes_single (w := ['$']) happlied rfl rfl rfl (List.cons_ne_nil _ _)
  case isFalse hcore =>
    have happlied := application?_word_of_front (v := v) h.isIdentifier hcore h.ends hfront n
    have hsplit : text = core w ++ (dollars w ++ rest) := by
      rw [h.text_eq, ← List.append_assoc, core_append_dollars]
    rw [← h.text_eq] at happlied
    rw [hsplit] at happlied ⊢
    exact Table.takes_word happlied rfl rfl rfl hcore

/-- **An identifier outside of strings and parameters**, over a valid vocabulary: a line that goes
on with a character an identifier can begin with goes on with an identifier, and what is taken for
what depends on what follows that.  Where nothing special does, the identifier is looked up without
the dollar signs at its end, and of dollar signs alone the first one is a text. -/
theorem takes_identifier {v : Vocabulary} (hv : v.Valid) :
    ∃ t, table v = .ok t ∧ Lexicon.ofVocabulary v = .ok t.lexicon ∧
      ∀ n text c, text.head? = some c → isIdentifierStart c →
        ∃ w rest, IdentifierAt text w rest ∧
          (∀ fs state left, Followed w rest fs state left →
            t.Takes ⟨.start, n, text⟩ fs state left) ∧
          ((∀ fs state left, ¬ Followed w rest fs state left) →
            if core w = [] then t.Takes ⟨.start, n, text⟩ [(.text, "$")] .start (w.tail ++ rest)
            else t.Takes ⟨.start, n, text⟩
              [(t.lexicon.kindOf (String.ofList (core w)), String.ofList (core w))] .start
              (dollars w ++ rest)) := by
  refine ⟨tableOf v, table_eq hv, Lexicon.ofVocabulary_eq hv, ?_⟩
  intro n text c hhead hc
  have h := IdentifierAt.of_head? hhead hc
  exact ⟨_, _, h, fun _ _ _ hf => takes_of_followed h hf n,
    fun hno => takes_of_not_followed h hno n⟩

theorem Followed.exists_head? {left : List Char} (h : Followed w rest fs state left) :
    ∃ c ∈ [' ', '.', '('], rest.head? = some c := by
  cases h with
  | declaration hk | header hk => exact ⟨' ', by simp, head?_spaces hk _⟩
  | member => exact ⟨'.', by simp, rfl⟩
  | call => exact ⟨'(', by simp, rfl⟩

/-- The name of a declaration and a keyword, each with a dollar sign at its end. -/
theorem takes_identifier_builtin : Vocabulary.builtin.Valid ∧
    ∃ t, table .builtin = .ok t ∧ Lexicon.ofVocabulary .builtin = .ok t.lexicon ∧
      t.Takes ⟨.start, 0, "let  x$ = 1".toList⟩
        [(.storageDeclaration, "let"), (.whitespace, "  "), (.variable, "x")] .start
        "$ = 1".toList ∧
      t.Takes ⟨.start, 7, "return$;".toList⟩ [(.controlKeyword, "return")] .start "$;".toList := by
  obtain ⟨t, ht, hlexicon, htakes⟩ := takes_identifier Vocabulary.valid_builtin
  refine ⟨Vocabulary.valid_builtin, t, ht, hlexicon, ?_, ?_⟩
  · obtain ⟨w, rest, hw, hfollowed, -⟩ := htakes 0 "let  x$ = 1".toList 'l' rfl (by decide)
    have hlet : "let  x$ = 1".toList = ['l', 'e', 't'] ++ ' ' :: " x$ = 1".toList := by decide
    obtain ⟨rfl, rfl⟩ := hw.eq_of_append (by decide) (by decide) hlet
    have hx : IdentifierAt "x$ = 1".toList ['x', '$'] " = 1".toList :=
      ⟨by decide, by decide, isIdentifierChar_head?_cons (c := ' ') (by decide) "= 1".toList⟩
    exact hfollowed _ _ _ (.declaration (k := 2) (by decide) hx (by decide))
  · obtain ⟨w, rest, hw, -, hword⟩ := htakes 7 "return$;".toList 'r' rfl (by decide)
    have hreturn : "return$;".toList = "return$".toList ++ ';' :: [] := by decide
    obtain ⟨rfl, rfl⟩ := hw.eq_of_append (by decide) (by decide) hreturn
    have hno : ∀ fs state left, ¬ Followed "return$".toList [';'] fs state left := by
      intro fs state left hf
      obtain ⟨c, hc, hhead⟩ := hf.exists_head?
      obtain rfl := Option.some.inj hhead
      simp at hc
    have heq : t.lexicon = Lexicon.ofWords .builtin :=
      Except.ok.inj (hlexicon.symm.trans (Lexicon.ofVocabulary_eq Vocabulary.valid_builtin))
    have htaken := hword hno
    rw [if_neg (by decide), heq] at htaken
    have hpair : [((Lexicon.ofWords .builtin).kindOf (String.ofList (core "return$".toList)),
        String.ofList (core "return$".toList))] = [(Kind.controlKeyword, "return")] := by
      decide +kernel
    have hrest : dollars "return$".toList ++ [';'] = "$;".toList := by decide
    rwa [hpair, hrest] at htaken

end EncryScript

end LineLexer
