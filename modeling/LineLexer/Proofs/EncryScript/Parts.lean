import LineLexer.Proofs.EncryScript.Applied
import LineLexer.Proofs.Lexicon
import LineLexer.Proofs.Scan.Along

/-!
# What the rules make of their matches

`Part` says which texts a piece of each kind can have and, where that matters for joining pieces,
what can stand behind it: no word follows a word, a call is followed by its parenthesis, and a
minus sign is not followed by the other half of an arrow.  This holds of the pieces of every rule
that is applied (`along_fits`).
-/

namespace LineLexer

namespace EncryScript

open Pattern Grammar

/-- The texts of pieces of each kind, with the text behind them.  Pieces that are not joined come
from the groups of a rule. -/
def Part (v : Vocabulary) (kind : Kind) (joins : Bool) (w after : List Char) : Prop :=
  match kind with
  | .numeric => IsNumber w
  | .escape => IsEscape w
  | .operator => w ∈ operators.map String.toList ∧ (w = ['-'] → after.head? ≠ some '>')
  | .identifier | .controlKeyword | .builtinFunction | .builtinConstant | .builtinStructure
  | .libraryRoot =>
    wholeWord.Longest (w ++ after) w after ∧
      (Lexicon.ofWords v).kindOf (String.ofList w) = kind
  | .builtinType =>
    String.ofList w ∈ v.types ∧ (joins → wholeWord.Longest (w ++ after) w after)
  | .keyword =>
    if joins then w = ['-', '>'] ∨ isIdentifier (String.ofList w) ∧
      (Lexicon.ofWords v).kindOf (String.ofList w) = .keyword
    else w = ['d', 'e', 'f']
  | .functionName => isIdentifier (String.ofList w) ∧ (joins → after.head? = some '(')
  | .variable | .parameterName | .memberAccessLeft | .memberAccessRight =>
    isIdentifier (String.ofList w) ∧ joins = false
  | .storageDeclaration => w = ['l', 'e', 't'] ∧ joins = false
  | .whitespace => ∀ c ∈ w, isBlank c
  | .openParen => ∀ c ∈ w, c ∈ ['[', '(', '\x7b']
  | .closeParen => ∀ c ∈ w, c ∈ [']', ')', '\x7d']
  | .punctuation => ∀ c ∈ w, c ∈ [',', ' ', ':', '.']
  | .string | .text => True
  | .empty => False

/-- A piece is empty or a part of its kind. -/
def Fits (v : Vocabulary) (p : Piece) (after : List Char) : Prop :=
  p.text ≠ [] → Part v p.kind p.joins p.text after

/-- A word is a part of the kind that it is looked up to have. -/
theorem part_of_word {v : Vocabulary} {w after : List Char}
    (h : wholeWord.Longest (w ++ after) w after) :
    Part v ((Lexicon.ofWords v).kindOf (String.ofList w)) true w after := by
  obtain ⟨hid, -⟩ := spells_wholeWord.1 h.spells
  have hvoc := Lexicon.isVocabulary_kindOf v (String.ofList w)
  cases hkind : (Lexicon.ofWords v).kindOf (String.ofList w)
  case keyword => exact .inr ⟨hid, hkind⟩
  case builtinType => exact ⟨Lexicon.mem_types_of_kindOf hkind, fun _ => h⟩
  case identifier | controlKeyword | builtinFunction | builtinConstant | builtinStructure
      | libraryRoot => exact ⟨h, hkind⟩
  all_goals simp [hkind, Kind.isVocabulary] at hvoc

/-! ### Rules -/

/-- Wherever a rule of `state` with these patterns is applied, its pieces are empty or parts of
their kinds. -/
def Sound (v : Vocabulary) (state : State) (text : RuleText) (p : Pattern)
    (ahead : Option Pattern) : Prop :=
  ∀ a : Application, a.place.state = state → a.rule = anchored text p ahead →
    (tableOf v).application? a.place = some a →
    Piece.Along (Fits v) (a.pieces (Lexicon.ofWords v)) a.after.rest

variable {v : Vocabulary} {state : State} {text : RuleText} {p : Pattern} {ahead : Option Pattern}

theorem matchAt_of_application? {a : Application} (h : (tableOf v).application? a.place = some a)
    (hrule : a.rule = anchored text p ahead) :
    (anchored text p ahead).matchAt a.place.rest = some a.hit := by
  rw [← hrule]
  exact (Table.application?_eq_some h).2.2

/-- A rule of one kind is sound if all that it spells are parts of the kind. -/
theorem sound_single {kind : Kind} (hclass : text.classification = .single kind)
    (hpart : ∀ w after, w ≠ [] → p.Spells none w after →
      (∀ q ∈ ahead, ∃ u after', after = u ++ after' ∧ q.Spells none u after') →
      Part v kind true w after) : Sound v state text p ahead := by
  intro a _ hrule happ
  obtain ⟨w, after, hrest, hspells, hstart, hstop, hahead⟩ :=
    exists_spells_of_matchAt (matchAt_of_application? happ hrule)
  have hkind : a.rule.text.classification = .single kind := by rw [hrule]; exact hclass
  rw [Application.pieces_of_single hkind hrest hstart hstop, Application.after_rest_eq hrest hstop]
  refine ⟨?_, trivial⟩
  intro hne
  exact hpart w after hne hspells hahead

/-- Texts that groups spell are parts of the kinds of the groups. -/
theorem along_row {kinds : List Kind} {ps : List Pattern}
    (hparts : ∀ e ∈ kinds.zip ps, ∀ before w after after', w ≠ [] → e.2.Spells before w after →
      Part v e.1 false w after') {before : Option Char} {ws : List (List Char)}
    {after : List Char} (h : SpellEach ps before ws after) (n : Nat) :
    Piece.Along (Fits v) (Piece.row n (kinds.zip ws)) after := by
  induction ps generalizing kinds before ws n with
  | nil =>
    obtain rfl := spellEach_nil.1 h
    rw [List.zip_nil_right]
    trivial
  | cons p ps ih =>
    obtain ⟨w, ws, rfl, hw, hws⟩ := spellEach_cons.1 h
    cases kinds with
    | nil =>
      rw [List.zip_nil_left]
      trivial
    | cons kind kinds =>
      obtain ⟨hfirst, hparts⟩ := List.forall_mem_cons.1 hparts
      refine ⟨?_, ih hparts hws _⟩
      intro hne
      exact hfirst before w _ _ hne hw

/-- A rule with groups is sound if all that a group spells are parts of its kind. -/
theorem sound_perGroup {kinds : List Kind} (ps qs : List Pattern)
    (hclass : text.classification = .perGroup kinds) (hps : ∀ p ∈ ps, p.isPlain)
    (hqs : ∀ q ∈ qs, q.isPlain) (hne : ps ≠ [])
    (hlooks : ∀ before w after, (concat qs).Spells before w after → w = [])
    (hlen : kinds.length = ps.length)
    (hparts : ∀ e ∈ kinds.zip ps, ∀ before w after after', w ≠ [] → e.2.Spells before w after →
      Part v e.1 false w after') :
    Sound v state text (concat (fields 1 ps ++ qs)) none := by
  intro a _ hrule happ
  obtain ⟨ws, after, hrest, hspells, -, hhit⟩ :=
    exists_fields_of_matchAt hps hqs hne hlooks (matchAt_of_application? happ hrule)
  have hkinds : a.rule.text.classification = .perGroup kinds := by rw [hrule]; exact hclass
  have hpieces := Application.filled_pieces_of_perGroup hkinds hrest hhit
    (hlen.trans hspells.length_eq.symm) (Lexicon.ofWords v)
  rw [Application.after_rest_eq hrest (by rw [hhit])]
  refine Piece.along_of_filled (fun p _ hp hne => absurd hp hne) ?_
  rw [hpieces]
  exact (along_row hparts hspells _).filled

/-- The rule of words is sound: it takes the longest word. -/
theorem sound_word : Sound v .start (.word (EncryScript.identifier ++ wordEnd)) wholeWord none := by
  intro a _ hrule happ
  obtain ⟨w, after, hlongest, hhit⟩ := (matchAt_eq_some_iff isPlain_wholeWord
    descending_wholeWord.longestFirst).1 (matchAt_of_application? happ hrule)
  have hclass : a.rule.text.classification = .word := by rw [hrule]; rfl
  have hrest := hlongest.text_eq
  rw [Application.pieces_of_word hclass hrest (by rw [hhit]) (by rw [hhit]),
    Application.after_rest_eq hrest (by rw [hhit])]
  rw [hrest] at hlongest
  refine ⟨?_, trivial⟩
  intro _
  exact part_of_word hlongest

/-- The rule of operators is sound: an arrow would have been found by the rule in front of it. -/
theorem sound_operator : Sound v .start (.single .operator operator)
    (.oneOf (operators.map String.toList)) none := by
  intro a hstate hrule happ
  obtain ⟨w, after, hrest, hspells, hstart, hstop, -⟩ :=
    exists_spells_of_matchAt (matchAt_of_application? happ hrule)
  have hkind : a.rule.text.classification = .single .operator := by rw [hrule]; rfl
  rw [Application.pieces_of_single hkind hrest hstart hstop, Application.after_rest_eq hrest hstop]
  refine ⟨?_, trivial⟩
  intro _
  refine ⟨spells_operators.1 hspells, ?_⟩
  rintro rfl hhead
  obtain ⟨after, rfl⟩ := List.head?_eq_some_iff.1 hhead
  have harrow : ((anchored (.single .keyword "->") (.word ['-', '>']) none).matchAt
      a.place.rest).isSome := by
    have hspells : (Pattern.word ['-', '>']).Spells none ['-', '>'] after := spells_word.2 rfl
    have hsome := find?_isSome_of_spells (spells_textStart_seq.2 hspells)
    rw [matchAt_eq_find?, hrest]
    exact hsome
  have hrules : (tableOf v).rules a.place.state =
      (rules .builtin .start).take 11 ++ (rules .builtin .start).drop 11 := by
    rw [List.take_append_drop, hstate]
    exact rules_eq v (by decide)
  have hfront := Table.mem_front_of_matchAt happ hrules (by decide +kernel) harrow
  rw [hrule] at hfront
  revert hfront
  decide +kernel

/-! ### The rules of every state -/

/-- A rule that matches an empty text only is sound. -/
theorem sound_of_spells_nil {kind : Kind} (hclass : text.classification = .single kind)
    (hp : ∀ w after, p.Spells none w after → w = []) : Sound v state text p ahead := by
  refine sound_single hclass ?_
  intro w after hne hspells _
  exact absurd (hp w after hspells) hne

theorem forall_isBlank_of_eq {w : List Char} (h : ∀ c ∈ w, (CharSet.single ' ').holds c) :
    ∀ c ∈ w, isBlank c := by
  intro c hc
  rw [holds_single.1 (h c hc)]
  decide

theorem sound_declaration
    (hclass : text.classification = .perGroup [.storageDeclaration, .whitespace, .variable]) :
    Sound v state text (concat (fields 1 declarationFields ++ [wordEdge])) none := by
  refine sound_perGroup declarationFields [wordEdge] hclass (by decide) (by decide)
    (List.cons_ne_nil _ _) (fun _ _ _ => eq_nil_of_spells_wordEdge) rfl ?_
  simp only [declarationFields, List.zip_cons_cons, List.zip_nil_right, List.forall_mem_cons]
  refine ⟨?_, ?_, ?_, by simp⟩
  · intro before w after after' _ h
    exact ⟨spells_word.1 h, rfl⟩
  · intro before w after after' _ h
    exact forall_isBlank_of_eq (spells_plus_set.1 h).2
  · intro before w after after' _ h
    exact ⟨spells_identifier.1 h, rfl⟩

theorem sound_member (hclass : text.classification =
      .perGroup [.memberAccessLeft, .punctuation, .memberAccessRight]) :
    Sound v state text (concat (fields 1 memberFields ++ [])) none := by
  refine sound_perGroup memberFields [] hclass (by decide) (by simp)
    (List.cons_ne_nil _ _) (fun _ _ _ => eq_nil_of_spells_nil) rfl ?_
  simp only [memberFields, List.zip_cons_cons, List.zip_nil_right, List.forall_mem_cons]
  refine ⟨?_, ?_, ?_, by simp⟩
  · intro before w after after' _ h
    exact ⟨spells_identifier.1 h, rfl⟩
  · intro before w after after' _ h
    obtain rfl := spells_char.1 h
    simp [Part]
  · intro before w after after' _ h
    exact ⟨spells_identifier.1 h, rfl⟩

theorem sound_header (hclass : text.classification =
      .perGroup [.keyword, .whitespace, .functionName, .openParen]) :
    Sound v state text (concat (fields 1 headerFields ++ [])) none := by
  refine sound_perGroup headerFields [] hclass (by decide) (by simp)
    (List.cons_ne_nil _ _) (fun _ _ _ => eq_nil_of_spells_nil) rfl ?_
  simp only [headerFields, List.zip_cons_cons, List.zip_nil_right, List.forall_mem_cons]
  refine ⟨?_, ?_, ?_, ?_, by simp⟩
  · intro before w after after' _ h
    exact spells_word.1 h
  · intro before w after after' _ h
    exact forall_isBlank_of_eq (spells_plus_set.1 h).2
  · intro before w after after' _ h
    exact ⟨spells_identifier.1 h, by simp⟩
  · intro before w after after' _ h
    obtain rfl := spells_char.1 h
    simp [Part]

theorem sound_parameter (hv : v.Valid) (hclass : text.classification =
      .perGroup [.parameterName, .punctuation, .whitespace, .builtinType]) :
    Sound v state text (typedParameter (typeNames v)) none := by
  have hplain := isPlain_parameterFields (typeNames_ne_nil hv)
  refine sound_perGroup (parameterFields (typeNames v)) [wordEdge] hclass hplain (by decide)
    (List.cons_ne_nil _ _) (fun _ _ _ => eq_nil_of_spells_wordEdge) rfl ?_
  simp only [parameterFields, List.zip_cons_cons, List.zip_nil_right, List.forall_mem_cons]
  refine ⟨?_, ?_, ?_, ?_, by simp⟩
  · intro before w after after' _ h
    exact ⟨spells_identifier.1 h, rfl⟩
  · intro before w after after' _ h
    obtain rfl := spells_char.1 h
    simp [Part]
  · intro before w after after' _ h
    exact forall_isBlank_of_eq (spells_star_set.1 h)
  · intro before w after after' _ h
    have hmem := (spells_oneOf (typeNames_ne_nil hv)).1 h
    exact ⟨mem_typeNames.1 hmem, by simp⟩

/-- A call is followed by its parenthesis. -/
theorem sound_call (hclass : text.classification = .single .functionName) :
    Sound v state text (.concat Grammar.identifier) (some (.char '(')) := by
  refine sound_single hclass ?_
  intro w after _ hspells hahead
  refine ⟨spells_identifier.1 hspells, ?_⟩
  intro _
  obtain ⟨u, after', rfl, hu⟩ := hahead _ rfl
  rw [spells_char.1 hu]
  rfl

/-- The rules of numbers are sound. -/
theorem sound_number (hclass : text.classification = .single .numeric)
    (hp : ∀ w after, p.Spells none w after → IsNumber w) : Sound v state text p ahead := by
  refine sound_single hclass ?_
  intro w after _ hspells _
  exact hp w after hspells

theorem isNumber_of_spells_long {w after : List Char}
    (h : (concat [Grammar.integer, anyOf ['l', 'L'], wordEdge]).Spells none w after) :
    IsNumber w := by
  rw [spells_concat_cons] at h
  obtain ⟨u, u', rfl, hu, hu'⟩ := h
  have hsuffix := (spells_concat_append_look [anyOf ['l', 'L']]).1 hu'
  obtain ⟨c, hc, rfl⟩ := spells_anyOf.1 hsuffix.1
  exact .long (spells_integer.1 hu) hc

theorem isNumber_of_spells_integer {w after : List Char}
    (h : (concat [Grammar.integer, wordEdge]).Spells none w after) : IsNumber w := by
  have hinteger := (spells_concat_append_look [Grammar.integer]).1 h
  exact .integer (spells_integer.1 hinteger.1)

/-- The rule of arrows is sound. -/
theorem sound_arrow (hclass : text.classification = .single .keyword) :
    Sound v state text (.word ['-', '>']) ahead := by
  refine sound_single hclass ?_
  intro w after _ hspells _
  exact .inl (spells_word.1 hspells)

theorem sound_brackets {kind : Kind} {cs : List Char} (hclass : text.classification = .single kind)
    (hpart : ∀ c ∈ cs, ∀ after, Part v kind true [c] after) :
    Sound v state text (anyOf cs) ahead := by
  refine sound_single hclass ?_
  intro w after _ hspells _
  obtain ⟨c, hc, rfl⟩ := spells_anyOf.1 hspells
  exact hpart c hc after

theorem sound_blanks (hclass : text.classification = .single .whitespace) :
    Sound v state text (.plus true blank) ahead := by
  refine sound_single hclass ?_
  intro w after _ hspells _
  exact (spells_blanks.1 hspells).2

/-- A rule of a kind whose pieces can be anything is sound. -/
theorem sound_anything {kind : Kind} (hclass : text.classification = .single kind)
    (hkind : kind = .string ∨ kind = .text) : Sound v state text p ahead := by
  refine sound_single hclass ?_
  intro w after _ _ _
  rcases hkind with rfl | rfl
  · trivial
  · trivial

theorem sound_start : ∀ e ∈ startRules.zip startPatterns, Sound v .start e.1 e.2.1 e.2.2 := by
  simp only [startRules, startPatterns, List.zip_cons_cons, List.zip_nil_right,
    List.forall_mem_cons]
  refine ⟨?_, ?_, ?_, ?_, ?_, ?_, ?_, ?_, ?_, ?_, ?_, ?_, ?_, ?_, ?_, ?_, ?_, by simp⟩
  · exact sound_anything rfl (.inl rfl)
  · exact sound_anything rfl (.inl rfl)
  · exact sound_number rfl fun w after h => .float (spells_float.1 h)
  · exact sound_number rfl fun w after => isNumber_of_spells_long
  · exact sound_declaration rfl
  · exact sound_member rfl
  · exact sound_header rfl
  · exact sound_call rfl
  · exact sound_number rfl fun w after => isNumber_of_spells_integer
  · exact sound_word
  · exact sound_arrow rfl
  · exact sound_operator
  · exact sound_brackets rfl (by simp [Part])
  · exact sound_brackets rfl (by simp [Part])
  · exact sound_blanks rfl
  · exact sound_of_spells_nil rfl fun w after h => h.1
  · exact sound_anything rfl (.inr rfl)

theorem sound_string (quote : Char) (inside : State) :
    ∀ e ∈ (stringRules quote inside).zip (stringPatterns quote),
      Sound v state e.1 e.2.1 e.2.2 := by
  have hescape : Sound v state (.single .escape stringEscape) Grammar.escape none := by
    refine sound_single rfl ?_
    intro w after _ hspells _
    exact spells_escape.1 hspells
  simp only [stringRules, stringPatterns, List.zip_cons_cons, List.zip_nil_right,
    List.forall_mem_cons]
  refine ⟨hescape, ?_, ?_, ?_, by simp⟩
  · exact sound_anything rfl (.inl rfl)
  · exact sound_anything rfl (.inl rfl)
  · exact sound_anything rfl (.inl rfl)

theorem sound_parameters (hv : v.Valid) :
    ∀ e ∈ (parameterRules v).zip (parameterPatterns v), Sound v state e.1 e.2.1 e.2.2 := by
  have hseparator : Sound v state (.single .punctuation "[, :]+")
      (.plus true (anyOf [',', ' ', ':'])) none := by
    refine sound_single rfl ?_
    intro w after _ hspells _ c hc
    have hmem := (spells_plus_anyOf.1 hspells).2 c hc
    simp only [List.mem_cons, List.not_mem_nil] at hmem ⊢
    tauto
  simp only [parameterRules, parameterPatterns, List.zip_cons_cons, List.zip_nil_right,
    List.forall_mem_cons]
  refine ⟨sound_parameter hv rfl, hseparator, ?_, ?_, by simp⟩
  · exact sound_of_spells_nil rfl fun w after h => h.1
  · exact sound_of_spells_nil rfl fun w after h => h

/-- **The pieces of every rule that is applied are empty or parts of their kinds.** -/
theorem along_fits (hv : v.Valid) {a : Application}
    (h : (tableOf v).application? a.place = some a) :
    Piece.Along (Fits v) (a.pieces (Lexicon.ofWords v)) a.after.rest := by
  obtain ⟨-, hr, -⟩ := Table.application?_eq_some h
  obtain ⟨e, he, hrule⟩ := List.mem_map.1 hr
  have hsound : ∀ e ∈ (texts v a.place.state).zip (patterns v a.place.state),
      Sound v a.place.state e.1 e.2.1 e.2.2 := by
    cases a.place.state with
    | start => exact sound_start
    | doubleQuotedString => exact sound_string '"' .doubleQuotedString
    | quotedString => exact sound_string '\'' .quotedString
    | functionArguments => exact sound_parameters hv
  exact hsound e he a rfl hrule.symm h

end EncryScript

end LineLexer
