import LineLexer.Proofs.EncryScript.Parameters
import LineLexer.Proofs.EncryScript.Recognition

/-!
# Function headers

A function header that is written with one space after each comma is read back part by part: the
front, every parameter with its type, the commas and the closing parenthesis
(`EncryScript.scanLine_header`).  The front leads to the state of parameters, and the closing
parenthesis, which no rule of that state takes, leads out of it.
-/

namespace LineLexer

namespace EncryScript

open Pattern Grammar

/-! ### Headers and how they are written -/

/-- So many spaces. -/
def spaces (n : Nat) : String := String.ofList (List.replicate n ' ')

/-- A parameter with its type, and the number of spaces in front of the type. -/
structure Parameter where
  name : String
  spaces : Nat
  type : String

namespace Parameter

/-- The parameter as it is written. -/
def written (x : Parameter) : String := x.name ++ ":" ++ EncryScript.spaces x.spaces ++ x.type

/-- The parts of the parameter with their kinds. -/
def lexemes (x : Parameter) : List (Kind × String) :=
  [(.parameterName, x.name), (.punctuation, ":")] ++
    (if x.spaces = 0 then [] else [(.whitespace, EncryScript.spaces x.spaces)]) ++
    [(.builtinType, x.type)]

/-- The name is an identifier, and the type is one of `types` whose end is the end of a word. -/
structure WellFormed (types : List String) (x : Parameter) : Prop where
  isIdentifier_name : isIdentifier x.name
  mem_types : x.type ∈ types
  type_end : x.type.toList.getLast? ≠ some '$'

end Parameter

/-- The header of a function, with the number of spaces in front of its name. -/
structure Header where
  spaces : Nat
  name : String
  parameters : List Parameter

namespace Header

/-- The header as it is written. -/
def written (h : Header) : String :=
  "def" ++ EncryScript.spaces h.spaces ++ h.name ++ "(" ++
    ", ".intercalate (h.parameters.map Parameter.written) ++ ")"

/-- The parts of the header with their kinds. -/
def lexemes (h : Header) : List (Kind × String) :=
  [(.keyword, "def"), (.whitespace, EncryScript.spaces h.spaces), (.functionName, h.name),
      (.openParen, "(")] ++
    [(.punctuation, ", ")].intercalate (h.parameters.map Parameter.lexemes) ++ [(.closeParen, ")")]

/-- There is a space in front of the name, which is an identifier, and the parameters are
well-formed. -/
structure WellFormed (types : List String) (h : Header) : Prop where
  one_le_spaces : 1 ≤ h.spaces
  isIdentifier_name : isIdentifier h.name
  parameters : ∀ x ∈ h.parameters, x.WellFormed types

end Header

/-! ### Which rule is applied -/

/-- The rule of the front of a header. -/
def headerRule : Rule :=
  anchored (.goto (.perGroup [.keyword, .whitespace, .functionName, .openParen]
    ("(def)( +)(" ++ EncryScript.identifier ++ ")(\\()")) .functionArguments)
    (concat (fields 1 headerFields ++ [])) none

/-- The rule of accesses to members. -/
def memberRule : Rule :=
  anchored (.perGroup [.memberAccessLeft, .punctuation, .memberAccessRight]
    ("(" ++ EncryScript.identifier ++ ")(\\.)(" ++ EncryScript.identifier ++ ")"))
    (concat (fields 1 memberFields)) none

/-- The rule of what separates parameters. -/
def separatorRule : Rule :=
  anchored (.single .punctuation "[, :]+") (.plus true (anyOf [',', ' ', ':'])) none

/-- The rule at the end of a line within the parameters. -/
def listEndRule : Rule := anchored (.single .punctuation "$") (.look .textEnd) none

/-- The rule that leaves the parameters. -/
def leaveRule : Rule := anchored (.asFallback (.goto (.single .empty "") .start)) .empty none

/-- The rule of closing brackets. -/
def closingRule : Rule :=
  anchored (.single .closeParen "[\\])\x7d]") (anyOf [']', ')', '\x7d']) none

variable {v : Vocabulary} {state : State}

theorem toList_written (x : Parameter) :
    x.written.toList = (parameterTexts x.name.toList x.spaces x.type.toList).flatten := by
  simp [Parameter.written, spaces, parameterTexts]

/-- A written parameter is what a text begins with if no identifier goes on behind it. -/
theorem parameterAt_written {x : Parameter} {rest : List Char} (hv : v.Valid)
    (hx : x.WellFormed v.types) (hrest : ∀ c ∈ rest.head?, isIdentifierChar c = false) :
    ParameterAt v.types (x.written.toList ++ rest) x.name.toList x.spaces x.type.toList rest := by
  have htype (w : String) (hw : w ∈ v.types) : isIdentifier w := by
    have hmem : w ∈ v.words .types := hw
    exact hv.isIdentifier hmem
  have hid : isIdentifier (String.ofList x.type.toList) := by
    rw [String.ofList_toList]
    exact htype _ hx.mem_types
  have hcore : core x.type.toList = x.type.toList := by
    have hboth := core_append_dollars x.type.toList
    rwa [dollars_eq_nil_iff.2 hx.type_end, List.append_nil] at hboth
  have hne : core x.type.toList ≠ [] := by
    rw [hcore]
    exact ne_nil_of_isIdentifier hid
  have hlongest := longest_wholeWord hid hrest hne
  rw [hcore, dollars_eq_nil_iff.2 hx.type_end, List.nil_append] at hlongest
  obtain ⟨-, hspells, hmax⟩ := hlongest
  refine ⟨?_, ?_, ?_, (spells_wholeWord.1 hspells).2, ?_⟩
  · rw [toList_written]
  · rw [String.ofList_toList]
    exact hx.isIdentifier_name
  · rw [String.ofList_toList]
    exact hx.mem_types
  · intro type' after' hboth hmem hedge
    exact hmax type' after' hboth (spells_wholeWord.2 ⟨htype _ hmem, hedge⟩)

theorem rules_parameters (v : Vocabulary) : (tableOf v).rules .functionArguments =
    typedParameterRead v :: (rules .builtin .functionArguments).tail := rfl

/-- In front of a parameter its rule is applied. -/
theorem application?_parameterAt {text name type after : List Char} {k : Nat} (hv : v.Valid)
    (h : ParameterAt v.types text name k type after) (n : Nat) :
    (tableOf v).application? ⟨.functionArguments, n, text⟩ =
      some ⟨⟨.functionArguments, n, text⟩, typedParameterRead v, parameterMatch name k type⟩ := by
  have hsplit : (tableOf v).rules .functionArguments =
      [] ++ typedParameterRead v :: (rules .builtin .functionArguments).tail := rules_parameters v
  refine Table.application?_of_front hsplit (by simp) ?_
  exact (matchAt_typedParameter hv).2 ⟨_, _, _, _, h, rfl⟩

/-- `c` separates parameters. -/
def isSeparator (c : Char) : Bool := c == ',' || c == ' ' || c == ':'

theorem isSeparator_iff {c : Char} : isSeparator c ↔ c ∈ [',', ' ', ':'] := by
  simp [isSeparator, or_assoc]

theorem spells_separatorRule {w after : List Char} :
    (plus true (anyOf [',', ' ', ':'])).Spells none w after ↔
      w ≠ [] ∧ ∀ c ∈ w, isSeparator c := by
  rw [spells_plus_anyOf]
  simp only [isSeparator_iff]

/-- In front of separators the rule that takes them is applied, to all of them. -/
theorem application?_separators {w after : List Char} (hv : v.Valid)
    (hnone : NoParameter v.types (w ++ after)) (hne : w ≠ []) (hw : ∀ c ∈ w, isSeparator c)
    (hafter : ∀ c ∈ after.head?, isSeparator c = false) (n : Nat) :
    (tableOf v).application? ⟨.functionArguments, n, w ++ after⟩ =
      some ⟨⟨.functionArguments, n, w ++ after⟩, separatorRule, ⟨0, w.length, []⟩⟩ := by
  have hsplit : (tableOf v).rules .functionArguments = [typedParameterRead v] ++
      separatorRule :: (rules .builtin .functionArguments).tail.tail := rules_parameters v
  refine Table.application?_of_front hsplit ?_ ?_
  · exact List.forall_mem_singleton.2 (matchAt_typedParameter_eq_none hv hnone)
  · have hlongest : (plus true (anyOf [',', ' ', ':'])).LongestFirst :=
      (single_set _).descending_plus.longestFirst
    refine (matchAt_eq_some_iff rfl hlongest).2 ⟨w, after, ⟨rfl, ?_, ?_⟩, rfl⟩
    · exact spells_separatorRule.2 ⟨hne, hw⟩
    · intro u after' htext hspells
      obtain ⟨u', rfl, -⟩ :=
        exists_append_of_run htext hw hafter (spells_separatorRule.1 hspells).2
      rw [List.length_append]
      exact Nat.le_add_right _ _

theorem matchAt_separatorRule_eq_none {text : List Char}
    (hhead : ∀ c ∈ text.head?, isSeparator c = false) : separatorRule.matchAt text = none := by
  refine matchAt_eq_none ?_
  rintro w after rfl hspells
  obtain ⟨hne, hw⟩ := spells_separatorRule.1 hspells
  obtain ⟨c, cs, rfl⟩ := List.exists_cons_of_ne_nil hne
  have hnot := hhead c rfl
  rw [hw c List.mem_cons_self] at hnot
  exact Bool.noConfusion hnot

/-- At the end of the line the parameters may go on in the next one. -/
theorem application?_listEnd (hv : v.Valid) (n : Nat) :
    (tableOf v).application? ⟨.functionArguments, n, []⟩ =
      some ⟨⟨.functionArguments, n, []⟩, listEndRule, ⟨0, 0, []⟩⟩ := by
  have hsplit : (tableOf v).rules .functionArguments =
      [typedParameterRead v, separatorRule] ++ [listEndRule, leaveRule] := rules_parameters v
  have hnone : NoParameter v.types [] := noParameter_of_head? (by simp)
  have hseparator : separatorRule.matchAt [] = none := matchAt_separatorRule_eq_none (by simp)
  have hm : listEndRule.matchAt [] = some ⟨0, 0, []⟩ := by decide +kernel
  refine Table.application?_of_front hsplit ?_ hm
  simp [matchAt_typedParameter_eq_none hv hnone, hseparator]

/-- Whatever else follows leaves the parameters. -/
theorem application?_leave {text : List Char} (hv : v.Valid) (hnone : NoParameter v.types text)
    (hne : text ≠ []) (hhead : ∀ c ∈ text.head?, isSeparator c = false) (n : Nat) :
    (tableOf v).application? ⟨.functionArguments, n, text⟩ =
      some ⟨⟨.functionArguments, n, text⟩, leaveRule, ⟨0, 0, []⟩⟩ := by
  have hsplit : (tableOf v).rules .functionArguments =
      [typedParameterRead v, separatorRule, listEndRule] ++ [leaveRule] := rules_parameters v
  have hend : listEndRule.matchAt text = none := by
    refine matchAt_eq_none ?_
    rintro w after rfl ⟨rfl, hend⟩
    exact hne (by simpa [Look.holds] using hend)
  have hempty : Pattern.empty.LongestFirst := single_empty.descending.longestFirst
  have hlongest : Pattern.empty.Longest text [] text := by
    refine ⟨rfl, rfl, ?_⟩
    rintro w after - rfl
    exact Nat.le_refl 0
  have hm : leaveRule.matchAt text = some ⟨0, 0, []⟩ :=
    (matchAt_eq_some_iff rfl hempty).2 ⟨[], text, hlongest, rfl⟩
  refine Table.application?_of_front hsplit ?_ hm
  simp [matchAt_typedParameter_eq_none hv hnone, matchAt_separatorRule_eq_none hhead, hend]

theorem application?_closing (v : Vocabulary) (n : Nat) :
    (tableOf v).application? ⟨.start, n, [')']⟩ =
      some ⟨⟨.start, n, [')']⟩, closingRule, ⟨0, 1, []⟩⟩ := by
  have hsplit : (tableOf v).rules .start = (rules .builtin .start).take 13 ++
      closingRule :: (rules .builtin .start).drop 14 := by
    rw [rules_start]
    rfl
  have hfront : ∀ r ∈ (rules .builtin .start).take 13, r.matchAt [')'] = none := by decide +kernel
  have hmatch : closingRule.matchAt [')'] = some ⟨0, 1, []⟩ := by decide +kernel
  exact Table.application?_of_front hsplit hfront hmatch

/-! ### The parameters -/

/-- The closing parenthesis leads back to where the header began. -/
theorem yields_closing (hv : v.Valid) (n : Nat) : (tableOf v).Yields 0
    ⟨.functionArguments, n, [')']⟩ [⟨.closeParen, [')'], n, true⟩] .start := by
  have hnone : NoParameter v.types [')'] :=
    noParameter_of_head? (forall_head?_cons.2 (by decide))
  have hseparator : ∀ c ∈ [')'].head?, isSeparator c = false := forall_head?_cons.2 (by decide)
  have hleave := application?_leave hv hnone (List.cons_ne_nil _ _) hseparator n
  refine Table.Yields.still hleave rfl rfl rfl (by decide) rfl ?_
  exact Table.Yields.step (application?_closing v n) rfl Nat.one_ne_zero rfl
    (yields_end v _ 0)

theorem Parameter.WellFormed.isIdentifier_type {x : Parameter} (hv : v.Valid)
    (hx : x.WellFormed v.types) : isIdentifier x.type := by
  have hmem : x.type ∈ v.words .types := hx.mem_types
  exact hv.isIdentifier hmem

theorem pairs_parameter {x : Parameter} (hname : isIdentifier x.name) (htype : isIdentifier x.type)
    (n : Nat) : Piece.pairs (Piece.row n
      ([Kind.parameterName, .punctuation, .whitespace, .builtinType].zip
        (parameterTexts x.name.toList x.spaces x.type.toList))) = x.lexemes := by
  have hname' := ne_empty_of_isIdentifier hname
  have htype' := ne_empty_of_isIdentifier htype
  rw [Piece.pairs_row]
  by_cases hspaces : x.spaces = 0
  · simp [parameterTexts, Parameter.lexemes, hspaces, hname', htype']
  · simp [parameterTexts, Parameter.lexemes, spaces, hspaces, hname', htype']

/-- A parameter in front of what is yielded. -/
theorem exists_yields_parameter {x : Parameter} {rest : List Char} {fs : List (Kind × String)}
    (hv : v.Valid) (hx : x.WellFormed v.types)
    (hrest : ∀ c ∈ rest.head?, isIdentifierChar c = false) (n : Nat)
    (h : ∃ ps, (tableOf v).Yields 0
      ⟨.functionArguments, n + byteSize x.written.toList, rest⟩ ps state ∧ Piece.pairs ps = fs) :
    ∃ ps, (tableOf v).Yields 0 ⟨.functionArguments, n, x.written.toList ++ rest⟩ ps state ∧
      Piece.pairs ps = x.lexemes ++ fs := by
  obtain ⟨ps, hyields, rfl⟩ := h
  have happlied := application?_parameterAt hv (parameterAt_written hv hx hrest) n
  rw [toList_written] at happlied hyields ⊢
  refine ⟨_, Table.Yields.step_groups happlied rfl rfl rfl (by simp [parameterTexts]) hyields, ?_⟩
  rw [Piece.pairs_append, pairs_parameter hx.isIdentifier_name (hx.isIdentifier_type hv)]

theorem exists_yields_separator {rest : List Char} {fs : List (Kind × String)} (hv : v.Valid)
    (hrest : ∀ c ∈ rest.head?, isSeparator c = false) (n : Nat)
    (h : ∃ ps, (tableOf v).Yields 0 ⟨.functionArguments, n + 2, rest⟩ ps state ∧
      Piece.pairs ps = fs) :
    ∃ ps, (tableOf v).Yields 0 ⟨.functionArguments, n, [',', ' '] ++ rest⟩ ps state ∧
      Piece.pairs ps = (.punctuation, ", ") :: fs := by
  obtain ⟨ps, hyields, rfl⟩ := h
  have hnone : NoParameter v.types ([',', ' '] ++ rest) :=
    noParameter_of_head? (forall_head?_cons.2 (by decide))
  have hseparators : ∀ c ∈ [',', ' '], isSeparator c := List.all_eq_true.1 (by decide)
  have happlied := application?_separators hv hnone (List.cons_ne_nil _ _) hseparators hrest n
  refine ⟨[⟨.punctuation, [',', ' '], n, true⟩] ++ ps,
    Table.Yields.step happlied rfl (Nat.succ_ne_zero 1) rfl hyields, ?_⟩
  rw [Piece.pairs_append]
  rfl

/-- Written parameters begin with an identifier. -/
theorem exists_head?_parameters {x : Parameter} (hx : isIdentifier x.name) (xs : List Parameter)
    (rest : List Char) : ∃ c, isIdentifierStart c ∧
      ((", ".intercalate ((x :: xs).map Parameter.written)).toList ++ rest).head? = some c := by
  rw [← String.ofList_toList (s := x.name)] at hx
  obtain ⟨c, cs, hname, hc, -⟩ := isIdentifier_iff.1 hx
  refine ⟨c, hc, ?_⟩
  cases xs with
  | nil => simp [Parameter.written, hname]
  | cons y ys => simp [Parameter.written, hname, String.intercalate_cons_cons]

/-- **The parameters and the closing parenthesis are read back.** -/
theorem exists_yields_parameters {xs : List Parameter} (hv : v.Valid)
    (hxs : ∀ x ∈ xs, x.WellFormed v.types) (n : Nat) :
    ∃ ps, (tableOf v).Yields 0 ⟨.functionArguments, n,
        (", ".intercalate (xs.map Parameter.written)).toList ++ [')']⟩ ps .start ∧
      Piece.pairs ps = [(.punctuation, ", ")].intercalate (xs.map Parameter.lexemes) ++
        [(.closeParen, ")")] := by
  induction xs generalizing n with
  | nil => exact ⟨_, yields_closing hv n, rfl⟩
  | cons x xs ih =>
    obtain ⟨hx, hxs⟩ := List.forall_mem_cons.1 hxs
    -- the bracket stands behind the last parameter, a comma behind every other
    cases xs with
    | nil =>
      have hclosing : ∃ ps, (tableOf v).Yields 0
          ⟨.functionArguments, n + byteSize x.written.toList, [')']⟩ ps .start ∧
          Piece.pairs ps = [(.closeParen, ")")] := ⟨_, yields_closing hv _, rfl⟩
      have hbracket : isIdentifierChar ')' = false := by decide
      have hboth := exists_yields_parameter hv hx (isIdentifierChar_head?_cons hbracket []) n hclosing
      simpa using hboth
    | cons y ys =>
      obtain ⟨c, hc, hhead⟩ :=
        exists_head?_parameters (hxs y List.mem_cons_self).isIdentifier_name ys [')']
      have hstarts : ∀ d ∈ ((", ".intercalate ((y :: ys).map Parameter.written)).toList ++
          [')']).head?, isSeparator d = false := by
        intro d hd
        obtain rfl := Option.some.inj (hhead.symm.trans hd)
        rw [Bool.eq_false_iff]
        intro hmem
        have hnone : [',', ' ', ':'].all fun e => !isIdentifierStart e := by decide
        have hnot := List.all_eq_true.1 hnone c (isSeparator_iff.1 hmem)
        simp [hc] at hnot
      have hseparator := exists_yields_separator hv hstarts
        (n + byteSize x.written.toList) (ih hxs _)
      have hcomma : isIdentifierChar ',' = false := by decide
      have hboth := exists_yields_parameter hv hx (isIdentifierChar_head?_cons hcomma _) n hseparator
      simpa [String.intercalate_cons_cons, List.intercalate_cons_cons] using hboth

/-! ### The whole header -/

/-- The texts that the front of a header is made of. -/
def headerTexts (n : Nat) (name : List Char) : List (List Char) :=
  [['d', 'e', 'f'], List.replicate n ' ', name, ['(']]

theorem spellEach_headerFields {ws : List (List Char)} {after : List Char} :
    SpellEach headerFields none ws after ↔ ∃ n name, ws = headerTexts n name ∧ 1 ≤ n ∧
      isIdentifier (String.ofList name) := by
  simp only [headerFields, spellEach_cons, spellEach_nil, spells_word, spells_plus_space,
    spells_identifier, spells_char]
  constructor
  · rintro ⟨_, _, rfl, rfl, _, _, rfl, ⟨n, hn, rfl⟩, name, _, rfl, hname, _, _, rfl, rfl, rfl⟩
    exact ⟨n, name, rfl, hn, hname⟩
  · rintro ⟨n, name, rfl, hn, hname⟩
    exact ⟨_, _, rfl, rfl, _, _, rfl, ⟨n, hn, rfl⟩, name, _, rfl, hname, _, _, rfl, rfl, rfl⟩

/-- **The rule of headers matches the front of a header.** -/
theorem matchAt_headerRule {n : Nat} {name : List Char} (hn : 1 ≤ n)
    (hname : isIdentifier (String.ofList name)) (after : List Char) :
    headerRule.matchAt ((headerTexts n name).flatten ++ after) =
      some ⟨0, (headerTexts n name).flatten.length, spans 0 (headerTexts n name)⟩ := by
  have hspells : (concat (fields 1 headerFields ++ [])).Spells none (headerTexts n name).flatten
      after := by
    rw [List.append_nil]
    exact spells_concat_fields.2 ⟨_, rfl, spellEach_headerFields.2 ⟨n, name, rfl, hn, hname⟩⟩
  have hsome := find?_isSome_of_spells (spells_textStart_seq.2 hspells)
  obtain ⟨m, hm⟩ := Option.isSome_iff_exists.1 hsome
  have hmatch : headerRule.matchAt ((headerTexts n name).flatten ++ after) = some m := by
    rw [headerRule, matchAt_eq_find?, hm]
  obtain ⟨ws, after', htext, hws, -, rfl⟩ := exists_fields_of_matchAt (by decide) (by simp)
    (List.cons_ne_nil _ _) (fun _ _ _ => eq_nil_of_spells_nil) hmatch
  obtain ⟨n', name', rfl, -, hname'⟩ := spellEach_headerFields.1 hws
  -- the spaces and the name can end in one place only
  have hrest : List.replicate n ' ' ++ (name ++ '(' :: after) =
      List.replicate n' ' ' ++ (name' ++ '(' :: after') := by
    simpa [headerTexts] using htext
  have hbracket : isIdentifierChar '(' = false := by decide
  obtain ⟨rfl, htail⟩ := eq_of_spaces hname hname' hrest
  obtain ⟨rfl, -⟩ := eq_of_identifier hname hname' hbracket hbracket htail
  exact hmatch

/-- The texts that an access to a member is made of. -/
def memberTexts (w x : List Char) : List (List Char) := [w, ['.'], x]

theorem spellEach_memberFields {ws : List (List Char)} {after : List Char} :
    SpellEach memberFields none ws after ↔ ∃ w x, ws = memberTexts w x ∧
      isIdentifier (String.ofList w) ∧ isIdentifier (String.ofList x) := by
  simp only [memberFields, spellEach_cons, spellEach_nil, spells_identifier, spells_char]
  constructor
  · rintro ⟨w, _, rfl, hw, _, _, rfl, rfl, x, _, rfl, hx, rfl⟩
    exact ⟨w, x, rfl, hw, hx⟩
  · rintro ⟨w, x, rfl, hw, hx⟩
    exact ⟨w, _, rfl, hw, _, _, rfl, rfl, x, _, rfl, hx, rfl⟩

/-- Spaces behind `def` keep it from being the left side of an access to a member. -/
theorem matchAt_memberRule {n : Nat} {name after : List Char} (hn : 1 ≤ n) :
    memberRule.matchAt ((headerTexts n name).flatten ++ after) = none := by
  refine matchAt_eq_none ?_
  intro w after' htext hspells
  obtain ⟨ws, rfl, hws⟩ := spells_concat_fields.1 hspells
  obtain ⟨left, right, rfl, hleft, -⟩ := spellEach_memberFields.1 hws
  obtain ⟨k, rfl⟩ := Nat.exists_eq_add_of_le' hn
  have hfront : ['d', 'e', 'f'] ++ ' ' :: (List.replicate k ' ' ++ (name ++ '(' :: after)) =
      left ++ '.' :: (right ++ after') := by
    simpa [headerTexts, memberTexts, List.replicate_succ] using htext
  have hdef : isIdentifier (String.ofList ['d', 'e', 'f']) := by decide
  obtain ⟨-, hnext⟩ := eq_of_identifier hdef hleft (by decide) (by decide) hfront
  simp at hnext

theorem application?_header (v : Vocabulary) {n : Nat} {name : List Char} (hn : 1 ≤ n)
    (hname : isIdentifier (String.ofList name)) (after : List Char) :
    (tableOf v).application? ⟨.start, 0, (headerTexts n name).flatten ++ after⟩ =
      some ⟨⟨.start, 0, (headerTexts n name).flatten ++ after⟩, headerRule,
        ⟨0, (headerTexts n name).flatten.length, spans 0 (headerTexts n name)⟩⟩ := by
  have hsplit : (tableOf v).rules .start = (rules .builtin .start).take 6 ++
      headerRule :: (rules .builtin .start).drop 7 := by
    rw [rules_start]
    rfl
  refine Table.application?_of_front hsplit ?_ (matchAt_headerRule hn hname after)
  intro r hr
  have hall : ∀ r ∈ (rules .builtin .start).take 6,
      r = memberRule ∨ refuses 'd' (fun _ => false) r := by
    decide +kernel
  rcases hall r hr with rfl | hrefuses
  · exact matchAt_memberRule hn
  · exact matchAt_eq_none_of_refuses (v := v) (mem_rules_start (List.mem_of_mem_take hr)) hrefuses
      rfl (fun _ _ => rfl)

theorem toList_written_header (h : Header) : h.written.toList =
    (headerTexts h.spaces h.name.toList).flatten ++
      ((", ".intercalate (h.parameters.map Parameter.written)).toList ++ [')']) := by
  simp [Header.written, headerTexts, spaces]

theorem pairs_header {h : Header} (hspaces : 1 ≤ h.spaces) (hname : isIdentifier h.name) (n : Nat) :
    Piece.pairs (Piece.row n ([Kind.keyword, .whitespace, .functionName, .openParen].zip
      (headerTexts h.spaces h.name.toList))) =
      [(.keyword, "def"), (.whitespace, spaces h.spaces), (.functionName, h.name),
        (.openParen, "(")] := by
  have hname' := ne_empty_of_isIdentifier hname
  have hspaces' := Nat.one_le_iff_ne_zero.1 hspaces
  rw [Piece.pairs_row]
  simp [headerTexts, spaces, hname', hspaces']

theorem exists_yields_header {h : Header} (hv : v.Valid) (hh : h.WellFormed v.types) :
    ∃ ps, (tableOf v).Yields 0 ⟨.start, 0, h.written.toList⟩ ps .start ∧
      Piece.pairs ps = h.lexemes := by
  obtain ⟨ps, hyields, hpairs⟩ := exists_yields_parameters hv hh.parameters
    (0 + byteSize (headerTexts h.spaces h.name.toList).flatten)
  have hid : isIdentifier (String.ofList h.name.toList) := by
    rw [String.ofList_toList]
    exact hh.isIdentifier_name
  have happlied := application?_header v hh.one_le_spaces hid
    ((", ".intercalate (h.parameters.map Parameter.written)).toList ++ [')'])
  rw [toList_written_header]
  refine ⟨_, Table.Yields.step_groups happlied rfl rfl rfl (by simp [headerTexts]) hyields, ?_⟩
  rw [Piece.pairs_append, pairs_header hh.one_le_spaces hh.isIdentifier_name, hpairs,
    Header.lexemes, List.append_assoc]

/-! ### The tokens -/

/-- The parts of a header, by their kinds: neighbours differ. -/
def DifferInKind (fs : List (Kind × String)) : Prop := fs.IsChain fun f g => f.1 ≠ g.1

theorem differInKind_parameter {f : Kind × String} {x : Parameter} {rest : List (Kind × String)}
    (hf : f.1 ≠ .parameterName) (hrest : DifferInKind ((.builtinType, x.type) :: rest)) :
    DifferInKind (f :: (x.lexemes ++ rest)) := by
  unfold DifferInKind at hrest ⊢
  by_cases hspaces : x.spaces = 0
  · simpa [Parameter.lexemes, hspaces, hf] using hrest
  · simpa [Parameter.lexemes, hspaces, hf] using hrest

theorem differInKind_parameters {f : Kind × String} (hname : f.1 ≠ .parameterName)
    (hclose : f.1 ≠ .closeParen) (xs : List Parameter) :
    DifferInKind (f :: ([(.punctuation, ", ")].intercalate (xs.map Parameter.lexemes) ++
      [(.closeParen, ")")])) := by
  induction xs generalizing f with
  | nil => exact .cons_cons hclose (.singleton _)
  | cons x xs ih =>
    cases xs with
    | nil =>
      rw [List.map_singleton, List.intercalate_singleton]
      exact differInKind_parameter hname (.cons_cons (by simp) (.singleton _))
    | cons y ys =>
      rw [List.map_cons, List.map_cons, List.intercalate_cons_cons, List.append_assoc,
        List.append_assoc]
      refine differInKind_parameter hname (.cons_cons (by simp) ?_)
      exact ih (by simp) (by simp)

theorem differInKind_lexemes (h : Header) : DifferInKind h.lexemes := by
  have hrest := differInKind_parameters (f := (.openParen, "(")) (by simp) (by simp) h.parameters
  exact .cons_cons (by simp) (.cons_cons (by simp) (.cons_cons (by simp) hrest))

/-- **A function header is read back**, for any number of parameters: its parts are the tokens,
and the next line begins outside of the parameters. -/
theorem scanLine_header {v : Vocabulary} (hv : v.Valid) : ∃ t, table v = .ok t ∧
    ∀ h : Header, h.WellFormed v.types →
      ∃ l, t.scanLine h.written .start = .ok l ∧ l.pairs = h.lexemes ∧ l.endState = .start := by
  refine ⟨_, table_eq hv, ?_⟩
  intro h hh
  obtain ⟨ps, hyields, hpairs⟩ := exists_yields_header hv hh
  have hkinds := differInKind_lexemes h
  rw [← hpairs] at hkinds ⊢
  exact hyields.exists_pairs hkinds

theorem scanLine_header_builtin : Vocabulary.builtin.Valid ∧
    Header.WellFormed Vocabulary.builtin.types ⟨2, "if", [⟨"y$", 1, "Int"⟩, ⟨"return", 0, "Bool"⟩]⟩ ∧
    ∃ t l, table .builtin = .ok t ∧
      t.scanLine "def  if(y$: Int, return:Bool)" .start = .ok l ∧
      l.pairs = [(.keyword, "def"), (.whitespace, "  "), (.functionName, "if"), (.openParen, "("),
        (.parameterName, "y$"), (.punctuation, ":"), (.whitespace, " "), (.builtinType, "Int"),
        (.punctuation, ", "), (.parameterName, "return"), (.punctuation, ":"),
        (.builtinType, "Bool"), (.closeParen, ")")] ∧
      l.endState = .start := by
  have hheader : Header.WellFormed Vocabulary.builtin.types
      ⟨2, "if", [⟨"y$", 1, "Int"⟩, ⟨"return", 0, "Bool"⟩]⟩ := by
    refine ⟨by decide, by decide, ?_⟩
    intro x hx
    simp only [List.mem_cons, List.not_mem_nil, or_false] at hx
    rcases hx with rfl | rfl
    · exact ⟨by decide, by decide, by decide⟩
    · exact ⟨by decide, by decide, by decide⟩
  obtain ⟨t, ht, hscan⟩ := scanLine_header Vocabulary.valid_builtin
  obtain ⟨l, hl, hpairs, hend⟩ := hscan _ hheader
  exact ⟨Vocabulary.valid_builtin, hheader, t, l, ht, hl, hpairs, hend⟩

end EncryScript

end LineLexer
