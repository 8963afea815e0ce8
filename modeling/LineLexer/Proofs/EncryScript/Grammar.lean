import Mathlib.Control.Monad.Basic
import LineLexer.EncryScript
import LineLexer.Proofs.Pattern.Reading

/-!
# The rules of EncryScript, read

`Grammar.rules` gives the rules of every state with their patterns as syntax trees, and
`Grammar.read_texts` says that these are the rules that the pattern texts describe.  One pattern
depends on the vocabulary, that of a parameter with its type (`Grammar.read_typedParameter`).
-/

namespace LineLexer

deriving instance DecidableEq for Rule

namespace EncryScript

namespace Grammar

/-! ### Characters -/

/-- One of the characters in the ranges. -/
def inRanges (ranges : List (Char × Char)) : Pattern :=
  .set ⟨ranges.map fun (lo, hi) => .range lo hi, false, false⟩

/-- One of the characters. -/
def anyOf (cs : List Char) : Pattern := inRanges (cs.map fun c => (c, c))

/-- A decimal digit. -/
def digit : Pattern := inRanges [('0', '9')]

/-- A hexadecimal digit. -/
def hexDigit : Pattern := inRanges [('0', '9'), ('A', 'F'), ('a', 'f')]

/-- A character that an identifier begins with. -/
def identifierStart : Pattern := inRanges [('a', 'z'), ('A', 'Z'), ('$', '$'), ('_', '_')]

/-- A character of an identifier. -/
def identifierChar : Pattern :=
  inRanges [('a', 'z'), ('A', 'Z'), ('0', '9'), ('$', '$'), ('_', '_')]

/-- A blank character. -/
def blank : Pattern := .set ⟨[.property .blank false], false, false⟩

/-- Any character. -/
def anyChar : Pattern := .set .all

/-! ### Lexemes -/

/-- The parts of an identifier. -/
def identifier : List Pattern := [identifierStart, .star true identifierChar]

/-- The edge of a word. -/
def wordEdge : Pattern := .look .asciiWordEdge

/-- One digit or more. -/
def digits : Pattern := .plus true digit

/-- A number with a point. -/
def float : Pattern :=
  .alt (.concat [.opt true digits, .concat [.char '.', digits]]) (.concat [digits, .char '.'])

/-- An integer without a suffix. -/
def integer : Pattern :=
  .choice (.alt (.concat [inRanges [('1', '9')], .star true digit]) (.char '0'))
    [.concat [.char '0', anyOf ['x', 'X'], .plus true hexDigit],
     .concat [.char '0', anyOf ['b', 'B'], .plus true (anyOf ['0', '1'])]]

/-- An escape in a string. -/
def escape : Pattern :=
  .concat [.char '\\', .choice (.concat [.char 'x', .times hexDigit 2])
    [.times (inRanges [('0', '7')]) 3,
     anyOf ['\\', 'a', 'b', 'f', 'n', 'r', 't', 'v', '\'', '"'],
     .concat [.char 'U', .times hexDigit 8], .concat [.char 'u', .times hexDigit 4]]]

/-- The operators, the preferred first. -/
def operators : List String :=
  ["//", "<<", ">>", "<=", "=>", "==", "!=", "<>", "+", "-", "*", "/", "%", "&", "|", "^", "~",
   "<", ">", "="]

/-- The names of the types, the preferred first. -/
def typeNames (v : Vocabulary) : List (List Char) := Vocabulary.longerFirst (v.types.map String.toList)

/-- A parameter with its type. -/
def typedParameter (names : List (List Char)) : Pattern :=
  .concat [.group 1 (.concat identifier), .group 2 (.char ':'), .group 3 (.star true (.char ' ')),
    .group 4 (.oneOf names), wordEdge]

/-! ### Rules -/

/-- The rule of a text with its patterns, bound to the start of the text. -/
def anchored (text : RuleText) (p : Pattern) (ahead : Option Pattern) : Rule :=
  ⟨text, .seq (.look .textStart) p, ahead.map (.seq (.look .textStart))⟩

/-- The rules of texts with their patterns. -/
def anchoredAll (texts : List RuleText) (ps : List (Pattern × Option Pattern)) : List Rule :=
  (texts.zip ps).map fun (text, p, ahead) => anchored text p ahead

/-- The patterns outside of strings and parameters. -/
def startPatterns : List (Pattern × Option Pattern) := [
  (.char '"', some (.set .notLineFeed)),
  (.char '\'', some (.set .notLineFeed)),
  (float, none),
  (.concat [integer, anyOf ['l', 'L'], wordEdge], none),
  (.concat [.group 1 (.word ['l', 'e', 't']), .group 2 (.plus true (.char ' ')),
    .group 3 (.concat identifier), wordEdge], none),
  (.concat [.group 1 (.concat identifier), .group 2 (.char '.'), .group 3 (.concat identifier)],
    none),
  (.concat [.group 1 (.word ['d', 'e', 'f']), .group 2 (.plus true (.char ' ')),
    .group 3 (.concat identifier), .group 4 (.char '(')], none),
  (.concat identifier, some (.char '(')),
  (.concat [integer, wordEdge], none),
  (.concat (identifier ++ [wordEdge]), none),
  (.word ['-', '>'], none),
  (.oneOf (operators.map String.toList), none),
  (anyOf ['[', '(', '\x7b'], none),
  (anyOf [']', ')', '\x7d'], none),
  (.plus true blank, none),
  (.look .textEnd, none),
  (anyChar, none)]

/-- The patterns of a string. -/
def stringPatterns (quote : Char) : List (Pattern × Option Pattern) := [
  (escape, none),
  (.concat [.char '\\', .look .textEnd], none),
  (.alt (.char quote) (.look .textEnd), none),
  (anyChar, none)]

/-- The patterns of the parameters of a function. -/
def parameterPatterns (v : Vocabulary) : List (Pattern × Option Pattern) := [
  (typedParameter (typeNames v), none),
  (.plus true (anyOf [',', ' ', ':']), none),
  (.look .textEnd, none),
  (.empty, none)]

/-- The patterns of every state. -/
def patterns (v : Vocabulary) : State → List (Pattern × Option Pattern)
  | .start => startPatterns
  | .doubleQuotedString => stringPatterns '"'
  | .quotedString => stringPatterns '\''
  | .functionArguments => parameterPatterns v

/-- The rules of every state as they are declared. -/
def texts (v : Vocabulary) : State → List RuleText
  | .start => startRules
  | .doubleQuotedString => stringRules '"' .doubleQuotedString
  | .quotedString => stringRules '\'' .quotedString
  | .functionArguments => parameterRules v

/-- The rules of every state with their patterns. -/
def rules (v : Vocabulary) (state : State) : List Rule :=
  anchoredAll (texts v state) (patterns v state)

/-- The rule for a parameter with its type. -/
def typedParameterRule (v : Vocabulary) : RuleText :=
  .perGroup [.parameterName, .punctuation, .whitespace, .builtinType]
    ("(" ++ EncryScript.identifier ++ ")(:)( *)(" ++ String.ofList v.typesPattern ++ ")" ++
      wordEnd)

/-- The same rule with its pattern. -/
def typedParameterRead (v : Vocabulary) : Rule :=
  anchored (typedParameterRule v) (typedParameter (typeNames v)) none

/-! ### What depends on the vocabulary -/

theorem texts_eq (v : Vocabulary) {state : State} (h : state ≠ .functionArguments) :
    texts v state = texts .builtin state := by
  cases state
  case functionArguments => exact absurd rfl h
  all_goals rfl

theorem rules_eq (v : Vocabulary) {state : State} (h : state ≠ .functionArguments) :
    rules v state = rules .builtin state := by
  cases state
  case functionArguments => exact absurd rfl h
  all_goals rfl

theorem rules_functionArguments (v : Vocabulary) :
    rules v .functionArguments =
      typedParameterRead v :: (rules .builtin .functionArguments).tail := rfl

/-- Every rule but the one for typed parameters is the same over all vocabularies. -/
theorem mem_rules {v : Vocabulary} {state : State} {r : Rule} (h : r ∈ rules v state) :
    r ∈ rules .builtin state ∨ state = .functionArguments ∧ r = typedParameterRead v := by
  by_cases hstate : state = .functionArguments
  · subst hstate
    rw [rules_functionArguments] at h
    rcases List.mem_cons.1 h with rfl | h
    · exact .inr ⟨rfl, rfl⟩
    · exact .inl (List.mem_of_mem_tail h)
  · rw [rules_eq v hstate] at h
    exact .inl h

/-! ### Reading the text of a typed parameter -/

open PatternItem

/-- The items in front of the names of the types. -/
def parameterFront : List PatternItem := [
  .look .textStart, .opening false none [],
  .opening true none [], .set [.range 'a' 'z', .range 'A' 'Z', .range '$' '$', .range '_' '_'] false,
  .set [.range 'a' 'z', .range 'A' 'Z', .range '0' '9', .range '$' '$', .range '_' '_'] false,
  .count 0 none true, .closing,
  .opening true none [], .literal ':', .closing,
  .opening true none [], .literal ' ', .count 0 none true, .closing,
  .opening true none []]

/-- The items after them. -/
def parameterBack : List PatternItem :=
  [.closing, .opening false none [(.unicode, false)], .look .wordEdge, .closing, .closing]

/-- What has been read in front of the names of the types. -/
def parameterReader : PatternReader where
  flags := {}
  groupCount := 4
  names := []
  inner := { index := some 4, outerFlags := {} }
  outer := [
    { index := none, outerFlags := {}, repeatable := true
      parts := [.group 3 (.star true (.char ' ')), .group 2 (.char ':'),
        .group 1 (.concat identifier)] },
    { index := none, outerFlags := {}, repeatable := true, parts := [.look .textStart] }]

theorem readSet_identifierStart (rest : List Char) :
    readSet ("a-zA-Z$_]".toList ++ rest) =
      .ok (.set [.range 'a' 'z', .range 'A' 'Z', .range '$' '$', .range '_' '_'] false, rest) := by
  have h : readMembers ("a-zA-Z$_]".toList ++ rest) =
      .ok ([.range 'a' 'z', .range 'A' 'Z', .range '$' '$', .range '_' '_'], rest) := by
    simp only [String.reduceToList, List.cons_append, List.nil_append]
    rw [readMembers_of_readRange (by decide) rfl rfl, readMembers_of_readRange (by decide) rfl rfl,
      readMembers_of_readRange (by decide) rfl rfl, readMembers_of_readRange (by decide) rfl rfl,
      readMembers]
    rfl
  exact congrArg (Except.map _) h

theorem readSet_identifierChar (rest : List Char) :
    readSet ("a-zA-Z0-9$_]".toList ++ rest) =
      .ok (.set [.range 'a' 'z', .range 'A' 'Z', .range '0' '9', .range '$' '$', .range '_' '_']
        false, rest) := by
  have h : readMembers ("a-zA-Z0-9$_]".toList ++ rest) =
      .ok ([.range 'a' 'z', .range 'A' 'Z', .range '0' '9', .range '$' '$', .range '_' '_'],
        rest) := by
    simp only [String.reduceToList, List.cons_append, List.nil_append]
    rw [readMembers_of_readRange (by decide) rfl rfl, readMembers_of_readRange (by decide) rfl rfl,
      readMembers_of_readRange (by decide) rfl rfl, readMembers_of_readRange (by decide) rfl rfl,
      readMembers_of_readRange (by decide) rfl rfl, readMembers]
    rfl
  exact congrArg (Except.map _) h

theorem begins_parameterFront {rest : List Char} (h : rest.head? ≠ some '?') :
    Begins ("\\A(?:([a-zA-Z$_][a-zA-Z0-9$_]*)(:)( *)(".toList ++ rest) parameterFront rest := by
  -- a literal text is not a list of characters to unification before it is written out
  simp only [String.reduceToList, List.cons_append, List.nil_append]
  refine .cons rfl <| .cons rfl <| .cons rfl <| .cons (readSet_identifierStart _) <|
    .cons (readSet_identifierChar _) <| .cons rfl <| .cons rfl <| .cons rfl <| .cons rfl <|
    .cons rfl <| .cons rfl <| .cons rfl <| .cons rfl <| .cons rfl <|
    .cons (readOpening_of_head?_ne h) <| .refl rest

theorem items_parameterBack : items ")(?-u:\\b))".toList = .ok parameterBack := by decide +kernel

theorem framed_typedParameter (names : List Char) :
    Rule.framed ("(" ++ EncryScript.identifier ++ ")(:)( *)(" ++ String.ofList names ++ ")" ++
      wordEnd) =
      "\\A(?:([a-zA-Z$_][a-zA-Z0-9$_]*)(:)( *)(".toList ++ (names ++ ")(?-u:\\b))".toList) := by
  simp only [Rule.framed, String.toList_append, String.toList_ofList, List.append_assoc]
  rfl

/-- **The names of the types stand in the typed parameter as they are**, longer ones first. -/
theorem read_typedParameter (v : Vocabulary) :
    Pattern.ofText (Rule.framed ("(" ++ EncryScript.identifier ++ ")(:)( *)(" ++
      String.ofList v.typesPattern ++ ")" ++ wordEnd)) =
      .ok (.seq (.look .textStart) (typedParameter (typeNames v))) := by
  have hitems : items (Rule.framed ("(" ++ EncryScript.identifier ++ ")(:)( *)(" ++
      String.ofList v.typesPattern ++ ")" ++ wordEnd)) =
      .ok (parameterFront ++ (choiceItems (typeNames v) ++ parameterBack)) := by
    rw [framed_typedParameter]
    have hhead : ")(?-u:\\b))".toList.head? ≠ some '?' := by simp
    have htypes := begins_choice (typeNames v) ")(?-u:\\b))".toList
    have hfront := begins_parameterFront (head?_choice_ne (typeNames v) hhead)
    exact hfront.items_eq (htypes.items_eq items_parameterBack)
  obtain ⟨g, hindex, hflags, hbody, hfold⟩ := PatternReader.exists_foldlM_choiceItems
    (r := parameterReader) rfl rfl rfl (typeNames v)
  have hfront : (parameterFront ++ (choiceItems (typeNames v) ++ parameterBack)).foldlM
      PatternReader.step .initial =
      (choiceItems (typeNames v) ++ parameterBack).foldlM PatternReader.step parameterReader := rfl
  rw [Pattern.ofText, hitems]
  simp only [bind, Except.bind]
  rw [hfront, hfold, typedParameter, ← hbody]
  -- the fourth group is still open and its body is known, so what is left to read is fixed
  obtain ⟨index, outerFlags, alternatives, parts, repeatable⟩ := g
  obtain rfl := hindex
  obtain rfl := hflags
  rfl

theorem groupCount_typedParameter (names : List (List Char)) :
    (typedParameter names).groupCount = 4 := by
  simp only [typedParameter, Pattern.concat, Pattern.groupCount, Pattern.groupCount_oneOf]
  rfl

theorem ofText_typedParameterRule (v : Vocabulary) :
    Rule.ofText .functionArguments (typedParameterRule v) =
      .ok (typedParameterRead v) := by
  have hread : Rule.readPattern .functionArguments (typedParameterRule v).pattern =
      .ok (.seq (.look .textStart) (typedParameter (typeNames v))) := by
    rw [Rule.readPattern]
    simp only [typedParameterRule, RuleText.perGroup, read_typedParameter]
  have hgroups : Rule.checkGroups .functionArguments (typedParameterRule v)
      (Pattern.seq (.look .textStart) (typedParameter (typeNames v))).groupCount = .ok () := by
    rw [Pattern.groupCount, groupCount_typedParameter]
    rfl
  rw [Rule.ofText, hread]
  simp only [bind, Except.bind]
  rw [show (typedParameterRule v).ahead = none from rfl, Option.mapM_none]
  simp only [pure, Except.pure, hgroups]
  rfl

theorem read_parameterRules_tail :
    (parameterRules .builtin).tail.mapM (Rule.ofText .functionArguments) =
      .ok (rules .builtin .functionArguments).tail := by
  decide +kernel

theorem read_parameterRules (v : Vocabulary) :
    (parameterRules v).mapM (Rule.ofText .functionArguments) =
      .ok (rules v .functionArguments) := by
  -- only the first rule depends on the vocabulary
  have htexts : parameterRules v = typedParameterRule v :: (parameterRules .builtin).tail := rfl
  rw [rules_functionArguments, htexts, List.mapM_cons, ofText_typedParameterRule,
    read_parameterRules_tail]
  rfl

/-- **The patterns are those that the texts of the rules describe.** -/
theorem read_texts (v : Vocabulary) (state : State) :
    (texts v state).mapM (Rule.ofText state) = .ok (rules v state) := by
  by_cases hstate : state = .functionArguments
  · subst hstate
    exact read_parameterRules v
  · have hfixed : ∀ s ∈ State.all, s ≠ .functionArguments →
        (texts .builtin s).mapM (Rule.ofText s) = .ok (rules .builtin s) := by decide +kernel
    rw [texts_eq v hstate, rules_eq v hstate]
    exact hfixed state state.mem_all hstate

end Grammar

end EncryScript

end LineLexer
