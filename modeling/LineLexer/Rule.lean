import LineLexer.Error
import LineLexer.Pattern.Search

/-!
# Rules

A rule says what to do where its pattern matches: how the match becomes tokens, which state
comes next, and whether the line ends there.  `RuleText` is a rule as it is declared, with its
patterns as texts; `Rule` is the same rule with the patterns read.

A pattern is read in the frame `\A(?:…)`, so that it is tried at the start of the text only.
-/

namespace LineLexer

/-- How a match becomes tokens. -/
inductive Classification where
  /-- The match is one token. -/
  | single (kind : Kind)
  /-- Every capture group is a token, with its own kind. -/
  | perGroup (kinds : List Kind)
  /-- The match is a word to look up in the lexicon. -/
  | word
  deriving DecidableEq

/-- A rule as it is declared. -/
structure RuleText where
  pattern : String
  /-- What must follow the match without being part of it. -/
  ahead : Option String := none
  classification : Classification
  /-- The state after the match; the state stays if there is none. -/
  next : Option State := none
  /-- Nothing more of the line is scanned after the match. -/
  endsLine : Bool := false
  /-- The rule is meant to cover what no other rule does. -/
  fallback : Bool := false
  deriving DecidableEq

namespace RuleText

/-- A rule for tokens of one kind. -/
def single (kind : Kind) (pattern : String) : RuleText :=
  { pattern := pattern, classification := .single kind }

/-- A rule with a kind for each capture group. -/
def perGroup (kinds : List Kind) (pattern : String) : RuleText :=
  { pattern := pattern, classification := .perGroup kinds }

/-- A rule for words. -/
def word (pattern : String) : RuleText := { pattern := pattern, classification := .word }

/-- The rule, wanted only where `pattern` follows. -/
def followedBy (r : RuleText) (pattern : String) : RuleText := { r with ahead := some pattern }

/-- The rule, leading to a state. -/
def goto (r : RuleText) (state : State) : RuleText := { r with next := some state }

/-- The rule, ending the line. -/
def endLine (r : RuleText) : RuleText := { r with endsLine := true }

/-- The rule as a fallback. -/
def asFallback (r : RuleText) : RuleText := { r with fallback := true }

end RuleText

/-- A rule with its patterns read. -/
structure Rule where
  text : RuleText
  pattern : Pattern
  ahead : Option Pattern

namespace Rule

/-- The text of a pattern in the frame that binds it to the start of the text. -/
def framed (pattern : String) : List Char := "\\A(?:".toList ++ pattern.toList ++ [')']

/-- Reads a pattern of a rule of `state`. -/
def readPattern (state : State) (pattern : String) : Except TableError Pattern :=
  match Pattern.ofText (framed pattern) with
  | .ok p => .ok p
  | .error e => .error (.badPattern state pattern e.message)

/-- Checks that every capture group has a kind, if kinds are given by group. -/
def checkGroups (state : State) (text : RuleText) (groups : Nat) : Except TableError Unit :=
  match text.classification with
  | .perGroup kinds =>
    if groups = kinds.length then .ok ()
    else .error (.groupCountMismatch state text.pattern groups kinds.length)
  | _ => .ok ()

/-- Reads the patterns of a rule of `state`. -/
def ofText (state : State) (text : RuleText) : Except TableError Rule := do
  let pattern ← readPattern state text.pattern
  let ahead ← text.ahead.mapM (readPattern state)
  checkGroups state text pattern.groupCount
  return { text := text, pattern := pattern, ahead := ahead }

/-- The match of the rule in `rest`, if what has to follow it does. -/
def matchAt (r : Rule) (rest : List Char) : Option Match :=
  match r.pattern.find? rest with
  | none => none
  | some m =>
    match r.ahead with
    | none => some m
    | some ahead => if (ahead.find? (rest.drop m.stop)).isSome then some m else none

end Rule

end LineLexer
