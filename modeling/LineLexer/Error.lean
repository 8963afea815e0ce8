import LineLexer.State
import LineLexer.Vocabulary

/-!
# Errors

What can go wrong before a line is scanned: a rule table that cannot be built, a setting that
cannot be used, a line that is not there, a file that cannot be read.
-/

namespace LineLexer

/-- Why a rule table cannot be built. -/
inductive TableError where
  | emptyList (list : WordClass)
  | badWord (list : WordClass) (word : String)
  | badPattern (state : State) (pattern detail : String)
  | groupCountMismatch (state : State) (pattern : String) (groups kinds : Nat)
  | noRules (state : State)
  | noFallback (state : State)
  | uncoveredLineEnd (state : State)
  deriving DecidableEq

namespace TableError

/-- The error in words. -/
def message : TableError → String
  | .emptyList list => "vocabulary list '" ++ list.name ++ "' is empty"
  | .badWord list word =>
    "vocabulary list '" ++ list.name ++ "' contains '" ++ word ++ "', which is not an identifier"
  | .badPattern state pattern detail =>
    "invalid pattern /" ++ pattern ++ "/ in state '" ++ state.name ++ "': " ++ detail
  | .groupCountMismatch state pattern groups kinds =>
    "pattern /" ++ pattern ++ "/ in state '" ++ state.name ++ "' has " ++ toString groups ++
      " capture groups but " ++ toString kinds ++ " classifications"
  | .noRules state => "state '" ++ state.name ++ "' has no rules"
  | .noFallback state =>
    "state '" ++ state.name ++ "' has no fallback rule covering arbitrary input"
  | .uncoveredLineEnd state => "no rule in state '" ++ state.name ++ "' matches at end of line"

end TableError

/-- An error of the highlighter. -/
inductive Error where
  | table (e : TableError)
  | config (text : String)
  | lineOutOfRange (line len : Nat)
  | io (text : String)
  deriving DecidableEq

namespace Error

/-- The error in words. -/
def message : Error → String
  | .table e => "rule table construction failed: " ++ e.message
  | .config text => "configuration error: " ++ text
  | .lineOutOfRange line len =>
    "line " ++ toString line ++ " is out of range (document has " ++ toString len ++ " lines)"
  | .io text => "file operation failed: " ++ text

/-- The error with a note in front of what came from outside; other errors stay. -/
def withContext (note : String) : Error → Error
  | .config text => .config (note ++ ": " ++ text)
  | .io text => .io (note ++ ": " ++ text)
  | e => e

end Error

namespace State

/-- The state with the given name; there may be none. -/
def ofName (text : String) : Except Error State :=
  match ofName? text with
  | some s => .ok s
  | none => .error (.config ("unknown scanner state '" ++ text ++ "'"))

end State

end LineLexer
