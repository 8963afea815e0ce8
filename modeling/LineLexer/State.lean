/-!
# Line states

The state is all that a line needs to know about the lines before it: a string or the
parameters of a function may go on from one line to the next.
-/

namespace LineLexer

/-- What a line begins in, and what the next line begins in after it. -/
inductive State where
  | start
  | doubleQuotedString
  | quotedString
  | functionArguments
  deriving DecidableEq

namespace State

/-- The state that the first line begins in. -/
def initial : State := .start

/-- All states. -/
def all : List State := [.start, .doubleQuotedString, .quotedString, .functionArguments]

theorem mem_all (s : State) : s ∈ all := by cases s <;> decide

/-- The name of the state, which is also its written form. -/
def name : State → String
  | .start => "start"
  | .doubleQuotedString => "double-quoted-string"
  | .quotedString => "quoted-string"
  | .functionArguments => "function-arguments"

/-- The state with the given name. -/
def ofName? (text : String) : Option State := all.find? fun s => s.name == text

theorem ofName?_name (s : State) : ofName? s.name = some s := by cases s <;> decide

end State

end LineLexer
