import LineLexer.Dump
import LineLexer.File
import LineLexer.Scan
import LineLexer.Style
import LineLexer.Text.Basic

/-!
# Interactive sessions

In a session lines are classified as they are typed in, each in the state that the line before
it ended in.  A few commands steer the session; everything else is a line.
-/

namespace LineLexer

/-- What a typed line asks for. -/
inductive SessionCommand where
  | quit
  | help
  | reset
  deriving DecidableEq

namespace SessionCommand

/-- The command that a line gives, whatever white space stands around it. -/
def ofLine? (line : String) : Option SessionCommand :=
  match trimBlanks line with
  | ":quit" | ":q" => some .quit
  | ":help" | ":h" => some .help
  | ":reset" | ":r" => some .reset
  | _ => none

end SessionCommand

/-- The state of a session between two lines. -/
structure Session where
  state : State
  /-- The number of the next line. -/
  number : Nat := 1
  deriving DecidableEq

namespace Session

/-- What is printed at the start of a session. -/
def banner (colors : Bool) : String :=
  ({ bold := true } : Style).paint colors "EncryScript highlighter REPL" ++
    "\nType ':quit' or ':q' to exit, ':help' for help\n\n"

/-- What is printed on `:help`. -/
def helpText : String :=
  "REPL commands:\n" ++
  "  :quit, :q    Exit the REPL\n" ++
  "  :help, :h    Show this help message\n" ++
  "  :reset, :r   Go back to the start state\n" ++
  "\nEvery other line is tokenized in the current state.\n"

/-- What is printed before a line is typed in. -/
def prompt (s : Session) : String :=
  s.state.name ++ ":" ++ String.ofList (List.leftpad 3 '0' (Nat.toDigits 10 s.number)) ++ "> "

/-- What is printed when there is no further line. -/
def farewell : String := "\n"

/-- The answer to a typed line, and the session after it unless the line ends it. -/
def answer (t : Table) (colors : Bool) (s : Session) (typed : String) :
    Except ScanFault (String × Option Session) :=
  let line := trimLineEnd typed
  match SessionCommand.ofLine? line with
  | some .quit => .ok ("Goodbye!\n", none)
  | some .help => .ok (helpText, some s)
  | some .reset => .ok ("", some { s with state := .initial })
  | none => do
    let l ← t.scanLine line s.state
    return (l.paint colors ++ "\n" ++ l.dump ++ "\n",
      some { state := l.endState, number := s.number + 1 })

/-- How a session is cut short. -/
inductive Fault where
  | input (fault : FileFault)
  | scan (fault : ScanFault)
  deriving DecidableEq

/-- Everything a session prints after its banner, and how it was cut short if it was. -/
def run (t : Table) (colors : Bool) (s : Session) :
    List (Except FileFault String) → String × Option Fault
  | [] => (s.prompt ++ farewell, none)
  | .error fault :: _ => (s.prompt, some (.input fault))
  | .ok typed :: lines =>
    match s.answer t colors typed with
    | .error fault => (s.prompt, some (.scan fault))
    | .ok (out, none) => (s.prompt ++ out, none)
    | .ok (out, some s') =>
      let (more, fault) := s'.run t colors lines
      (s.prompt ++ out ++ more, fault)

end Session

end LineLexer
