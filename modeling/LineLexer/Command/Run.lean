import LineLexer.Command.Arguments
import LineLexer.Command.Session
import LineLexer.Dump
import LineLexer.EncryScript

/-!
# Running the program

`run` gives what the program prints and its exit code as a function of its arguments, the files
it can read and the lines typed in.
-/

namespace LineLexer

/-- Why a task fails. -/
inductive TaskFault where
  /-- The rule table cannot be set up. -/
  | setup (e : Error)
  /-- The source file cannot be read. -/
  | source (path : String) (fault : FileFault)
  /-- The lines typed in cannot be read. -/
  | input (fault : FileFault)
  /-- A line cannot be scanned. -/
  | scan (fault : ScanFault)
  deriving DecidableEq

namespace TaskFault

/-- The fault in words, followed by what caused it. -/
def message : TaskFault → String
  | .setup (.table e) => (Error.table e).message ++ ": " ++ e.message
  | .setup e => e.message
  | .source path fault => "Failed to read source file: " ++ quoted path ++ ": " ++ fault.message
  | .input fault => fault.message
  | .scan fault => fault.message

end TaskFault

/-- What a run of the program leaves behind. -/
structure Outcome where
  code : Nat
  stdout : String := ""
  stderr : String := ""
  deriving DecidableEq

namespace Outcome

/-- The outcome of a failed task that has printed `stdout`. -/
def failed (colors : Bool) (stdout : String) (fault : TaskFault) : Outcome :=
  { code := 1
    stdout := stdout
    stderr := ({ bold := true, color := some .red } : Style).paint colors "error" ++ ": " ++
      fault.message ++ "\n" }

end Outcome

/-- The name of the program and its version. -/
def versionText : String := "encryscript-highlight 0.1.0\n"

/-- How the program is used. -/
def usageText : String :=
  "Usage: encryscript-highlight [OPTIONS] <COMMAND>\n\n" ++
  "Commands:\n" ++
  "  highlight FILE [--show-states]      Print a source file with terminal colors\n" ++
  "  tokens FILE [--format text|json]    Dump the classified tokens of a source file\n" ++
  "  repl                                Tokenize lines interactively\n\n" ++
  "Options:\n" ++
  "  -v, --verbose          Enable verbose output\n" ++
  "      --vocabulary FILE  JSON file overriding the built-in word lists\n" ++
  "      --state NAME       State the first line starts in\n" ++
  "  -h, --help             Print help\n" ++
  "  -V, --version          Print version\n"

/-- The outcome of arguments that ask for no task. -/
def Refusal.outcome : Refusal → Outcome
  | .usage => { code := 2, stderr := usageText }
  | .help => { code := 0, stdout := usageText }
  | .version => { code := 0, stdout := versionText }

namespace Invocation

/-- The rule table of the invocation. -/
def table (files : Files) (i : Invocation) : Except TaskFault Table :=
  match i.vocabulary with
  | none => (EncryScript.builtinTable).mapError fun e => .setup (.table e)
  | some path =>
    match Vocabulary.ofFile files path with
    | .error e => .error (.setup e)
    | .ok v => (EncryScript.table v).mapError fun e => .setup (.table e)

end Invocation

/-- The lines of a source file, classified. -/
def scanFile (files : Files) (t : Table) (state : State) (path : String) :
    Except TaskFault (List ScannedLine) :=
  match files path with
  | .error fault => .error (.source path fault)
  | .ok text => (t.scanText text state).mapError .scan

/-- What stands before a line that is shown with its number and the state after it. -/
def stateMargin (colors : Bool) (number : Nat) (state : State) : String :=
  let dim (cs : List Char) : String :=
    ({ dimmed := true } : Style).paint colors (String.ofList cs)
  dim (List.leftpad 4 ' ' (Nat.toDigits 10 number)) ++ " " ++
    dim (List.rightpad 22 ' ' state.name.toList) ++ " "

/-- Lines as `highlight` prints them. -/
def highlightText (colors showStates : Bool) (ls : List ScannedLine) : String :=
  String.join (ls.mapIdx fun i l =>
    (if showStates then stateMargin colors (i + 1) l.endState else "") ++ l.paint colors ++ "\n")

/-- Lines as `tokens` prints them. -/
def tokensText (format : DumpFormat) (ls : List ScannedLine) : String :=
  (match format with
    | .text => dumpText ls
    | .json => dumpJson ls) ++ "\n"

/-- Runs a task. -/
def Invocation.run (files : Files) (input : List (Except FileFault String)) (colors : Bool)
    (i : Invocation) : Outcome :=
  let printed (result : Except TaskFault String) : Outcome :=
    match result with
    | .ok out => { code := 0, stdout := out }
    | .error fault => .failed colors "" fault
  match i.table files, i.task with
  | .error fault, _ => .failed colors "" fault
  | .ok t, .highlight path showStates =>
    printed ((scanFile files t i.state path).map (highlightText colors showStates))
  | .ok t, .tokens path format =>
    printed ((scanFile files t i.state path).map (tokensText format))
  | .ok t, .session =>
    let (out, fault) := ({ state := i.state } : Session).run t colors input
    let out := Session.banner colors ++ out
    match fault with
    | none => { code := 0, stdout := out }
    | some (.input fault) => .failed colors out (.input fault)
    | some (.scan fault) => .failed colors out (.scan fault)

/-- Runs the program. -/
def run (files : Files) (input : List (Except FileFault String)) (colors : Bool)
    (args : List String) : Outcome :=
  match readArguments args with
  | .error refusal => refusal.outcome
  | .ok i => i.run files input colors

end LineLexer
