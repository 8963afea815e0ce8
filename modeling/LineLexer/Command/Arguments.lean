import LineLexer.State

/-!
# Command line arguments

`readArguments` reads the arguments of the program: a task with its operand, and options.  The
options `--vocabulary`, `--state` and `--verbose` may stand before the name of the task or
after it; what is given after it counts.
-/

namespace LineLexer

/-- The form of a token dump. -/
inductive DumpFormat where
  | text
  | json
  deriving DecidableEq

/-- What the program is asked to do. -/
inductive Task where
  /-- Print a file in colors, perhaps with the number of each line and the state after it. -/
  | highlight (path : String) (showStates : Bool)
  /-- Dump the tokens of a file. -/
  | tokens (path : String) (format : DumpFormat)
  /-- Classify lines as they are typed in. -/
  | session
  deriving DecidableEq

/-- A task with its settings. -/
structure Invocation where
  /-- The file to read the vocabulary from, instead of the built-in words. -/
  vocabulary : Option String
  /-- The state that the first line begins in. -/
  state : State
  task : Task
  deriving DecidableEq

/-- Why no task is run. -/
inductive Refusal where
  /-- The arguments are wrong. -/
  | usage
  /-- The usage is asked for. -/
  | help
  /-- The version is asked for. -/
  | version
  deriving DecidableEq

/-! ### Options -/

/-- The place of an argument: before the name of the task, or after it. -/
inductive ArgumentScope where
  | top
  | highlight
  | tokens
  | session
  deriving DecidableEq

namespace ArgumentScope

/-- The scope after the name of a task. -/
def ofTask? : String → Option ArgumentScope
  | "highlight" => some .highlight
  | "tokens" => some .tokens
  | "repl" => some .session
  | _ => none

/-- The number of operands in the scope. -/
def operandCount : ArgumentScope → Nat
  | .top | .session => 0
  | .highlight | .tokens => 1

end ArgumentScope

/-- An option. -/
inductive CommandOption where
  | verbose
  | vocabulary
  | state
  | showStates
  | format
  | help
  | version
  deriving DecidableEq

namespace CommandOption

/-- The option with the given long name. -/
def ofName? : String → Option CommandOption
  | "verbose" => some .verbose
  | "vocabulary" => some .vocabulary
  | "state" => some .state
  | "show-states" => some .showStates
  | "format" => some .format
  | "help" => some .help
  | "version" => some .version
  | _ => none

/-- The option with the given letter. -/
def ofLetter? : Char → Option CommandOption
  | 'v' => some .verbose
  | 'h' => some .help
  | 'V' => some .version
  | _ => none

/-- The option may stand in the scope. -/
def allowedIn : CommandOption → ArgumentScope → Bool
  | .verbose, _ | .vocabulary, _ | .state, _ | .help, _ => true
  | .showStates, s => s == .highlight
  | .format, s => s == .tokens
  | .version, s => s == .top

/-- The option has a value. -/
def takesValue : CommandOption → Bool
  | .vocabulary | .state | .format => true
  | .verbose | .showStates | .help | .version => false

end CommandOption

/-- The options and operands read so far in one scope. -/
structure GivenArguments where
  verbose : Bool := false
  vocabulary : Option String := none
  state : Option State := none
  showStates : Bool := false
  format : Option DumpFormat := none
  operands : List String := []
  deriving DecidableEq

namespace GivenArguments

/-- With an option that has no value; it must not be given twice. -/
def setFlag (g : GivenArguments) : CommandOption → Except Refusal GivenArguments
  | .verbose => if g.verbose then .error .usage else .ok { g with verbose := true }
  | .showStates => if g.showStates then .error .usage else .ok { g with showStates := true }
  | .help => .error .help
  | .version => .error .version
  | .vocabulary | .state | .format => .error .usage

/-- With an option and its value, which is not empty; it must not be given twice. -/
def setValue (g : GivenArguments) (o : CommandOption) (value : String) :
    Except Refusal GivenArguments :=
  match o with
  | .vocabulary =>
    if g.vocabulary.isSome || value.isEmpty then .error .usage
    else .ok { g with vocabulary := some value }
  | .state =>
    match g.state, State.ofName? value with
    | none, some s => .ok { g with state := some s }
    | _, _ => .error .usage
  | .format =>
    match g.format, value with
    | none, "text" => .ok { g with format := some .text }
    | none, "json" => .ok { g with format := some .json }
    | _, _ => .error .usage
  | .verbose | .showStates | .help | .version => .error .usage

/-- With one more operand, if the scope has a place for it. -/
def addOperand (scope : ArgumentScope) (g : GivenArguments) (operand : String) :
    Except Refusal GivenArguments :=
  if operand.isEmpty || g.operands.length ≥ scope.operandCount then .error .usage
  else .ok { g with operands := g.operands ++ [operand] }

/-- With the options that a cluster of letters stands for. -/
def setLetters (scope : ArgumentScope) (g : GivenArguments) (letters : List Char) :
    Except Refusal GivenArguments :=
  letters.foldlM (fun g letter =>
    match CommandOption.ofLetter? letter with
    | some o => if o.allowedIn scope then g.setFlag o else .error .usage
    | none => .error .usage) g

end GivenArguments

/-! ### Arguments -/

/-- What an argument looks like. -/
inductive ArgumentShape where
  | operand
  /-- Two hyphens: only operands follow. -/
  | separator
  | letters (cs : List Char)
  | long (name : String) (value : Option String)
  deriving DecidableEq

namespace ArgumentShape

/-- The shape of an argument. -/
def ofText (arg : String) : ArgumentShape :=
  match arg.toList with
  | ['-', '-'] => .separator
  | '-' :: '-' :: cs =>
    let name := String.ofList (cs.takeWhile (· != '='))
    match cs.dropWhile (· != '=') with
    | _ :: value => .long name (some (String.ofList value))
    | [] => .long name none
  | '-' :: c :: cs => .letters (c :: cs)
  | _ => .operand

end ArgumentShape

/-- The task of a scope with what was given in it, and before it in `outer`. -/
def invocation (scope : ArgumentScope) (outer g : GivenArguments) : Except Refusal Invocation :=
  let run (task : Task) : Except Refusal Invocation :=
    .ok { vocabulary := g.vocabulary.or outer.vocabulary
          state := (g.state.or outer.state).getD .initial
          task := task }
  match scope, g.operands with
  | .highlight, [path] => run (.highlight path g.showStates)
  | .tokens, [path] => run (.tokens path (g.format.getD .text))
  | .session, [] => run .session
  | _, _ => .error .usage

/-- Reads arguments in a scope; `g` was given in it so far, and `outer` before it. -/
def readArgumentsIn (scope : ArgumentScope) (outer g : GivenArguments) :
    List String → Except Refusal Invocation
  | [] => invocation scope outer g
  | arg :: args =>
    match ArgumentShape.ofText arg with
    | .operand =>
      if scope = .top then
        match ArgumentScope.ofTask? arg with
        | some task => readArgumentsIn task g {} args
        | none => .error .usage
      else
        match g.addOperand scope arg with
        | .ok g => readArgumentsIn scope outer g args
        | .error refusal => .error refusal
    | .separator =>
      match args.foldlM (GivenArguments.addOperand scope) g with
      | .ok g => invocation scope outer g
      | .error refusal => .error refusal
    | .letters cs =>
      match g.setLetters scope cs with
      | .ok g => readArgumentsIn scope outer g args
      | .error refusal => .error refusal
    | .long name value =>
      match CommandOption.ofName? name with
      | none => .error .usage
      | some o =>
        if !o.allowedIn scope then .error .usage
        else
          match o.takesValue, value, args with
          | false, none, args =>
            match g.setFlag o with
            | .ok g => readArgumentsIn scope outer g args
            | .error refusal => .error refusal
          | true, some value, args =>
            match g.setValue o value with
            | .ok g => readArgumentsIn scope outer g args
            | .error refusal => .error refusal
          | true, none, value :: args =>
            if ArgumentShape.ofText value = .operand then
              match g.setValue o value with
              | .ok g => readArgumentsIn scope outer g args
              | .error refusal => .error refusal
            else .error .usage
          | _, _, _ => .error .usage

/-- Reads the arguments of the program. -/
def readArguments (args : List String) : Except Refusal Invocation :=
  readArgumentsIn .top {} {} args

end LineLexer
