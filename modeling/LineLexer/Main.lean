import LineLexer.Command.Run

/-!
# The program

Reads the files that the arguments name, and prints what `run` says.  A session answers each
line as soon as it is typed in.
-/

namespace LineLexer

/-- Reads a file. -/
def readFile (path : String) : IO (Except FileFault String) := do
  try
    return textOfBytes (← IO.FS.readBinFile path)
  catch
    | .noFileOrDirectory .. => return .error .notFound
    | .inappropriateType .. => return .error .isDirectory
    | e => return .error (.refused (toString e))

/-- Reads the files that an invocation names. -/
def readFiles (i : Invocation) : IO Files := do
  let source := match i.task with
    | .highlight path _ | .tokens path _ => [path]
    | .session => []
  let contents ← (i.vocabulary.toList ++ source).mapM fun path => return (path, ← readFile path)
  return fun path => (contents.lookup path).getD (.error .notFound)

/-- Prints an outcome and gives its exit code. -/
def report (o : Outcome) : IO UInt32 := do
  IO.print o.stdout
  IO.eprint o.stderr
  return o.code.toUInt32

/-- Reads bytes up to a line feed or the end of the input, after those in `line`. -/
partial def readByteLine (input : IO.FS.Stream) (line : ByteArray) : IO ByteArray := do
  let byte ← input.read 1
  if byte.isEmpty then return line
  else if byte.toList == [0x0a] then return line ++ byte
  else readByteLine input (line ++ byte)

/-- Answers typed lines until the session or the input ends. -/
partial def converse (t : Table) (colors : Bool) (s : Session) : IO UInt32 := do
  IO.print s.prompt
  (← IO.getStdout).flush
  let bytes ← readByteLine (← IO.getStdin) .empty
  match textOfBytes bytes with
  | .error fault => report (.failed colors "" (.input fault))
  | .ok "" => report { code := 0, stdout := Session.farewell }
  | .ok typed =>
    match s.answer t colors typed with
    | .error fault => report (.failed colors "" (.scan fault))
    | .ok (out, none) => report { code := 0, stdout := out }
    | .ok (out, some s) =>
      IO.print out
      converse t colors s

end LineLexer

open LineLexer in
/-- Runs the program on its arguments. -/
def main (args : List String) : IO UInt32 := do
  let colors ← (← IO.getStdout).isTty
  match readArguments args with
  | .error refusal => report refusal.outcome
  | .ok i =>
    let files ← readFiles i
    match i.task, i.table files with
    | .session, .ok t =>
      IO.print (Session.banner colors)
      converse t colors { state := i.state }
    | _, _ => report (i.run files [] colors)
