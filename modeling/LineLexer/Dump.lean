import LineLexer.Json.Writer
import LineLexer.Text.Quoted
import LineLexer.Token

/-!
# Dumps

Lines are dumped for people and for programs.  For people a token is dumped as its scope, its
quoted text and its span, one token a line; the state after the line follows, and every line of a
text has a heading with its number.  For programs lines are a JSON array of objects with the number
of the line, its tokens and the state after it.
-/

namespace LineLexer

/-! ### Dumps for people -/

/-- The dump of a token. -/
def Token.dump (t : Token) : String :=
  t.kind.scope ++ "(" ++ quoted t.text ++ ") @ " ++ toString t.span.start ++ ".." ++
    toString t.span.stop

/-- The dump of a line. -/
def ScannedLine.dump (l : ScannedLine) : String :=
  String.intercalate "\n" (l.tokens.map Token.dump ++ ["=> " ++ l.endState.name])

/-- The dump of lines, numbered from one. -/
def dumpText (ls : List ScannedLine) : String :=
  String.intercalate "\n" (ls.mapIdx fun i l =>
    "--- line " ++ toString (i + 1) ++ " ---\n" ++ l.dump)

/-! ### Dumps for programs -/

/-- A span as JSON. -/
def Span.toJson (s : Span) : Json := .object [("start", .number s.start), ("end", .number s.stop)]

/-- A token as JSON. -/
def Token.toJson (t : Token) : Json :=
  .object [("kind", .string t.kind.name), ("text", .string t.text), ("span", t.span.toJson)]

/-- A line with its number as JSON. -/
def ScannedLine.toJson (number : Nat) (l : ScannedLine) : Json :=
  .object [("line", .number number), ("tokens", .array (l.tokens.map Token.toJson)),
    ("end_state", .string l.endState.name)]

/-- The dump of lines, numbered from one. -/
def dumpJson (ls : List ScannedLine) : String :=
  (Json.array (ls.mapIdx fun i l => l.toJson (i + 1))).pretty

end LineLexer
