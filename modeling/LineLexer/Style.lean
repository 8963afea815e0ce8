import LineLexer.Token

/-!
# Styles

How tokens look on a terminal.  A styled text stands between an opening sequence and a reset;
since a reset inside the text would end the style, the opening sequence follows it again.
-/

namespace LineLexer

/-- A color of a terminal. -/
inductive Color where
  | red
  | green
  | yellow
  | blue
  | magenta
  | cyan
  | brightGreen
  | brightBlue
  | brightMagenta
  | brightCyan
  deriving DecidableEq

namespace Color

/-- The name of the color. -/
def name : Color → String
  | .red => "Red"
  | .green => "Green"
  | .yellow => "Yellow"
  | .blue => "Blue"
  | .magenta => "Magenta"
  | .cyan => "Cyan"
  | .brightGreen => "BrightGreen"
  | .brightBlue => "BrightBlue"
  | .brightMagenta => "BrightMagenta"
  | .brightCyan => "BrightCyan"

/-- The code that selects the color. -/
def code : Color → String
  | .red => "31"
  | .green => "32"
  | .yellow => "33"
  | .blue => "34"
  | .magenta => "35"
  | .cyan => "36"
  | .brightGreen => "92"
  | .brightBlue => "94"
  | .brightMagenta => "95"
  | .brightCyan => "96"

end Color

/-- How a text looks. -/
structure Style where
  bold : Bool := false
  dimmed : Bool := false
  color : Option Color := none
  deriving DecidableEq

namespace Style

/-- The text looks as it is. -/
def isPlain (s : Style) : Bool := !s.bold && !s.dimmed && s.color.isNone

/-- The codes of the style, in the order in which they are written. -/
def codes (s : Style) : List String :=
  (if s.bold then ["1"] else []) ++ (if s.dimmed then ["2"] else []) ++
    (s.color.map Color.code).toList

/-- The sequence that begins the style. -/
def opening (s : Style) : List Char := ("\x1b[" ++ String.intercalate ";" s.codes ++ "m").toList

/-- The sequence that ends every style. -/
def reset : List Char := ['\x1b', '[', '0', 'm']

/-- A text with `opening` after every reset in it. -/
def resume (opening : List Char) : List Char → List Char
  | '\x1b' :: '[' :: '0' :: 'm' :: cs => reset ++ opening ++ resume opening cs
  | c :: cs => c :: resume opening cs
  | [] => []

/-- `text` in the style, or as it is if `colors` are off. -/
def paint (s : Style) (colors : Bool) (text : String) : String :=
  if !colors || s.isPlain then text
  else String.ofList (s.opening ++ resume s.opening text.toList ++ reset)

end Style

namespace Kind

/-- The color of the kind and whether it is bold; the other kinds are left as they are. -/
def style? : Kind → Option (Color × Bool)
  | .keyword | .controlKeyword => some (.magenta, true)
  | .storageDeclaration => some (.brightMagenta, true)
  | .operator => some (.magenta, false)
  | .builtinFunction | .functionName => some (.blue, false)
  | .builtinType => some (.cyan, false)
  | .builtinConstant | .numeric => some (.yellow, false)
  | .builtinStructure | .libraryRoot | .memberAccessLeft => some (.brightCyan, false)
  | .memberAccessRight => some (.brightBlue, false)
  | .string => some (.green, false)
  | .escape => some (.brightGreen, true)
  | .variable | .parameterName => some (.red, false)
  | .identifier | .punctuation | .openParen | .closeParen | .whitespace | .text | .empty => none

/-- The style of the kind. -/
def style (k : Kind) : Style :=
  match k.style? with
  | some (color, bold) => { bold := bold, color := some color }
  | none => {}

end Kind

namespace ScannedLine

/-- The line with every token in the style of its kind. -/
def paint (l : ScannedLine) (colors : Bool) : String :=
  String.join (l.tokens.map fun t => t.kind.style.paint colors t.text)

end ScannedLine

end LineLexer
