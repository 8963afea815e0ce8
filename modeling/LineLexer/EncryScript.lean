import LineLexer.Table

/-!
# The rules of EncryScript

The pattern texts of the language and the rules of its four states.  Within a state the first
rule that matches wins, so a rule stands before those that would take a part of its matches: a
fraction before an integer, an arrow before the minus sign.
-/

namespace LineLexer

namespace EncryScript

/-! ### Pattern texts -/

/-- A decimal, hexadecimal or binary integer. -/
def integer : String := "(?:(?:[1-9][0-9]*|0)|(?:0[xX][0-9A-Fa-f]+)|(?:0[bB][01]+))"

/-- A number with a point and digits on at least one side of it. -/
def float : String := "(?:(?:[0-9]+)?(?:\\.[0-9]+)|(?:[0-9]+)\\.)"

/-- An identifier. -/
def identifier : String := "[a-zA-Z$_][a-zA-Z0-9$_]*"

/-- The edge of a word; letters beyond ASCII do not belong to words here. -/
def wordEnd : String := "(?-u:\\b)"

/-- An escape in a string. -/
def stringEscape : String :=
  "\\\\(?:x[0-9A-Fa-f]\x7b2\x7d|[0-7]\x7b3\x7d|[\\\\abfnrtv'\"]" ++
    "|U[0-9A-Fa-f]\x7b8\x7d|u[0-9A-Fa-f]\x7b4\x7d)"

/-- An operator. -/
def operator : String := "//|<<|>>|<=|=>|==|!=|<>|\\+|-|\\*|/|%|&|\\||\\^|~|<|>|="

/-! ### Rules -/

/-- The rules outside of strings and parameters. -/
def startRules : List RuleText := [
  .followedBy (.goto (.single .string "\"") .doubleQuotedString) ".",
  .followedBy (.goto (.single .string "'") .quotedString) ".",
  .single .numeric float,
  .single .numeric (integer ++ "[lL]" ++ wordEnd),
  .perGroup [.storageDeclaration, .whitespace, .variable]
    ("(let)( +)(" ++ identifier ++ ")" ++ wordEnd),
  .perGroup [.memberAccessLeft, .punctuation, .memberAccessRight]
    ("(" ++ identifier ++ ")(\\.)(" ++ identifier ++ ")"),
  .goto (.perGroup [.keyword, .whitespace, .functionName, .openParen]
    ("(def)( +)(" ++ identifier ++ ")(\\()")) .functionArguments,
  .followedBy (.single .functionName identifier) "\\(",
  .single .numeric (integer ++ wordEnd),
  .word (identifier ++ wordEnd),
  .single .keyword "->",
  .single .operator operator,
  .single .openParen "[\\[(\x7b]",
  .single .closeParen "[\\])\x7d]",
  .single .whitespace "\\s+",
  .single .empty "$",
  .asFallback (.single .text "(?s).")]

/-- The rules of a string between the quotes `quote`, scanned in `state`.  A backslash at the
end of the line keeps the string open. -/
def stringRules (quote : Char) (state : State) : List RuleText := [
  .single .escape stringEscape,
  .endLine (.goto (.single .string "\\\\$") state),
  .goto (.single .string (String.ofList (Pattern.escape [quote]) ++ "|$")) .start,
  .asFallback (.single .string "(?s).")]

/-- The rules between the parentheses of a function header.  Whatever does not belong there
leaves them without being consumed. -/
def parameterRules (v : Vocabulary) : List RuleText := [
  .perGroup [.parameterName, .punctuation, .whitespace, .builtinType]
    ("(" ++ identifier ++ ")(:)( *)(" ++ String.ofList v.typesPattern ++ ")" ++ wordEnd),
  .single .punctuation "[, :]+",
  .single .punctuation "$",
  .asFallback (.goto (.single .empty "") .start)]

/-- The draft of the rule table over a vocabulary. -/
def draft (v : Vocabulary) : TableDraft :=
  TableDraft.new v
    |>.add .start startRules
    |>.add .doubleQuotedString (stringRules '"' .doubleQuotedString)
    |>.add .quotedString (stringRules '\'' .quotedString)
    |>.add .functionArguments (parameterRules v)

/-- The rule table over a vocabulary. -/
def table (v : Vocabulary) : Except TableError Table := do
  v.validate
  (draft v).build

/-- The rule table over the built-in words. -/
def builtinTable : Except TableError Table := table .builtin

end EncryScript

end LineLexer
