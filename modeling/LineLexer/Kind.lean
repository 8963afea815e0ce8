/-!
# Kinds of tokens

Every stretch of a line has one kind.  The name of a kind is its written form; its scope is the
hierarchical style name under which tokens are shown, and two kinds share one.
-/

namespace LineLexer

/-- What a token is. -/
inductive Kind where
  | keyword
  | controlKeyword
  | builtinFunction
  | builtinType
  | builtinConstant
  | builtinStructure
  | libraryRoot
  | identifier
  | string
  | numeric
  | escape
  | operator
  | openParen
  | closeParen
  | punctuation
  | storageDeclaration
  | variable
  | functionName
  | parameterName
  | memberAccessLeft
  | memberAccessRight
  | whitespace
  | text
  | empty
  deriving DecidableEq

namespace Kind

/-- All kinds. -/
def all : List Kind :=
  [.keyword, .controlKeyword, .builtinFunction, .builtinType, .builtinConstant,
   .builtinStructure, .libraryRoot, .identifier, .string, .numeric, .escape, .operator,
   .openParen, .closeParen, .punctuation, .storageDeclaration, .variable, .functionName,
   .parameterName, .memberAccessLeft, .memberAccessRight, .whitespace, .text, .empty]

theorem mem_all (k : Kind) : k ∈ all := by cases k <;> decide

/-- The name of the kind. -/
def name : Kind → String
  | .keyword => "keyword"
  | .controlKeyword => "control-keyword"
  | .builtinFunction => "builtin-function"
  | .builtinType => "builtin-type"
  | .builtinConstant => "builtin-constant"
  | .builtinStructure => "builtin-structure"
  | .libraryRoot => "library-root"
  | .identifier => "identifier"
  | .string => "string"
  | .numeric => "numeric"
  | .escape => "escape"
  | .operator => "operator"
  | .openParen => "open-paren"
  | .closeParen => "close-paren"
  | .punctuation => "punctuation"
  | .storageDeclaration => "storage-declaration"
  | .variable => "variable"
  | .functionName => "function-name"
  | .parameterName => "parameter-name"
  | .memberAccessLeft => "member-access-left"
  | .memberAccessRight => "member-access-right"
  | .whitespace => "whitespace"
  | .text => "text"
  | .empty => "empty"

/-- The kind with the given name. -/
def ofName? (text : String) : Option Kind := all.find? fun k => k.name == text

/-- The scope under which tokens of the kind are shown. -/
def scope : Kind → String
  | .keyword => "keyword"
  | .controlKeyword => "keyword.control"
  | .builtinFunction => "function.buildin"
  | .builtinType => "support.type"
  | .builtinConstant => "constant.language"
  | .builtinStructure => "constant.library"
  | .libraryRoot => "support.constant.library"
  | .identifier => "identifier"
  | .string => "string"
  | .numeric => "constant.numeric"
  | .escape => "constant.language.escape"
  | .operator => "keyword.operator"
  | .openParen => "paren.lparen"
  | .closeParen => "paren.rparen"
  | .punctuation => "punctuation.operator"
  | .storageDeclaration => "storage.type"
  | .variable => "variable"
  | .functionName => "support.function"
  | .parameterName => "variable.parameter"
  | .memberAccessLeft => "entity.name.section"
  | .memberAccessRight => "entity.other"
  | .whitespace | .text => "text"
  | .empty => "empty"

end Kind

end LineLexer
