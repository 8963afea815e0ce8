import LineLexer.Kind
import LineLexer.Pattern.Reader
import LineLexer.Text.Basic

/-!
# Vocabularies

A vocabulary is seven lists of words with a meaning of their own.  A word may stand in several
lists; `WordClass.byPriority` says which of them counts.
-/

namespace LineLexer

/-- One of the lists of a vocabulary. -/
inductive WordClass where
  | keywords
  | controlKeywords
  | constants
  | functions
  | types
  | libraryRoots
  | structures
  deriving DecidableEq

namespace WordClass

/-- The classes in the order in which a vocabulary lists them. -/
def all : List WordClass :=
  [.keywords, .controlKeywords, .constants, .functions, .types, .libraryRoots, .structures]

/-- The classes in the order in which a word is looked up. -/
def byPriority : List WordClass :=
  [.structures, .functions, .types, .constants, .controlKeywords, .keywords, .libraryRoots]

/-- The name of the list. -/
def name : WordClass → String
  | .keywords => "keywords"
  | .controlKeywords => "control_keywords"
  | .constants => "builtin_constants"
  | .functions => "builtin_functions"
  | .types => "builtin_types"
  | .libraryRoots => "library_roots"
  | .structures => "builtin_structures"

/-- The list with the given name. -/
def ofName? (text : String) : Option WordClass := all.find? fun c => c.name == text

/-- The kind of the words in the list. -/
def kind : WordClass → Kind
  | .keywords => .keyword
  | .controlKeywords => .controlKeyword
  | .constants => .builtinConstant
  | .functions => .builtinFunction
  | .types => .builtinType
  | .libraryRoots => .libraryRoot
  | .structures => .builtinStructure

end WordClass

/-- The word lists. -/
structure Vocabulary where
  keywords : List String
  controlKeywords : List String
  constants : List String
  functions : List String
  types : List String
  libraryRoots : List String
  structures : List String
  deriving DecidableEq

/-- A character that an identifier can begin with. -/
def isIdentifierStart (c : Char) : Bool := c.isAlpha || c == '$' || c == '_'

/-- A character that can stand in an identifier. -/
def isIdentifierChar (c : Char) : Bool := c.isAlphanum || c == '$' || c == '_'

/-- A letter, a dollar sign or an underscore, followed by any number of these and digits. -/
def isIdentifier (word : String) : Bool :=
  match word.toList with
  | [] => false
  | c :: cs => isIdentifierStart c && cs.all isIdentifierChar

namespace Vocabulary

/-- The words of one class. -/
def words (v : Vocabulary) : WordClass → List String
  | .keywords => v.keywords
  | .controlKeywords => v.controlKeywords
  | .constants => v.constants
  | .functions => v.functions
  | .types => v.types
  | .libraryRoots => v.libraryRoots
  | .structures => v.structures

/-- The vocabulary with other words for one class. -/
def setWords (v : Vocabulary) (ws : List String) : WordClass → Vocabulary
  | .keywords => { v with keywords := ws }
  | .controlKeywords => { v with controlKeywords := ws }
  | .constants => { v with constants := ws }
  | .functions => { v with functions := ws }
  | .types => { v with types := ws }
  | .libraryRoots => { v with libraryRoots := ws }
  | .structures => { v with structures := ws }

theorem words_setWords (v : Vocabulary) (ws : List String) (c d : WordClass) :
    (v.setWords ws c).words d = if d = c then ws else v.words d := by
  cases c <;> cases d <;> rfl

/-- The built-in words of EncryScript. -/
def builtin : Vocabulary where
  keywords := ["and", "or", "case", "match", "return", "if", "else", "unlock"]
  controlKeywords := ["return"]
  constants := ["true", "false", "base58"]
  functions := ["checkSig", "checkType", "pkFromAddress", "unixTime"]
  types := ["Any", "Bool", "String", "Bytes", "Long", "Int", "Float", "Double", "Dict", "List",
    "Option"]
  libraryRoots := ["context", "state", "proof"]
  structures := ["context", "reference"]

/-- Puts a word in front of the first word that is not longer. -/
def insertByLength (w : List Char) : List (List Char) → List (List Char)
  | [] => [w]
  | x :: xs => if byteSize x ≤ byteSize w then w :: x :: xs else x :: insertByLength w xs

/-- The words with longer words first; words of one length keep their order. -/
def longerFirst : List (List Char) → List (List Char)
  | [] => []
  | w :: ws => insertByLength w (longerFirst ws)

/-- The pattern text of the type names.  Longer names stand first, so that a name is not taken
for a shorter one that it begins with. -/
def typesPattern (v : Vocabulary) : List Char :=
  let names := longerFirst (v.types.map String.toList)
  ((names.map Pattern.escape).intersperse ['|']).flatten

end Vocabulary

end LineLexer
