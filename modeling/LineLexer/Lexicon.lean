import LineLexer.Error

/-!
# Looking words up

A lexicon maps each word of a vocabulary to one kind, by the first class in
`WordClass.byPriority` that lists the word.  Only a valid vocabulary has a lexicon.
-/

namespace LineLexer

namespace Vocabulary

/-- The error in one list: it must not be empty and hold identifiers only. -/
def checkWords (v : Vocabulary) (c : WordClass) : Except TableError Unit :=
  if (v.words c).isEmpty then .error (.emptyList c)
  else
    match (v.words c).find? fun w => !isIdentifier w with
    | some w => .error (.badWord c w)
    | none => .ok ()

/-- Checks every list; the first error in the order of priority is given. -/
def validate (v : Vocabulary) : Except TableError Unit := WordClass.byPriority.forM v.checkWords

/-- Every list is filled, and filled with identifiers. -/
def Valid (v : Vocabulary) : Prop := v.validate = .ok ()

end Vocabulary

/-- A map from words to kinds, in the order in which the words were added. -/
structure Lexicon where
  entries : List (String × Kind)
  deriving DecidableEq

namespace Lexicon

/-- The lexicon without words. -/
def empty : Lexicon := ⟨[]⟩

/-- The lexicon with one more word, unless it already has the word. -/
def add (l : Lexicon) (word : String) (kind : Kind) : Lexicon :=
  if l.entries.any fun e => e.1 == word then l else ⟨l.entries ++ [(word, kind)]⟩

/-- The lexicon with the words of one class. -/
def addClass (v : Vocabulary) (l : Lexicon) (c : WordClass) : Lexicon :=
  (v.words c).foldl (fun l w => l.add w c.kind) l

/-- The lexicon of a vocabulary. -/
def ofVocabulary (v : Vocabulary) : Except TableError Lexicon := do
  v.validate
  return WordClass.byPriority.foldl (addClass v) empty

/-- The kind of a word; a word that is not listed is a plain identifier. -/
def kindOf (l : Lexicon) (word : String) : Kind := (l.entries.lookup word).getD .identifier

/-- The number of words. -/
def size (l : Lexicon) : Nat := l.entries.length

/-- There are no words. -/
def isEmpty (l : Lexicon) : Bool := l.entries.isEmpty

end Lexicon

end LineLexer
