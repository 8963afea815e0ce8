import LineLexer.Json.Reader
import LineLexer.Lexicon

/-!
# Vocabularies as JSON

A vocabulary is written as an object whose members are some of the word lists, by name, or as
an array of lists in the order of `WordClass.all`.  A list that is left out keeps the built-in
words.  Nothing else is accepted: no unknown name, no name twice, no further list.
-/

namespace LineLexer

namespace Vocabulary

/-- The words of a list. -/
def wordsOfJson? : Json → Option (List String)
  | .array items => items.mapM fun
    | .string s => some s
    | _ => none
  | _ => none

/-- The vocabulary with the lists of the members; `seen` are the classes that had theirs. -/
def setMembers? (v : Vocabulary) (seen : List WordClass) :
    List (String × Json) → Option Vocabulary
  | [] => some v
  | (name, list) :: ms => do
    let c ← WordClass.ofName? name
    if seen.contains c then none
    let ws ← wordsOfJson? list
    setMembers? (v.setWords ws c) (c :: seen) ms

/-- The vocabulary with the lists of the items, for the classes in turn. -/
def setItems? (v : Vocabulary) : List WordClass → List Json → Option Vocabulary
  | _, [] => some v
  | [], _ :: _ => none
  | c :: cs, list :: lists => do
    let ws ← wordsOfJson? list
    setItems? (v.setWords ws c) cs lists

/-- The vocabulary that a JSON value writes; its words are not checked. -/
def ofJson? : Json → Option Vocabulary
  | .object members => builtin.setMembers? [] members
  | .array items => builtin.setItems? WordClass.all items
  | _ => none

/-- The vocabulary that a text writes; its words are not checked. -/
def decode (text : String) : Except Error Vocabulary :=
  match Json.ofText? text with
  | none => .error (.config "not a JSON text")
  | some json =>
    match ofJson? json with
    | none => .error (.config "not a vocabulary")
    | some v => .ok v

/-- The vocabulary, if its words are valid. -/
def checked (v : Vocabulary) : Except Error Vocabulary :=
  match v.validate with
  | .ok () => .ok v
  | .error e => .error (.table e)

/-- The valid vocabulary that a text writes. -/
def ofText (text : String) : Except Error Vocabulary := do (← decode text).checked

end Vocabulary

end LineLexer
