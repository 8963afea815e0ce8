import LineLexer.Json.Writer
import LineLexer.Text.Basic

/-!
# The grammar of JSON texts

`Json.IsText v cs` says that the text `cs` is written by the rules of JSON and stands for the value
`v`.  The rules are strict: white space between tokens only, no comma after the last item, no
control character in a string, and no superfluous zero in front of a number.  A text has one value
at most, but a value many texts: white space and the escapes of characters are free.
-/

namespace LineLexer

namespace Json

/-- White space that can stand between the tokens of a text. -/
def IsGap (cs : List Char) : Prop := ∀ c ∈ cs, c ∈ [' ', '\t', '\n', '\r']

instance (cs : List Char) : Decidable (IsGap cs) := List.decidableBAll _ cs

/-! ### Strings -/

/-- The letters of the short escapes, and the characters that they stand for. -/
def shortEscapes : List (Char × Char) :=
  [('"', '"'), ('\\', '\\'), ('/', '/'), ('b', '\x08'), ('f', '\x0c'), ('n', '\n'), ('r', '\r'),
   ('t', '\t')]

/-- The texts of a character in a string: itself, a short escape, its code point in four
hexadecimal digits, or the two halves of a surrogate pair. -/
inductive CharText (c : Char) : List Char → Prop
  | plain (hc : 0x20 ≤ c.toNat) (hquote : c ≠ '"') (hslash : c ≠ '\\') : CharText c [c]
  | short {e : Char} (h : (e, c) ∈ shortEscapes) : CharText c ['\\', e]
  | code {x y z w : Char} (h : hexNumber? [x, y, z, w] = some c.toNat) :
      CharText c ['\\', 'u', x, y, z, w]
  | pair {x y z w x' y' z' w' : Char} {high low : Nat} (hh : hexNumber? [x, y, z, w] = some high)
      (hl : hexNumber? [x', y', z', w'] = some low) (hhigh : 0xd800 ≤ high ∧ high < 0xdc00)
      (hlow : 0xdc00 ≤ low ∧ low < 0xe000)
      (hc : c.toNat = 0x10000 + (high - 0xd800) * 0x400 + (low - 0xdc00)) :
      CharText c ['\\', 'u', x, y, z, w, '\\', 'u', x', y', z', w']

/-- The texts of the characters of a string, one after the other. -/
inductive CharsText : List Char → List Char → Prop
  | nil : CharsText [] []
  | cons {c : Char} {cs text texts : List Char} (h : CharText c text) (hs : CharsText cs texts) :
      CharsText (c :: cs) (text ++ texts)

/-- The texts of a string: the texts of its characters between quotes. -/
def StringText (s : String) (text : List Char) : Prop :=
  ∃ inner, CharsText s.toList inner ∧ text = '"' :: (inner ++ ['"'])

/-! ### Values -/

/-- What a stretch of a text can stand for.  An element is a value with white space around it; the
elements of an array, and the members of an object, are one or more. -/
inductive Part where
  | value (v : Json)
  | element (v : Json)
  | elements (vs : List Json)
  | member (k : String) (v : Json)
  | members (ms : List (String × Json))

/-- The texts of the parts. -/
inductive Written : Part → List Char → Prop
  | null : Written (.value .null) ['n', 'u', 'l', 'l']
  | true : Written (.value (.bool true)) ['t', 'r', 'u', 'e']
  | false : Written (.value (.bool false)) ['f', 'a', 'l', 's', 'e']
  | number (n : Nat) : Written (.value (.number n)) (Nat.toDigits 10 n)
  | string {s : String} {text : List Char} (h : StringText s text) :
      Written (.value (.string s)) text
  | emptyArray {gap : List Char} (h : IsGap gap) :
      Written (.value (.array [])) ('[' :: (gap ++ [']']))
  | array {vs : List Json} {text : List Char} (h : Written (.elements vs) text) :
      Written (.value (.array vs)) ('[' :: (text ++ [']']))
  | emptyObject {gap : List Char} (h : IsGap gap) :
      Written (.value (.object [])) ('\x7b' :: (gap ++ ['\x7d']))
  | object {ms : List (String × Json)} {text : List Char} (h : Written (.members ms) text) :
      Written (.value (.object ms)) ('\x7b' :: (text ++ ['\x7d']))
  | element {v : Json} {before text after : List Char} (hbefore : IsGap before)
      (h : Written (.value v) text) (hafter : IsGap after) :
      Written (.element v) (before ++ (text ++ after))
  | lastElement {v : Json} {text : List Char} (h : Written (.element v) text) :
      Written (.elements [v]) text
  | elements {v : Json} {vs : List Json} {text texts : List Char} (h : Written (.element v) text)
      (hs : Written (.elements vs) texts) : Written (.elements (v :: vs)) (text ++ ',' :: texts)
  | member {k : String} {v : Json} {before key after text : List Char} (hbefore : IsGap before)
      (hkey : StringText k key) (hafter : IsGap after) (h : Written (.element v) text) :
      Written (.member k v) (before ++ (key ++ (after ++ ':' :: text)))
  | lastMember {k : String} {v : Json} {text : List Char} (h : Written (.member k v) text) :
      Written (.members [(k, v)]) text
  | members {k : String} {v : Json} {ms : List (String × Json)} {text texts : List Char}
      (h : Written (.member k v) text) (hs : Written (.members ms) texts) :
      Written (.members ((k, v) :: ms)) (text ++ ',' :: texts)

/-- The text stands for the value. -/
def IsText (v : Json) (text : List Char) : Prop := Written (.element v) text

end Json

end LineLexer
