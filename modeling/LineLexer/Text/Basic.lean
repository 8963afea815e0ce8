import LineLexer.Text.CharClass

/-!
# Texts

Offsets in a line count the bytes of its UTF-8 form, while the text itself is worked on as a
list of characters.  `byteSize` is the bridge between the two.

Two splittings into lines are in use.  `lineTexts` gives the lines of a finished text: a final line
feed ends the last line and begins no new one, and a carriage return is dropped only where a line
feed follows it.  `bufferLines` gives the lines of an edit buffer: every line feed separates
two lines, so there is always at least one, and each line loses one carriage return at its end.
A typed line is stripped of all that ends it (`trimLineEnd`).
-/

namespace LineLexer

/-! ### Sizes in bytes -/

/-- The number of bytes in the UTF-8 form of a text. -/
def byteSize : List Char → Nat
  | [] => 0
  | c :: cs => c.utf8Size + byteSize cs

@[simp] theorem byteSize_nil : byteSize [] = 0 := rfl

@[simp] theorem byteSize_cons (c : Char) (cs : List Char) :
    byteSize (c :: cs) = c.utf8Size + byteSize cs := rfl

@[simp] theorem byteSize_append (xs ys : List Char) :
    byteSize (xs ++ ys) = byteSize xs + byteSize ys := by
  induction xs with
  | nil => simp
  | cons c cs ih => simp [ih, Nat.add_assoc]

/-! ### Hexadecimal numbers -/

/-- The value of a hexadecimal digit. -/
def hexDigit? (c : Char) : Option Nat :=
  if '0' ≤ c && c ≤ '9' then some (c.toNat - '0'.toNat)
  else if 'a' ≤ c && c ≤ 'f' then some (c.toNat - 'a'.toNat + 10)
  else if 'A' ≤ c && c ≤ 'F' then some (c.toNat - 'A'.toNat + 10)
  else none

/-- The number that hexadecimal digits write; there is at least one. -/
def hexNumber? (ds : List Char) : Option Nat :=
  if ds.isEmpty then none
  else ds.foldlM (fun n d => (hexDigit? d).map (16 * n + ·)) 0

/-! ### Lines -/

/-- The parts of a text between its line feeds; there is always at least one. -/
def splitLineFeeds : List Char → List (List Char)
  | [] => [[]]
  | c :: cs =>
    if c = '\n' then [] :: splitLineFeeds cs
    else match splitLineFeeds cs with
      | [] => [[c]]
      | l :: ls => (c :: l) :: ls

/-- A line without the carriage return that it may end in. -/
def dropFinalReturn (cs : List Char) : List Char :=
  if cs.getLast? = some '\r' then cs.dropLast else cs

/-- The lines of a finished text.  The part after the last line feed is a line only if it is
not empty, and then keeps a carriage return. -/
def lineTexts (text : List Char) : List (List Char) :=
  let parts := splitLineFeeds text
  parts.dropLast.map dropFinalReturn ++ (parts.getLast?.toList.filter fun l => !l.isEmpty)

/-- The lines of an edit buffer. -/
def bufferLines (text : List Char) : List (List Char) :=
  (splitLineFeeds text).map dropFinalReturn

/-- The lines of `text`, as `lineTexts` splits it. -/
def lines (text : String) : List String := (lineTexts text.toList).map String.ofList

/-! ### Trimming -/

/-- A text without its last characters that satisfy `p`. -/
def dropWhileEnd (p : Char → Bool) (cs : List Char) : List Char :=
  (cs.reverse.dropWhile p).reverse

/-- A text without white space at its ends. -/
def trimBlanks (s : String) : String :=
  String.ofList (dropWhileEnd isBlank (s.toList.dropWhile isBlank))

/-- A line without the line feeds and carriage returns at its end. -/
def trimLineEnd (s : String) : String :=
  String.ofList (dropWhileEnd (fun c => c == '\n' || c == '\r') s.toList)

end LineLexer
