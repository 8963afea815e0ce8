import LineLexer.Json.Writer
import LineLexer.Text.Basic

/-!
# Reading JSON

A JSON text is first split into tokens, which drops the white space between them.  The tokens
are then taken one by one while a stack holds the arrays and objects that are still open.

Reading is strict: no comment, no trailing comma, no control character in a string, no half of
a surrogate pair.  Of the numbers only natural numbers are read.
-/

namespace LineLexer

/-- A token of a JSON text. -/
inductive JsonToken where
  | openArray
  | closeArray
  | openObject
  | closeObject
  | comma
  | colon
  | null
  | bool (b : Bool)
  | number (n : Nat)
  | string (s : List Char)
  deriving DecidableEq

namespace JsonToken

/-! ### Strings -/

/-- The character of a surrogate pair. -/
def pairChar? (high low : Nat) : Option Char :=
  if 0xdc00 ≤ low && low < 0xe000 then
    some (Char.ofNat (0x10000 + (high - 0xd800) * 0x400 + (low - 0xdc00)))
  else none

/-- The character that a one-letter escape stands for. -/
def simpleEscape? : Char → Option Char
  | '"' => some '"'
  | '\\' => some '\\'
  | '/' => some '/'
  | 'b' => some '\x08'
  | 'f' => some '\x0c'
  | 'n' => some '\n'
  | 'r' => some '\r'
  | 't' => some '\t'
  | _ => none

/-- Reads the first character of a string, escaped or not. -/
def readStringChar? : List Char → Option (Char × List Char)
  | [] => none
  | '\\' :: 'u' :: a :: b :: c :: d :: cs =>
    match hexNumber? [a, b, c, d] with
    | none => none
    | some n =>
      if 0xd800 ≤ n && n < 0xdc00 then
        match cs with
        | '\\' :: 'u' :: e :: f :: g :: h :: cs =>
          (hexNumber? [e, f, g, h]).bind fun low => (pairChar? n low).map (·, cs)
        | _ => none
      else if n.isValidChar then some (Char.ofNat n, cs)
      else none
  | '\\' :: e :: cs => (simpleEscape? e).map (·, cs)
  | c :: cs => if c.toNat < 0x20 || c = '\\' then none else some (c, cs)

theorem readStringChar?_length {cs rest : List Char} {c : Char}
    (h : readStringChar? cs = some (c, rest)) : rest.length < cs.length := by
  unfold readStringChar? at h
  split at h
  · simp at h
  · split at h
    · simp at h
    · split at h
      · split at h
        · obtain ⟨low, -, h⟩ := Option.bind_eq_some_iff.1 h
          obtain ⟨_, _, h⟩ := Option.map_eq_some_iff.1 h
          obtain ⟨-, rfl⟩ := Prod.mk.inj h
          simp only [List.length_cons]
          omega
        · simp at h
      · split at h
        · obtain ⟨-, rfl⟩ := by simpa using h
          simp only [List.length_cons]
          omega
        · simp at h
  · obtain ⟨_, _, h⟩ := Option.map_eq_some_iff.1 h
    obtain ⟨-, rfl⟩ := Prod.mk.inj h
    simp only [List.length_cons]
    omega
  · split at h
    · simp at h
    · obtain ⟨-, rfl⟩ := by simpa using h
      simp

/-- Reads a string after its opening quote, and the quote that closes it. -/
def readString? (cs : List Char) : Option (List Char × List Char) :=
  match cs with
  | '"' :: rest => some ([], rest)
  | cs =>
    match _h : readStringChar? cs with
    | none => none
    | some (c, rest) => (readString? rest).map fun (s, rest) => (c :: s, rest)
termination_by cs.length
decreasing_by exact readStringChar?_length _h

theorem readString?_length {cs rest s : List Char} (h : readString? cs = some (s, rest)) :
    rest.length < cs.length := by
  fun_induction readString? cs generalizing s rest with
  | case1 cs =>
    obtain ⟨-, rfl⟩ := by simpa using h
    simp
  | case2 => simp at h
  | case3 cs _ c rest' hc ih =>
    obtain ⟨⟨s', rest''⟩, hs, h⟩ := Option.map_eq_some_iff.1 h
    obtain ⟨-, rfl⟩ := Prod.mk.inj h
    exact Nat.lt_trans (ih hs) (readStringChar?_length hc)

/-! ### Tokens -/

/-- The characters that may stand between tokens. -/
def isGap (c : Char) : Bool := c == ' ' || c == '\t' || c == '\n' || c == '\r'

/-- Reads the token that begins with `c`. -/
def read? (c : Char) (cs : List Char) : Option (JsonToken × List Char) :=
  match c, cs with
  | '[', cs => some (.openArray, cs)
  | ']', cs => some (.closeArray, cs)
  | '\x7b', cs => some (.openObject, cs)
  | '\x7d', cs => some (.closeObject, cs)
  | ',', cs => some (.comma, cs)
  | ':', cs => some (.colon, cs)
  | '"', cs => (readString? cs).map fun (s, rest) => (.string s, rest)
  | 'n', 'u' :: 'l' :: 'l' :: cs => some (.null, cs)
  | 't', 'r' :: 'u' :: 'e' :: cs => some (.bool true, cs)
  | 'f', 'a' :: 'l' :: 's' :: 'e' :: cs => some (.bool false, cs)
  | '0', cs => some (.number 0, cs)
  | c, cs =>
    if c.isDigit then
      some (.number ((c :: cs.takeWhile Char.isDigit).foldl
        (fun n d => 10 * n + (d.toNat - '0'.toNat)) 0), cs.dropWhile Char.isDigit)
    else none

theorem read?_length {c : Char} {cs rest : List Char} {t : JsonToken}
    (h : read? c cs = some (t, rest)) : rest.length ≤ cs.length := by
  unfold read? at h
  split at h
  case h_7 =>
    obtain ⟨⟨s, rest'⟩, hs, h⟩ := Option.map_eq_some_iff.1 h
    obtain ⟨-, rfl⟩ := Prod.mk.inj h
    exact Nat.le_of_lt (readString?_length hs)
  case h_12 =>
    split at h
    · obtain ⟨-, rfl⟩ := by simpa using h
      exact (List.dropWhile_sublist _).length_le
    · simp at h
  case h_8 | h_9 | h_10 =>
    obtain ⟨-, rfl⟩ := by simpa using h
    simp only [List.length_cons]
    omega
  all_goals
    obtain ⟨-, rfl⟩ := by simpa using h
    exact Nat.le_refl _

/-- The tokens of a text. -/
def ofText? : List Char → Option (List JsonToken)
  | [] => some []
  | c :: cs =>
    if isGap c then ofText? cs
    else
      match _h : read? c cs with
      | none => none
      | some (t, rest) => (ofText? rest).map (t :: ·)
termination_by cs => cs.length
decreasing_by
  · simp
  · have := read?_length _h
    simp only [List.length_cons]
    omega

end JsonToken

/-- An array or object that is still open, with its contents so far, the last first. -/
inductive OpenJson where
  | array (items : List Json)
  | object (members : List (String × Json))
  /-- An object whose member `key` has no value yet. -/
  | member (members : List (String × Json)) (key : String)

/-- What the next token may be. -/
inductive JsonExpectation where
  /-- A value, or the end of the array if `mayClose`. -/
  | value (mayClose : Bool)
  /-- A key, or the end of the object if `mayClose`. -/
  | key (mayClose : Bool)
  /-- The colon after a key. -/
  | colon
  /-- A comma, or the end of the array or object. -/
  | separator
  /-- Nothing: this is the value of the text. -/
  | nothing (v : Json)

/-- How far the reading of a value has come. -/
structure JsonReader where
  stack : List OpenJson
  expect : JsonExpectation

namespace JsonReader

/-- The reader before the first token. -/
def initial : JsonReader := ⟨[], .value false⟩

/-- The reader after a whole value, where `stack` holds what is open around it. -/
def put (stack : List OpenJson) (v : Json) : Option JsonReader :=
  match stack with
  | [] => some ⟨[], .nothing v⟩
  | .array items :: st => some ⟨.array (v :: items) :: st, .separator⟩
  | .member ms k :: st => some ⟨.object ((k, v) :: ms) :: st, .separator⟩
  | .object _ :: _ => none

/-- The reader after the end of an array. -/
def closeArray (r : JsonReader) : Option JsonReader :=
  match r.stack with
  | .array items :: st => put st (.array items.reverse)
  | _ => none

/-- The reader after the end of an object. -/
def closeObject (r : JsonReader) : Option JsonReader :=
  match r.stack with
  | .object ms :: st => put st (.object ms.reverse)
  | _ => none

/-- The reader after one more token. -/
def step (r : JsonReader) (t : JsonToken) : Option JsonReader :=
  match r.expect, t with
  | .value _, .null => put r.stack .null
  | .value _, .bool b => put r.stack (.bool b)
  | .value _, .number n => put r.stack (.number n)
  | .value _, .string s => put r.stack (.string (String.ofList s))
  | .value _, .openArray => some ⟨.array [] :: r.stack, .value true⟩
  | .value _, .openObject => some ⟨.object [] :: r.stack, .key true⟩
  | .value true, .closeArray => r.closeArray
  | .key _, .string s =>
    match r.stack with
    | .object ms :: st => some ⟨.member ms (String.ofList s) :: st, .colon⟩
    | _ => none
  | .key true, .closeObject => r.closeObject
  | .colon, .colon => some { r with expect := .value false }
  | .separator, .comma =>
    match r.stack with
    | .array _ :: _ => some { r with expect := .value false }
    | .object _ :: _ => some { r with expect := .key false }
    | _ => none
  | .separator, .closeArray => r.closeArray
  | .separator, .closeObject => r.closeObject
  | _, _ => none

/-- The value of the text, if it is complete. -/
def finish (r : JsonReader) : Option Json :=
  match r.expect with
  | .nothing v => some v
  | _ => none

end JsonReader

namespace Json

/-- The value that tokens write. -/
def ofTokens? (ts : List JsonToken) : Option Json := do
  let r ← ts.foldlM JsonReader.step .initial
  r.finish

/-- The value of a JSON text. -/
def ofText? (text : String) : Option Json := do
  let ts ← JsonToken.ofText? text.toList
  ofTokens? ts

end Json

end LineLexer
