import LineLexer.Text.Quoted
import LineLexer.Vocabulary.Json

/-!
# Files

Files are given by a function from paths to contents, so that what a program does with files is
a function too.
-/

namespace LineLexer

/-- Why a text file cannot be read. -/
inductive FileFault where
  | notFound
  | isDirectory
  | notText
  /-- The system refuses for some other reason. -/
  | refused (text : String)
  deriving DecidableEq

namespace FileFault

/-- The fault in words. -/
def message : FileFault → String
  | .notFound => "No such file or directory (os error 2)"
  | .isDirectory => "Is a directory (os error 21)"
  | .notText => "stream did not contain valid UTF-8"
  | .refused text => text

end FileFault

/-- The text files that can be read. -/
abbrev Files := String → Except FileFault String

/-- The text that bytes hold in UTF-8. -/
def textOfBytes (bytes : ByteArray) : Except FileFault String :=
  match String.fromUTF8? bytes with
  | some text => .ok text
  | none => .error .notText

/-- The lines of a byte stream, each with the line feed that ends it. -/
def byteLines : List UInt8 → List (List UInt8)
  | [] => []
  | b :: bs =>
    if b = 0x0a then [b] :: byteLines bs
    else
      match byteLines bs with
      | [] => [[b]]
      | l :: ls => (b :: l) :: ls

/-- The lines of a byte stream as texts, as far as they are texts. -/
def inputLines (bytes : ByteArray) : List (Except FileFault String) :=
  (byteLines bytes.toList).map fun l => textOfBytes ⟨l.toArray⟩

namespace Vocabulary

/-- The valid vocabulary that a file writes. -/
def ofFile (files : Files) (path : String) : Except Error Vocabulary :=
  match files path with
  | .error fault =>
    .error (.withContext ("failed to read vocabulary " ++ path) (.io fault.message))
  | .ok text =>
    match decode text with
    | .error e => .error (.withContext ("invalid vocabulary " ++ path) e)
    | .ok v => v.checked

end Vocabulary

end LineLexer
