import LineLexer.Error
import LineLexer.Scan

/-!
# Documents

A document is an edit buffer that knows the state after each of its lines.  An edit scans the
edited line again, and then the lines after it only as long as their states change.
-/

namespace LineLexer

/-- A line of a document with the state after it. -/
structure DocumentLine where
  text : String
  endState : State
  deriving DecidableEq

/-- The lines of a buffer with their states. -/
structure Document where
  lines : List DocumentLine
  deriving DecidableEq

/-- Why an edit fails. -/
inductive EditError where
  | rejected (e : Error)
  | scan (fault : ScanFault)
  deriving DecidableEq

namespace Table

/-- The state after a line that begins in `state`. -/
def endState (t : Table) (line : String) (state : State) : Except ScanFault State :=
  (t.scan line state).outcome

/-- The lines with their states, the first beginning in `state`. -/
def documentLines (t : Table) (state : State) : List String → Except ScanFault (List DocumentLine)
  | [] => .ok []
  | text :: texts => do
    let stop ← t.endState text state
    return ⟨text, stop⟩ :: (← t.documentLines stop texts)

/-- Scans lines again, the first beginning in `state`, up to the first one that ends in the
state that it had before.  The number of scanned lines is given too. -/
def rescan (t : Table) (state : State) :
    List DocumentLine → Except ScanFault (List DocumentLine × Nat)
  | [] => .ok ([], 0)
  | l :: ls => do
    let stop ← t.endState l.text state
    if stop = l.endState then return (l :: ls, 1)
    else
      let (ls, n) ← t.rescan stop ls
      return (⟨l.text, stop⟩ :: ls, n + 1)

end Table

namespace Document

variable (t : Table)

/-- The document of a buffer's text. -/
def ofText (text : String) : Except ScanFault Document := do
  let texts := (bufferLines text.toList).map String.ofList
  return ⟨← t.documentLines .initial texts⟩

/-- The number of lines. -/
def size (d : Document) : Nat := d.lines.length

/-- There are no lines. -/
def isEmpty (d : Document) : Bool := d.lines.isEmpty

/-- The lines with line feeds between them. -/
def text (d : Document) : String := String.intercalate "\n" (d.lines.map (·.text))

/-- The state that the line `index` begins in: the state after the line before it. -/
def startState (d : Document) (index : Nat) : State :=
  match index with
  | 0 => .initial
  | i + 1 => (d.lines[i]?.map (·.endState)).getD .initial

/-- The state after the last line. -/
def endState (d : Document) : State := (d.lines.getLast?.map (·.endState)).getD .initial

/-- The line `index`, classified from its start state. -/
def line? (d : Document) (index : Nat) : Except ScanFault (Option ScannedLine) :=
  match d.lines[index]? with
  | none => .ok none
  | some l => (t.scanLine l.text (d.startState index)).map some

/-- All lines, each classified from its start state. -/
def scannedLines (d : Document) : Except ScanFault (List ScannedLine) :=
  (List.range d.size).filterMapM (d.line? t)

/-- Scans again from the line `index` on. -/
def rescanFrom (d : Document) (index : Nat) : Except EditError (Document × Nat) :=
  match t.rescan (d.startState index) (d.lines.drop index) with
  | .ok (ls, n) => .ok (⟨d.lines.take index ++ ls⟩, n)
  | .error fault => .error (.scan fault)

/-- Refuses an index that is not below `len`. -/
def checkIndex (index len : Nat) : Except EditError Unit :=
  if index < len then .ok () else .error (.rejected (.lineOutOfRange index len))

/-- Replaces the text of a line.  The number of scanned lines is given too. -/
def setLine (d : Document) (index : Nat) (text : String) : Except EditError (Document × Nat) := do
  checkIndex index d.size
  rescanFrom t ⟨d.lines.modify index fun l => { l with text := text }⟩ index

/-- Puts a new line in front of the line `index`, or at the end.  The new line is first given
the state that it begins in, so that the lines after it are left alone if it ends in that. -/
def insertLine (d : Document) (index : Nat) (text : String) :
    Except EditError (Document × Nat) := do
  checkIndex index (d.size + 1)
  rescanFrom t ⟨d.lines.insertIdx index ⟨text, d.startState index⟩⟩ index

/-- Removes a line.  After the last line nothing is left to scan. -/
def removeLine (d : Document) (index : Nat) : Except EditError (Document × Nat) := do
  checkIndex index d.size
  let shorter : Document := ⟨d.lines.eraseIdx index⟩
  if index = shorter.size then return (shorter, 0) else rescanFrom t shorter index

end Document

end LineLexer
