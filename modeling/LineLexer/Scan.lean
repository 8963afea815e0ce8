import LineLexer.Table
import LineLexer.Text.Basic
import LineLexer.Text.Quoted
import LineLexer.Token

/-!
# Scanning

A line is scanned from left to right: at each place the first rule of the state that matches
decides how far to go, which tokens to make and which state comes next.  `Table.applications`
lists the rules that are applied, `pieces` what each of them contributes, and `Token.ofPieces`
joins the pieces into tokens.

A scan can go wrong in two ways (`ScanFault`): no rule matches, or rules match again and again
without consuming anything.  No more than four matches in a row may consume nothing, each of
them leading to a state; more would visit a state twice at the same place and never end.
-/

namespace LineLexer

/-! ### Pieces and tokens -/

/-- A stretch of a line as one rule classifies it. -/
structure Piece where
  kind : Kind
  text : List Char
  /-- The offset of its first byte. -/
  start : Nat
  /-- The piece is a whole match, and may be joined to its neighbours. -/
  joins : Bool
  deriving DecidableEq

namespace Piece

/-- The offset after the last byte. -/
def stop (p : Piece) : Nat := p.start + byteSize p.text

end Piece

/-- The token that a piece makes by itself. -/
def Token.ofPiece (p : Piece) : Token :=
  { kind := p.kind, text := String.ofList p.text, span := ⟨p.start, p.stop⟩ }

/-- The tokens of the pieces taken so far, the last first, and whether the last may grow. -/
structure TokenStack where
  tokens : List Token := []
  lastJoins : Bool := false
  deriving DecidableEq

namespace TokenStack

/-- Takes one more piece: it lengthens the last token if both come from whole matches, have one
kind and touch, and is a token of its own otherwise.  An empty piece leaves no trace. -/
def push (s : TokenStack) (p : Piece) : TokenStack :=
  if p.text.isEmpty then s
  else
    match s.tokens with
    | t :: ts =>
      if p.joins && s.lastJoins && t.kind == p.kind && t.span.stop == p.start then
        { s with tokens :=
            { t with text := t.text ++ String.ofList p.text, span := ⟨t.span.start, p.stop⟩ } ::
              ts }
      else { tokens := Token.ofPiece p :: t :: ts, lastJoins := p.joins }
    | [] => { tokens := [Token.ofPiece p], lastJoins := p.joins }

end TokenStack

/-- The tokens of a list of pieces. -/
def Token.ofPieces (ps : List Piece) : List Token := (ps.foldl TokenStack.push {}).tokens.reverse

/-! ### Places in a line -/

/-- The state of a scan: what is left of the line, where it begins, and the line state. -/
structure Place where
  state : State
  offset : Nat
  rest : List Char
  deriving DecidableEq

/-- A rule applied at a place. -/
structure Application where
  place : Place
  rule : Rule
  hit : Match

namespace Application

/-- The text from the `lo`-th to the `hi`-th character after the place. -/
def slice (a : Application) (lo hi : Nat) : List Char := (a.place.rest.drop lo).take (hi - lo)

/-- That text as a piece. -/
def piece (a : Application) (kind : Kind) (joins : Bool) (lo hi : Nat) : Piece :=
  { kind := kind
    text := a.slice lo hi
    start := a.place.offset + byteSize (a.place.rest.take lo)
    joins := joins }

/-- The pieces of the groups from the place `pos` on.  What lies between them is text; a group
that took no part or that begins before `pos` is passed over. -/
def groupPieces (a : Application) (pos : Nat) : List (Kind × Option (Nat × Nat)) → List Piece
  | [] => [a.piece .text false pos a.hit.stop]
  | (_, none) :: gs => a.groupPieces pos gs
  | (kind, some (start, stop)) :: gs =>
    if start < pos then a.groupPieces pos gs
    else a.piece .text false pos start :: a.piece kind false start stop :: a.groupPieces stop gs

/-- The pieces that the rule makes of its match. -/
def pieces (lexicon : Lexicon) (a : Application) : List Piece :=
  match a.rule.text.classification with
  | .single kind => [a.piece kind true a.hit.start a.hit.stop]
  | .word =>
    let word := String.ofList (a.slice a.hit.start a.hit.stop)
    [a.piece (lexicon.kindOf word) true a.hit.start a.hit.stop]
  | .perGroup kinds => a.groupPieces a.hit.start (kinds.zip a.hit.groups)

/-- The place after the match. -/
def after (a : Application) : Place :=
  { state := a.rule.text.next.getD a.place.state
    offset := a.place.offset + byteSize (a.place.rest.take a.hit.stop)
    rest := a.place.rest.drop a.hit.stop }

/-- Nothing of the line is scanned after the rule: it was applied at the end of the line, or it
ends the line. -/
def isLast (a : Application) : Bool := a.place.rest.isEmpty || a.rule.text.endsLine

end Application

/-! ### The scan -/

/-- How a scan goes wrong. -/
inductive ScanFault where
  /-- No rule of the state matches. -/
  | noRule (state : State) (offset : Nat) (line : String)
  /-- A rule is the latest of too many that consumed nothing; the state is the one after it. -/
  | noProgress (pattern : String) (state : State) (offset : Nat) (line : String)
  deriving DecidableEq

namespace ScanFault

/-- The fault in words. -/
def message : ScanFault → String
  | .noRule state offset line =>
    "no rule in state '" ++ state.name ++ "' matches at byte " ++ toString offset ++ " of " ++
      quoted line
  | .noProgress pattern state offset line =>
    "rule /" ++ pattern ++ "/ in state '" ++ state.name ++
      "' matched without progress at byte " ++ toString offset ++ " of " ++ quoted line

end ScanFault

/-- The rules that a scan applied, and the state it ended in unless it went wrong. -/
structure Scan where
  applications : List Application
  outcome : Except ScanFault State

namespace Table

/-- The number of matches in a row that may consume nothing. -/
def maxStalls : Nat := State.all.length

/-- The rule that is applied at a place. -/
def application? (t : Table) (p : Place) : Option Application :=
  (t.firstMatch? p.state p.rest).map fun (rule, hit) => ⟨p, rule, hit⟩

theorem application?_place {t : Table} {p : Place} {a : Application}
    (h : t.application? p = some a) : a.place = p := by
  obtain ⟨_, _, rfl⟩ := Option.map_eq_some_iff.1 h
  rfl

/-- Scans `line` from a place on, after `stalls` matches in a row that consumed nothing. -/
def scanFrom (t : Table) (line : String) (p : Place) (stalls : Nat) : Scan :=
  match _h : t.application? p with
  | none => ⟨[], .error (.noRule p.state p.offset line)⟩
  | some a =>
    if _last : a.isLast then ⟨[a], .ok a.after.state⟩
    else if _still : a.hit.stop = 0 then
      if _more : a.rule.text.next.isSome ∧ stalls < maxStalls then
        let later := t.scanFrom line a.after (stalls + 1)
        ⟨a :: later.applications, later.outcome⟩
      else ⟨[a], .error (.noProgress a.rule.text.pattern a.after.state a.after.offset line)⟩
    else
      let later := t.scanFrom line a.after 0
      ⟨a :: later.applications, later.outcome⟩
termination_by (maxStalls + 1) * p.rest.length + (maxStalls - stalls)
decreasing_by
  -- nothing was consumed: the rest stays, and one stall fewer is left
  · obtain rfl := application?_place _h
    rw [Application.after, _still, List.drop_zero]
    have := _more.2
    dsimp only
    omega
  -- the rest became shorter, which outweighs the stalls that are allowed again
  · obtain rfl := application?_place _h
    have : a.place.rest ≠ [] := fun he => _last (by simp [Application.isLast, he])
    have : a.after.rest.length + 1 ≤ a.place.rest.length := by
      have := List.length_pos_iff.2 this
      simp only [Application.after, List.length_drop]
      omega
    have := Nat.mul_le_mul_left (maxStalls + 1) this
    rw [Nat.mul_add] at this
    omega

/-- Scans a line that begins in `state`. -/
def scan (t : Table) (line : String) (state : State) : Scan :=
  t.scanFrom line ⟨state, 0, line.toList⟩ 0

/-- Classifies a line that begins in `state`. -/
def scanLine (t : Table) (line : String) (state : State) : Except ScanFault ScannedLine :=
  let s := t.scan line state
  s.outcome.map fun endState =>
    { tokens := Token.ofPieces (s.applications.flatMap (Application.pieces t.lexicon))
      endState := endState }

/-- Classifies lines one after the other, each beginning in the state that the one before it
ended in. -/
def scanLines (t : Table) (state : State) : List String → Except ScanFault (List ScannedLine)
  | [] => .ok []
  | line :: lines => do
    let scanned ← t.scanLine line state
    return scanned :: (← t.scanLines scanned.endState lines)

/-- Classifies the lines of a text. -/
def scanText (t : Table) (text : String) (state : State) : Except ScanFault (List ScannedLine) :=
  t.scanLines state (lines text)

end Table

end LineLexer
