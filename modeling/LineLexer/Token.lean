import LineLexer.Kind
import LineLexer.State

/-!
# Tokens and scanned lines

A token is a stretch of a line with its kind.  A scanned line is the list of its tokens and the
state that the next line begins in.
-/

namespace LineLexer

/-- A range of byte offsets in a line. -/
structure Span where
  start : Nat
  stop : Nat
  deriving DecidableEq

namespace Span

/-- Nothing lies in the range. -/
def isEmpty (s : Span) : Bool := s.start == s.stop

end Span

/-- A classified stretch of a line. -/
structure Token where
  kind : Kind
  text : String
  span : Span
  deriving DecidableEq

/-- What scanning a line gives. -/
structure ScannedLine where
  tokens : List Token
  /-- The state that the next line begins in. -/
  endState : State
  deriving DecidableEq

namespace ScannedLine

/-- The texts of the tokens, one after the other. -/
def text (l : ScannedLine) : String := String.join (l.tokens.map (·.text))

/-- The tokens without their spans. -/
def pairs (l : ScannedLine) : List (Kind × String) := l.tokens.map fun t => (t.kind, t.text)

end ScannedLine

end LineLexer
