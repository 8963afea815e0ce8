import LineLexer.Text.CharClass

/-!
# Patterns

A `Pattern` describes texts and, because its alternatives are ordered, also which of several
matches is preferred.  Its leaves are character sets and look-around conditions; capture
groups are numbered from one.
-/

namespace LineLexer

/-- A class of characters that has a name in pattern text. -/
inductive CharProperty where
  | blank
  | digit
  | word
  | asciiBlank
  | asciiDigit
  | asciiWord
  deriving DecidableEq

namespace CharProperty

/-- The characters with the property. -/
def holds : CharProperty → Char → Bool
  | .blank, c => isBlank c
  | .digit, c => isDecimalDigit c
  | .word, c => isWordChar c
  | .asciiBlank, c => c.toNat < 0x80 && isBlank c
  | .asciiDigit, c => c.isDigit
  | .asciiWord, c => isAsciiWordChar c

end CharProperty

/-- One member of a character set. -/
inductive CharItem where
  | range (lo hi : Char)
  | property (p : CharProperty) (negated : Bool)
  deriving DecidableEq

namespace CharItem

/-- The item covers `c`. -/
def holds : CharItem → Char → Bool
  | .range lo hi, c => lo ≤ c && c ≤ hi
  | .property p negated, c => p.holds c != negated

end CharItem

/-- The characters that differ from `c` only in case, `c` among them.  Case is told apart within
ASCII, with the two letters beyond it that fold to an ASCII letter, the Kelvin sign and the long s;
any other character has no variant but itself. -/
def caseVariants (c : Char) : List Char :=
  if c.isAlpha then
    [c.toLower, c.toUpper] ++
      (if c.toLower = 'k' then ['\u212a'] else if c.toLower = 's' then ['\u017f'] else [])
  else if c = '\u212a' then ['k', 'K', c]
  else if c = '\u017f' then ['s', 'S', c]
  else [c]

/-- A set of characters: the union of the items, or its complement.  With `anyCase` a
character belongs to the union as soon as one of its case variants does. -/
structure CharSet where
  items : List CharItem
  negated : Bool := false
  anyCase : Bool := false
  deriving DecidableEq

namespace CharSet

/-- The set holds `c`. -/
def holds (s : CharSet) (c : Char) : Bool :=
  (if s.anyCase then (caseVariants c).any fun d => s.items.any (·.holds d)
    else s.items.any (·.holds c)) != s.negated

/-- The set with the one member `c`. -/
def single (c : Char) : CharSet := ⟨[.range c c], false, false⟩

/-- The set of all characters. -/
def all : CharSet := ⟨[], true, false⟩

/-- The set of all characters but the line feed. -/
def notLineFeed : CharSet := ⟨[.range '\n' '\n'], true, false⟩

end CharSet

/-- A condition on the place between two characters. -/
inductive Look where
  | textStart
  | textEnd
  | lineStart
  | lineEnd
  | wordEdge
  | notWordEdge
  | asciiWordEdge
  | notAsciiWordEdge
  deriving DecidableEq

namespace Look

/-- Exactly one of two neighbours is a word character; at an end of the text there is none. -/
def edge (isWord : Char → Bool) (before after : Option Char) : Bool :=
  before.any isWord != after.any isWord

/-- The condition holds between `before` and `after`, which are absent at the ends of the
text. -/
def holds : Look → Option Char → Option Char → Bool
  | .textStart, before, _ => before.isNone
  | .textEnd, _, after => after.isNone
  | .lineStart, before, _ => before.isNone || before == some '\n'
  | .lineEnd, _, after => after.isNone || after == some '\n'
  | .wordEdge, before, after => edge isWordChar before after
  | .notWordEdge, before, after => !edge isWordChar before after
  | .asciiWordEdge, before, after => edge isAsciiWordChar before after
  | .notAsciiWordEdge, before, after => !edge isAsciiWordChar before after

end Look

/-- A pattern.  The flag of a repetition is true if more repetitions are preferred. -/
inductive Pattern where
  | empty
  | set (s : CharSet)
  | look (l : Look)
  | seq (p q : Pattern)
  | alt (p q : Pattern)
  | opt (greedy : Bool) (p : Pattern)
  | star (greedy : Bool) (p : Pattern)
  | plus (greedy : Bool) (p : Pattern)
  | group (index : Nat) (p : Pattern)
  deriving DecidableEq

namespace Pattern

/-- The pattern that matches the one character `c`. -/
def char (c : Char) : Pattern := .set (.single c)

/-- The patterns one after the other. -/
def concat : List Pattern → Pattern
  | [] => .empty
  | [p] => p
  | p :: ps => .seq p (concat ps)

/-- The first of the patterns that matches; at least one is given. -/
def choice (p : Pattern) : List Pattern → Pattern
  | [] => p
  | q :: qs => .alt p (choice q qs)

/-- The pattern `n` times. -/
def times (p : Pattern) (n : Nat) : Pattern := concat (List.replicate n p)

/-- The pattern at most `n` times. -/
def upTo (greedy : Bool) (p : Pattern) : Nat → Pattern
  | 0 => .empty
  | 1 => .opt greedy p
  | n + 1 => .opt greedy (.seq p (upTo greedy p n))

/-- The pattern at least `lo` and at most `hi` times; without `hi` there is no upper limit. -/
def repeated (greedy : Bool) (p : Pattern) (lo : Nat) : Option Nat → Pattern
  | none =>
    match lo with
    | 0 => .star greedy p
    | 1 => .plus greedy p
    | n + 1 => .seq (times p n) (.plus greedy p)
  | some hi =>
    if hi = lo then times p lo
    else if lo = 0 then upTo greedy p hi
    else .seq (times p lo) (upTo greedy p (hi - lo))

/-- The highest number of a capture group. -/
def groupCount : Pattern → Nat
  | .empty | .set _ | .look _ => 0
  | .seq p q | .alt p q => max p.groupCount q.groupCount
  | .opt _ p | .star _ p | .plus _ p => p.groupCount
  | .group i p => max i p.groupCount

/-- Every match begins at the start of the text, as far as the shape of the pattern shows. -/
def startsAtTextStart : Pattern → Bool
  | .look l => l == .textStart
  | .seq p _ => p.startsAtTextStart
  | .alt p q => p.startsAtTextStart && q.startsAtTextStart
  | .group _ p | .plus _ p => p.startsAtTextStart
  | .empty | .set _ | .opt _ _ | .star _ _ => false

end Pattern

end LineLexer
