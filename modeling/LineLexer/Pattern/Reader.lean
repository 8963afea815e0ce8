import LineLexer.Pattern.Item.Split

/-!
# From items to a pattern

`Pattern.ofText` reads the text of a pattern.  The items are taken one after the other while a
stack holds the groups that are still open; each open group knows its finished alternatives,
the parts of the alternative it is in, and the flags to go back to when it closes.
-/

namespace LineLexer

/-- The flags in force. -/
structure PatternFlags where
  anyCase : Bool := false
  multiLine : Bool := false
  dotAll : Bool := false
  lazyFirst : Bool := false
  unicode : Bool := true
  deriving DecidableEq

namespace PatternFlags

/-- One flag set or cleared. -/
def with1 (f : PatternFlags) : PatternFlag × Bool → PatternFlags
  | (.anyCase, b) => { f with anyCase := b }
  | (.multiLine, b) => { f with multiLine := b }
  | (.dotAll, b) => { f with dotAll := b }
  | (.lazyFirst, b) => { f with lazyFirst := b }
  | (.unicode, b) => { f with unicode := b }

/-- The flags after `settings`. -/
def apply (f : PatternFlags) (settings : FlagSettings) : PatternFlags := settings.foldl with1 f

end PatternFlags

/-- A group that is still open, or the whole pattern. -/
structure OpenGroup where
  /-- The number of a capture group. -/
  index : Option Nat
  /-- The flags in force around the group. -/
  outerFlags : PatternFlags
  /-- The finished alternatives, the last first. -/
  alternatives : List Pattern := []
  /-- The parts of the alternative being read, the last first. -/
  parts : List Pattern := []
  /-- A repetition may stand here: the last item was a part. -/
  repeatable : Bool := false
  deriving DecidableEq

namespace OpenGroup

/-- The group with one more part. -/
def push (g : OpenGroup) (p : Pattern) : OpenGroup :=
  { g with parts := p :: g.parts, repeatable := true }

/-- The group at the start of its next alternative. -/
def nextAlternative (g : OpenGroup) : OpenGroup :=
  { g with alternatives := .concat g.parts.reverse :: g.alternatives, parts := [],
           repeatable := false }

/-- What the group has read as one pattern. -/
def body (g : OpenGroup) : Pattern :=
  g.alternatives.foldl (fun later earlier => .alt earlier later) (.concat g.parts.reverse)

/-- The group as a part of the group around it. -/
def close (g : OpenGroup) : Pattern :=
  match g.index with
  | some i => .group i g.body
  | none => g.body

end OpenGroup

/-- How far the reading of a pattern has come. -/
structure PatternReader where
  flags : PatternFlags
  /-- The number of capture groups opened so far. -/
  groupCount : Nat
  /-- The names given to groups so far. -/
  names : List String
  /-- The innermost open group. -/
  inner : OpenGroup
  /-- The groups around it, outwards. -/
  outer : List OpenGroup
  deriving DecidableEq

namespace PatternReader

/-- The reader before the first item. -/
def initial : PatternReader :=
  { flags := {}, groupCount := 0, names := [], inner := { index := none, outerFlags := {} },
    outer := [] }

/-- The pattern of a single character under the flags. -/
def literal (f : PatternFlags) (c : Char) : Pattern :=
  if f.anyCase then .set ⟨[.range c c], false, true⟩ else .char c

/-- A property under the flags.  Without Unicode its complement is refused, for it would hold
parts of characters. -/
def property (f : PatternFlags) (p : CharProperty) (negated : Bool) :
    Except PatternFault CharItem :=
  if f.unicode then .ok (.property p negated)
  else if negated then .error .splitsCharacters
  else .ok (.property (ascii p) false)
where
  /-- The part of a property within ASCII. -/
  ascii : CharProperty → CharProperty
    | .blank | .asciiBlank => .asciiBlank
    | .digit | .asciiDigit => .asciiDigit
    | .word | .asciiWord => .asciiWord

/-- A member of a character set under the flags. -/
def member (f : PatternFlags) : CharItem → Except PatternFault CharItem
  | .range lo hi => .ok (.range lo hi)
  | .property p negated => property f p negated

/-- A condition under the flags. -/
def look (f : PatternFlags) : Look → Look
  | .wordEdge => if f.unicode then .wordEdge else .asciiWordEdge
  | .notWordEdge => if f.unicode then .notWordEdge else .notAsciiWordEdge
  | l => l

/-- The pattern of an item that is a part by itself; other items are none. -/
def part? (f : PatternFlags) : PatternItem → Except PatternFault (Option Pattern)
  | .literal c => .ok (some (literal f c))
  | .anyChar =>
    if f.unicode then .ok (some (.set (if f.dotAll then .all else .notLineFeed)))
    else .error .splitsCharacters
  | .lineBegin => .ok (some (.look (if f.multiLine then .lineStart else .textStart)))
  | .lineStop => .ok (some (.look (if f.multiLine then .lineEnd else .textEnd)))
  | .look l => .ok (some (.look (look f l)))
  | .property p negated => do
    let item ← property f p negated
    return some (.set ⟨[item], false, false⟩)
  | .set members negated => do
    if negated && !f.unicode then throw .splitsCharacters
    let members ← members.mapM (member f)
    return some (.set ⟨members, negated, f.anyCase⟩)
  | _ => .ok none

/-- The reader after an opening parenthesis. -/
def openGroup (r : PatternReader) (capturing : Bool) (name : Option String)
    (settings : FlagSettings) : Except PatternFault PatternReader :=
  if name.any r.names.contains then .error .repeatedGroupName
  else
    let count := if capturing then r.groupCount + 1 else r.groupCount
    .ok { flags := r.flags.apply settings
          groupCount := count
          names := name.toList ++ r.names
          inner := { index := if capturing then some count else none, outerFlags := r.flags }
          outer := r.inner :: r.outer }

/-- The reader after a closing parenthesis. -/
def closeGroup (r : PatternReader) : Except PatternFault PatternReader :=
  match r.outer with
  | [] => .error .unopenedGroup
  | g :: outer =>
    .ok { r with flags := r.inner.outerFlags, inner := g.push r.inner.close, outer := outer }

/-- The reader after a repetition. -/
def repeatLast (r : PatternReader) (lo : Nat) (hi : Option Nat) (greedy : Bool) :
    Except PatternFault PatternReader :=
  match r.inner.repeatable, r.inner.parts with
  | true, p :: ps =>
    let p := Pattern.repeated (greedy != r.flags.lazyFirst) p lo hi
    .ok { r with inner := { r.inner with parts := p :: ps } }
  | _, _ => .error .missingOperand

/-- The reader after one more item. -/
def step (r : PatternReader) : PatternItem → Except PatternFault PatternReader
  | .opening capturing name settings => r.openGroup capturing name settings
  | .closing => r.closeGroup
  | .bar => .ok { r with inner := r.inner.nextAlternative }
  | .flags settings =>
    .ok { r with flags := r.flags.apply settings, inner := { r.inner with repeatable := false } }
  | .count lo hi greedy => r.repeatLast lo hi greedy
  | item =>
    match part? r.flags item with
    | .error e => .error e
    | .ok (some p) => .ok { r with inner := r.inner.push p }
    | .ok none => .ok r

/-- The pattern, if no group is open any more. -/
def finish (r : PatternReader) : Except PatternFault Pattern :=
  if r.outer.isEmpty then .ok r.inner.body else .error .unclosedGroup

end PatternReader

namespace Pattern

/-- The pattern that a text describes. -/
def ofText (text : List Char) : Except PatternFault Pattern := do
  let items ← PatternItem.items text
  let r ← items.foldlM PatternReader.step .initial
  r.finish

/-- The text that describes the characters of `text` themselves: those that have a meaning in
pattern text stand after a backslash. -/
def escape (text : List Char) : List Char :=
  text.flatMap fun c => if isMeta c then ['\\', c] else [c]
where
  /-- `c` has a meaning in pattern text. -/
  isMeta (c : Char) : Bool :=
    c == '\\' || c == '.' || c == '+' || c == '*' || c == '?' || c == '(' || c == ')' ||
    c == '|' || c == '[' || c == ']' || c == '\x7b' || c == '\x7d' || c == '^' || c == '$' ||
    c == '#' || c == '&' || c == '-' || c == '~'

end Pattern

end LineLexer
