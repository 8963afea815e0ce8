/-!
# Places in a text

A `Cursor` is a place in a text that is being matched: the character before it, the text after
it, and what the capture groups closed so far have captured.  Places are counted from the end
of the text, by the number of characters left.
-/

namespace LineLexer

/-- What a capture group holds: the number of characters left at its start and at its end. -/
structure Capture where
  group : Nat
  leftAtStart : Nat
  leftAtStop : Nat
  deriving DecidableEq

/-- A place in a text. -/
structure Cursor where
  /-- The character before the place; absent at the start of the text. -/
  before : Option Char
  /-- The text after the place. -/
  rest : List Char
  /-- The number of characters after the place. -/
  left : Nat
  /-- The captures so far, the newest first. -/
  captures : List Capture
  left_eq : left = rest.length := by rfl

namespace Cursor

/-- The start of a text. -/
def start (text : List Char) : Cursor :=
  { before := none, rest := text, left := text.length, captures := [] }

/-- The next character and the place after it. -/
def next? (s : Cursor) : Option (Char × Cursor) :=
  match h : s.rest with
  | [] => none
  | c :: cs =>
    some (c, { s with
      before := some c, rest := cs, left := s.left - 1
      left_eq := by rw [s.left_eq, h]; rfl })

/-- The place with a capture of `group` from `from` up to here. -/
def capture (s : Cursor) (group : Nat) (begun : Cursor) : Cursor :=
  { s with captures := ⟨group, begun.left, s.left⟩ :: s.captures }

theorem next?_before {s t : Cursor} {c : Char} (h : s.next? = some (c, t)) :
    t.before = some c := by
  unfold next? at h
  split at h
  · simp at h
  · obtain ⟨rfl, rfl⟩ := by simpa using h
    rfl

theorem next?_rest {s t : Cursor} {c : Char} (h : s.next? = some (c, t)) :
    s.rest = c :: t.rest := by
  unfold next? at h
  split at h
  · simp at h
  · rename_i d cs hr
    obtain ⟨rfl, rfl⟩ := by simpa using h
    exact hr

theorem next?_captures {s t : Cursor} {c : Char} (h : s.next? = some (c, t)) :
    t.captures = s.captures := by
  unfold next? at h
  split at h
  · simp at h
  · obtain ⟨rfl, rfl⟩ := by simpa using h
    rfl

theorem next?_left {s t : Cursor} {c : Char} (h : s.next? = some (c, t)) : t.left < s.left := by
  unfold next? at h
  split at h
  · simp at h
  · rename_i c' cs hr
    obtain ⟨-, rfl⟩ := by simpa using h
    simp [s.left_eq, hr]

end Cursor

end LineLexer
