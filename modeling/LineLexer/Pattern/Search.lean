import LineLexer.Pattern.Match

/-!
# Searching a text

`Pattern.find?` gives the leftmost match of a pattern in a text, and of the matches that begin
there the preferred one.  A pattern whose shape shows that it matches only at the start of the
text is tried there alone, which changes nothing (`Pattern.find?_eq`).
-/

namespace LineLexer

/-- A match in a text.  Places are given by the number of characters before them. -/
structure Match where
  start : Nat
  stop : Nat
  /-- What the groups captured, from group one on; a group may have taken no part. -/
  groups : List (Option (Nat × Nat))
  deriving DecidableEq

namespace Cursor

/-- What `group` captured last, in a text of `total` characters. -/
def captured? (s : Cursor) (total group : Nat) : Option (Nat × Nat) :=
  (s.captures.find? fun c => c.group == group).map fun c =>
    (total - c.leftAtStart, total - c.leftAtStop)

end Cursor

namespace Pattern

/-- The preferred match that begins at `s`, in a text of `total` characters. -/
def matchAt (p : Pattern) (total : Nat) (s : Cursor) : Option Match :=
  (p.run s some).map fun t =>
    { start := total - s.left
      stop := total - t.left
      groups := (List.range p.groupCount).map fun i => t.captured? total (i + 1) }

/-- The leftmost match that begins at `s` or later. -/
def firstFrom (p : Pattern) (total : Nat) (s : Cursor) : Option Match :=
  (p.matchAt total s).orElse fun _ =>
    match _h : s.next? with
    | some (_, t) => firstFrom p total t
    | none => none
termination_by s.left
decreasing_by exact Cursor.next?_left _h

/-- The leftmost match in `text`. -/
def find? (p : Pattern) (text : List Char) : Option Match :=
  if p.startsAtTextStart then p.matchAt text.length (.start text)
  else p.firstFrom text.length (.start text)

/-! ### Patterns bound to the start of the text -/

theorem results_eq_nil {p : Pattern} {s : Cursor} (h : p.startsAtTextStart) (c : Char)
    (hs : s.before = some c) : p.results s = [] := by
  induction p with
  | empty | set | opt | star => simp [startsAtTextStart] at h
  | look l =>
    obtain rfl : l = .textStart := by simpa [startsAtTextStart] using h
    simp [results, Look.holds, hs]
  | seq p q ih => simp [results, ih h]
  | alt p q ihp ihq =>
    rw [startsAtTextStart, Bool.and_eq_true] at h
    simp [results, ihp h.1, ihq h.2]
  | plus greedy p ih => simp [results, roundsAfterFirst, ih h]
  | group i p ih => simp [results, ih h]

theorem matchAt_eq_none {p : Pattern} {s : Cursor} (h : p.startsAtTextStart) (c : Char)
    (hs : s.before = some c) (total : Nat) : p.matchAt total s = none := by
  simp [matchAt, run_eq, results_eq_nil h c hs]

theorem firstFrom_eq_none {p : Pattern} (h : p.startsAtTextStart) (total : Nat) (s : Cursor)
    (c : Char) (hs : s.before = some c) : p.firstFrom total s = none := by
  generalize hn : s.left = n
  induction n using Nat.strongRecOn generalizing s c with
  | ind n ih =>
    rw [firstFrom, matchAt_eq_none h c hs, Option.orElse_none]
    split
    · rename_i d t ht
      exact ih _ (hn ▸ Cursor.next?_left ht) t d (Cursor.next?_before ht) rfl
    · rfl

/-- Every search is a search from the start of the text. -/
theorem find?_eq (p : Pattern) (text : List Char) :
    p.find? text = p.firstFrom text.length (.start text) := by
  rw [find?]
  split
  · rename_i h
    rw [firstFrom]
    split
    · rename_i d t ht
      rw [firstFrom_eq_none h _ t d (Cursor.next?_before ht)]
      cases p.matchAt text.length (.start text) <;> rfl
    · cases p.matchAt text.length (.start text) <;> rfl
  · rfl

end Pattern

end LineLexer
