import LineLexer.Pattern.Basic
import LineLexer.Pattern.Fault

/-!
# The items of pattern text

Pattern text is a sequence of items: single characters and their escapes, character sets,
conditions, the marks that open, divide and close groups, and repetitions.  What an item means
may still depend on the flags in force where it stands.

The syntax is that of the usual linear-time matchers, but not all of it.  What they read beyond it
is refused:

* properties by name, such as `\p{Greek}` and `\pL` (`PatternFault.unknownEscape`),
* the edges of words that look to one side, `\<` and `\>` (`PatternFault.unknownEscape`), and
  `\b{start}`, `\b{end}`, `\b{start-half}` and `\b{end-half}` (`PatternFault.badCount`),
* named classes, sets within sets and operations between sets, such as `[[:alpha:]]`, `[a[bc]]` and
  `[a&&b]` (`PatternFault.setOperation`),
* the flags `x` and `R` (`PatternFault.badFlags`).

There is no limit on the size of a pattern or on the depth of its groups.
-/

namespace LineLexer

/-- A flag that changes what later items mean. -/
inductive PatternFlag where
  | anyCase
  | multiLine
  | dotAll
  | lazyFirst
  | unicode
  deriving DecidableEq

/-- Flags that are set (`true`) or cleared. -/
abbrev FlagSettings := List (PatternFlag × Bool)

/-- An item of pattern text. -/
inductive PatternItem where
  | literal (c : Char)
  | anyChar
  | lineBegin
  | lineStop
  | look (l : Look)
  | property (p : CharProperty) (negated : Bool)
  | set (members : List CharItem) (negated : Bool)
  | opening (capturing : Bool) (name : Option String) (settings : FlagSettings)
  | flags (settings : FlagSettings)
  | bar
  | closing
  | count (lo : Nat) (hi : Option Nat) (greedy : Bool)
  deriving DecidableEq

namespace PatternItem

/-- Reading a part of pattern text: the part and the text after it, or what is wrong. -/
abbrev Reading := Except PatternFault

theorem length_dropWhile_le {α : Type} (f : α → Bool) (xs : List α) :
    (xs.dropWhile f).length ≤ xs.length :=
  (List.dropWhile_sublist f).length_le

theorem map_eq_ok {α γ : Type} {f : α → γ} {x : Reading α} {y : γ} (h : x.map f = .ok y) :
    ∃ a, x = .ok a ∧ f a = y := by
  cases x with
  | error e => simp [Except.map] at h
  | ok a => exact ⟨a, rfl, by simpa [Except.map] using h⟩

theorem bind_eq_ok {α γ : Type} {f : α → Reading γ} {x : Reading α} {y : γ}
    (h : x >>= f = .ok y) : ∃ a, x = .ok a ∧ f a = .ok y := by
  cases x with
  | error e => simp [bind, Except.bind] at h
  | ok a => exact ⟨a, rfl, h⟩

end PatternItem

end LineLexer
