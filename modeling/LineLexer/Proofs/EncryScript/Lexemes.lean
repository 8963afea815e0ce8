import LineLexer.Proofs.EncryScript.Grammar
import LineLexer.Proofs.Pattern.Spelling
import LineLexer.Text.Basic

/-!
# Numbers, escapes and identifiers

The forms of numbers and escapes as grammars of their own, and that these are the texts which the
patterns of EncryScript spell (`Grammar.spells_integer`, `Grammar.spells_float` and
`Grammar.spells_escape`).  What an identifier is has been said for vocabularies; the pattern
agrees (`Grammar.spells_identifier`).
-/

namespace LineLexer

namespace EncryScript

/-! ### Forms -/

/-- `c` is a hexadecimal digit. -/
def isHexDigit (c : Char) : Bool := (hexDigit? c).isSome

/-- The integers: decimal ones without superfluous zeros, hexadecimal and binary ones. -/
inductive IsInteger : List Char → Prop where
  | zero : IsInteger ['0']
  | decimal {c : Char} {ds : List Char} : c.isDigit → c ≠ '0' → (∀ d ∈ ds, d.isDigit) →
      IsInteger (c :: ds)
  | hex {x : Char} {ds : List Char} : x ∈ ['x', 'X'] → ds ≠ [] → (∀ d ∈ ds, isHexDigit d) →
      IsInteger ('0' :: x :: ds)
  | binary {x : Char} {ds : List Char} : x ∈ ['b', 'B'] → ds ≠ [] → (∀ d ∈ ds, d ∈ ['0', '1']) →
      IsInteger ('0' :: x :: ds)

/-- The numbers with a point: digits after it, or digits in front of it. -/
inductive IsFloat : List Char → Prop where
  | fraction {front back : List Char} : (∀ d ∈ front, d.isDigit) → back ≠ [] →
      (∀ d ∈ back, d.isDigit) → IsFloat (front ++ '.' :: back)
  | whole {ds : List Char} : ds ≠ [] → (∀ d ∈ ds, d.isDigit) → IsFloat (ds ++ ['.'])

/-- The numbers; an integer may have a suffix. -/
inductive IsNumber : List Char → Prop where
  | integer {w : List Char} : IsInteger w → IsNumber w
  | long {w : List Char} {l : Char} : IsInteger w → l ∈ ['l', 'L'] → IsNumber (w ++ [l])
  | float {w : List Char} : IsFloat w → IsNumber w

/-- The escapes in a string. -/
inductive IsEscape : List Char → Prop where
  | hex {ds : List Char} : ds.length = 2 → (∀ d ∈ ds, isHexDigit d) → IsEscape ('\\' :: 'x' :: ds)
  | octal {ds : List Char} : ds.length = 3 → (∀ d ∈ ds, '0' ≤ d ∧ d ≤ '7') →
      IsEscape ('\\' :: ds)
  | char {c : Char} : c ∈ ['\\', 'a', 'b', 'f', 'n', 'r', 't', 'v', '\'', '"'] →
      IsEscape ['\\', c]
  | wide {ds : List Char} : ds.length = 8 → (∀ d ∈ ds, isHexDigit d) → IsEscape ('\\' :: 'U' :: ds)
  | unicode {ds : List Char} : ds.length = 4 → (∀ d ∈ ds, isHexDigit d) →
      IsEscape ('\\' :: 'u' :: ds)

namespace Grammar

open Pattern

variable {before : Option Char} {w after : List Char}

/-! ### Characters -/

/-- The characters in the ranges. -/
def rangeSet (ranges : List (Char × Char)) : CharSet :=
  ⟨ranges.map fun (lo, hi) => .range lo hi, false, false⟩

theorem inRanges_eq (ranges : List (Char × Char)) : inRanges ranges = .set (rangeSet ranges) := rfl

theorem holds_rangeSet (ranges : List (Char × Char)) (c : Char) :
    (rangeSet ranges).holds c = ranges.any fun (lo, hi) => lo ≤ c && c ≤ hi := by
  simp [rangeSet, CharSet.holds, CharItem.holds, Function.comp_def]

theorem holds_digit (c : Char) : (rangeSet [('0', '9')]).holds c = c.isDigit := by
  simp [holds_rangeSet, Char.isDigit, Char.le_def, UInt32.le_iff_toNat_le]

theorem holds_hexDigit (c : Char) :
    (rangeSet [('0', '9'), ('A', 'F'), ('a', 'f')]).holds c = isHexDigit c := by
  rw [holds_rangeSet, isHexDigit, hexDigit?]
  simp only [List.any_cons, List.any_nil, Bool.or_false]
  grind

theorem between_self (d c : Char) : (decide (d ≤ c) && decide (c ≤ d)) = (c == d) := by
  rw [Bool.eq_iff_iff, Bool.and_eq_true, decide_eq_true_eq, decide_eq_true_eq, beq_iff_eq]
  constructor
  · rintro ⟨hge, hle⟩
    exact Char.le_antisymm hle hge
  · rintro rfl
    exact ⟨Char.le_refl c, Char.le_refl c⟩

theorem between_upper (c : Char) : (decide ('A' ≤ c) && decide (c ≤ 'Z')) = c.isUpper :=
  (Bool.decide_and ('A' ≤ c) (c ≤ 'Z')).symm

theorem between_lower (c : Char) : (decide ('a' ≤ c) && decide (c ≤ 'z')) = c.isLower := rfl

theorem isAlpha_eq (c : Char) : c.isAlpha = (c.isUpper || c.isLower) := rfl

theorem holds_identifierStart (c : Char) :
    (rangeSet [('a', 'z'), ('A', 'Z'), ('$', '$'), ('_', '_')]).holds c = isIdentifierStart c := by
  simp only [holds_rangeSet, List.any_cons, List.any_nil, Bool.or_false, between_self,
    between_upper, between_lower, isIdentifierStart, isAlpha_eq]
  grind

theorem holds_identifierChar (c : Char) :
    (rangeSet [('a', 'z'), ('A', 'Z'), ('0', '9'), ('$', '$'), ('_', '_')]).holds c =
      isIdentifierChar c := by
  have hdigit : (decide ('0' ≤ c) && decide (c ≤ '9')) = c.isDigit := by
    simpa [holds_rangeSet] using holds_digit c
  simp only [holds_rangeSet, List.any_cons, List.any_nil, Bool.or_false, between_self,
    between_upper, between_lower, hdigit, isIdentifierChar, Char.isAlphanum, isAlpha_eq]
  grind

theorem holds_anyOf (cs : List Char) (c : Char) :
    (rangeSet (cs.map fun c => (c, c))).holds c = decide (c ∈ cs) := by
  rw [holds_rangeSet, List.any_map]
  simp only [Function.comp_def, between_self]
  rw [List.any_beq, List.contains_eq_mem]

theorem spells_anyOf {cs : List Char} :
    (anyOf cs).Spells before w after ↔ ∃ c ∈ cs, w = [c] := by
  rw [anyOf, inRanges_eq, spells_set]
  simp only [holds_anyOf, decide_eq_true_eq]

/-! ### Lexemes -/

theorem spells_digits : digits.Spells before w after ↔ w ≠ [] ∧ ∀ d ∈ w, d.isDigit := by
  rw [digits, digit, inRanges_eq, spells_plus_set]
  simp only [holds_digit]

theorem holds_nonzero (c : Char) : (rangeSet [('1', '9')]).holds c ↔ c.isDigit ∧ c ≠ '0' := by
  rw [holds_rangeSet, ne_eq, ← Char.toNat_inj]
  simp only [Char.isDigit, Char.le_def, UInt32.le_iff_toNat_le, List.any_cons, List.any_nil,
    Bool.or_false, Bool.and_eq_true, decide_eq_true_eq]
  show 49 ≤ c.toNat ∧ c.toNat ≤ 57 ↔ (48 ≤ c.toNat ∧ c.toNat ≤ 57) ∧ c.toNat ≠ 48
  omega

theorem spells_plus_anyOf {cs : List Char} :
    (plus true (anyOf cs)).Spells before w after ↔ w ≠ [] ∧ ∀ c ∈ w, c ∈ cs := by
  rw [anyOf, inRanges_eq, spells_plus_set]
  simp only [holds_anyOf, decide_eq_true_eq]

/-- **The pattern of integers.** -/
theorem spells_integer : integer.Spells before w after ↔ IsInteger w := by
  simp only [integer, spells_choice, List.mem_cons, List.not_mem_nil, or_false,
    exists_eq_or_imp, exists_eq_left, spells_alt, spells_char, digit, hexDigit, anyOf, inRanges_eq,
    spells_concat_set_cons, spells_concat_char_cons, spells_concat_singleton, spells_star_set,
    spells_plus_set, holds_digit, holds_hexDigit, holds_nonzero, holds_anyOf, decide_eq_true_eq]
  constructor
  · rintro ((⟨c, ds, rfl, ⟨hc, hne⟩, hds⟩ | rfl) | ⟨_, rfl, x, ds, rfl, hx, hne, hds⟩ |
      ⟨_, rfl, x, ds, rfl, hx, hne, hds⟩)
    · exact .decimal hc hne hds
    · exact .zero
    · exact .hex (by simpa using hx) hne hds
    · exact .binary (by simpa using hx) hne (by simpa using hds)
  · intro h
    cases h with
    | zero => exact .inl (.inr rfl)
    | decimal hc hne hds => exact .inl (.inl ⟨_, _, rfl, ⟨hc, hne⟩, hds⟩)
    | hex hx hne hds => exact .inr (.inl ⟨_, rfl, _, _, rfl, by simpa using hx, hne, hds⟩)
    | binary hx hne hds =>
      exact .inr (.inr ⟨_, rfl, _, _, rfl, by simpa using hx, hne, by simpa using hds⟩)

/-- **The pattern of numbers with a point.** -/
theorem spells_float : float.Spells before w after ↔ IsFloat w := by
  simp only [float, spells_alt, spells_concat_pair, spells_opt, spells_digits, spells_char]
  constructor
  · rintro (⟨front, _, rfl, hfront, _, back, rfl, rfl, hne, hback⟩ |
      ⟨ds, _, rfl, ⟨hne, hds⟩, rfl⟩)
    · refine .fraction ?_ hne hback
      rcases hfront with rfl | ⟨-, hfront⟩
      · simp
      · exact hfront
    · exact .whole hne hds
  · intro h
    cases h with
    | @fraction front back hfront hne hback =>
      refine .inl ⟨front, '.' :: back, rfl, ?_, ['.'], back, rfl, rfl, hne, hback⟩
      by_cases hnil : front = []
      · exact .inl hnil
      · exact .inr ⟨hnil, hfront⟩
    | whole hne hds => exact .inr ⟨_, _, rfl, ⟨hne, hds⟩, rfl⟩

/-- **The pattern of escapes.** -/
theorem spells_escape : escape.Spells before w after ↔ IsEscape w := by
  have hoctal (c : Char) : (rangeSet [('0', '7')]).holds c ↔ '0' ≤ c ∧ c ≤ '7' := by
    simp [holds_rangeSet]
  simp only [escape, spells_concat_char_cons, spells_concat_singleton, spells_choice, List.mem_cons,
    List.not_mem_nil, or_false, exists_eq_or_imp, exists_eq_left, hexDigit, inRanges_eq,
    spells_times_set, holds_hexDigit, hoctal]
  simp only [spells_anyOf]
  constructor
  · rintro ⟨v, rfl, ⟨ds, rfl, hlen, hds⟩ | ⟨hlen, hds⟩ | ⟨c, hc, rfl⟩ | ⟨ds, rfl, hlen, hds⟩ |
      ⟨ds, rfl, hlen, hds⟩⟩
    · exact .hex hlen hds
    · exact .octal hlen hds
    · exact .char hc
    · exact .wide hlen hds
    · exact .unicode hlen hds
  · intro h
    cases h with
    | hex hlen hds => exact ⟨_, rfl, .inl ⟨_, rfl, hlen, hds⟩⟩
    | octal hlen hds => exact ⟨_, rfl, .inr (.inl ⟨hlen, hds⟩)⟩
    | char hc => exact ⟨_, rfl, .inr (.inr (.inl ⟨_, hc, rfl⟩))⟩
    | wide hlen hds => exact ⟨_, rfl, .inr (.inr (.inr (.inl ⟨_, rfl, hlen, hds⟩)))⟩
    | unicode hlen hds => exact ⟨_, rfl, .inr (.inr (.inr (.inr ⟨_, rfl, hlen, hds⟩)))⟩

/-- **The pattern of identifiers** agrees with what a vocabulary takes for one. -/
theorem spells_identifier :
    (concat identifier).Spells before w after ↔ isIdentifier (String.ofList w) := by
  simp only [identifier, identifierStart, identifierChar, inRanges_eq, spells_concat_set_cons,
    spells_concat_singleton, spells_star_set, holds_identifierStart, holds_identifierChar,
    isIdentifier, String.toList_ofList]
  constructor
  · rintro ⟨c, cs, rfl, hc, hcs⟩
    simpa [hc] using hcs
  · intro h
    cases w with
    | nil => simp at h
    | cons c cs =>
      rw [Bool.and_eq_true, List.all_eq_true] at h
      exact ⟨c, cs, rfl, h.1, h.2⟩

theorem spells_operators :
    (oneOf (operators.map String.toList)).Spells before w after ↔ w ∈ operators.map String.toList :=
  spells_oneOf (by simp [operators])

theorem spells_blanks :
    (plus true blank).Spells before w after ↔ w ≠ [] ∧ ∀ c ∈ w, isBlank c := by
  rw [blank, spells_plus_set]
  simp [CharSet.holds, CharItem.holds, CharProperty.holds]

end Grammar

end EncryScript

end LineLexer
