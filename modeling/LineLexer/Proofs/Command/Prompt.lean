import Mathlib.Algebra.Group.Nat.Defs
import Mathlib.Data.List.Basic
import Mathlib.Data.List.Induction
import LineLexer.Command.Session

/-!
# What a prompt says

A prompt is the name of the state that the next line begins in, a colon, the number of that line
with zeros in front up to three digits, an angle bracket and a blank.  `Session.IsPrompt` says so of
a text by its characters, and `Session.prompt` is the one text of which it is true
(`Session.isPrompt_iff`).
-/

namespace LineLexer

/-- The digits write `n` for a prompt: there are three of them, or as many more as `n` takes. -/
structure Padded (n : Nat) (digits : List Char) : Prop where
  isDigit : ∀ c ∈ digits, c.isDigit
  value : Nat.ofDigitChars 10 digits 0 = n
  three_le : 3 ≤ digits.length
  pow_le : 3 < digits.length → 10 ^ (digits.length - 1) ≤ n

section

variable {n : Nat} {ds es : List Char}

theorem padded_leftpad (n : Nat) : Padded n (List.leftpad 3 '0' (Nat.toDigits 10 n)) where
  isDigit := by
    intro c hc
    rcases List.mem_append.1 hc with hzero | hdigit
    · rw [List.eq_of_mem_replicate hzero]
      rfl
    · exact Nat.isDigit_of_mem_toDigits (by decide) (by decide) hdigit
  value := by
    rw [List.leftpad, Nat.ofDigitChars_append, Nat.ofDigitChars_replicate_zero, Nat.mul_zero,
      Nat.ofDigitChars_ten_toDigits]
  three_le := by
    rw [List.length_leftpad]
    exact Nat.le_max_left _ _
  pow_le := by
    intro hlong
    rw [List.length_leftpad] at hlong ⊢
    refine Nat.le_of_not_lt fun hlt => ?_
    -- a number below the power has fewer digits
    have hlen := (Nat.length_toDigits_le_iff (by decide) (by omega)).2 hlt
    omega

/-! ### Digits of one value -/

theorem toNat_of_isDigit {c : Char} (hc : c.isDigit) :
    '0'.toNat ≤ c.toNat ∧ c.toNat < '0'.toNat + 10 := by
  simp only [Char.isDigit, Bool.and_eq_true, decide_eq_true_eq] at hc
  obtain ⟨hlo, hhi⟩ := hc
  exact ⟨UInt32.le_iff_toNat_le.1 hlo, Nat.lt_succ_of_le (UInt32.le_iff_toNat_le.1 hhi)⟩

theorem ofDigitChars_concat (ds : List Char) (c : Char) :
    Nat.ofDigitChars 10 (ds ++ [c]) 0 = 10 * Nat.ofDigitChars 10 ds 0 + (c.toNat - '0'.toNat) := by
  rw [Nat.ofDigitChars_append, Nat.ofDigitChars_cons, Nat.ofDigitChars_nil]

theorem ofDigitChars_lt (hds : ∀ c ∈ ds, c.isDigit) :
    Nat.ofDigitChars 10 ds 0 < 10 ^ ds.length := by
  induction ds using List.reverseRecOn with
  | nil => simp
  | append_singleton ds c ih =>
    simp only [List.forall_mem_append, List.forall_mem_singleton] at hds
    have hfront := ih hds.1
    have hlast := toNat_of_isDigit hds.2
    rw [ofDigitChars_concat, List.length_append, List.length_singleton, Nat.pow_succ]
    omega

/-- Equally many digits of one value are the same digits. -/
theorem eq_of_ofDigitChars_eq (hds : ∀ c ∈ ds, c.isDigit) (hes : ∀ c ∈ es, c.isDigit)
    (hlen : ds.length = es.length)
    (hval : Nat.ofDigitChars 10 ds 0 = Nat.ofDigitChars 10 es 0) : ds = es := by
  induction ds using List.reverseRecOn generalizing es with
  | nil => exact (List.length_eq_zero_iff.1 hlen.symm).symm
  | append_singleton ds c ih =>
    obtain rfl | ⟨es, d, rfl⟩ := List.eq_nil_or_concat' es
    · simp at hlen
    simp only [List.forall_mem_append, List.forall_mem_singleton] at hds hes
    replace hlen : ds.length = es.length := by simpa using hlen
    have hc := toNat_of_isDigit hds.2
    have hd := toNat_of_isDigit hes.2
    rw [ofDigitChars_concat, ofDigitChars_concat] at hval
    have hcd : c = d := Char.toNat_inj.1 (by omega)
    rw [ih hds.1 hes.1 hlen (by omega), hcd]

namespace Padded

theorem length_le (hds : Padded n ds) (hes : Padded n es) : ds.length ≤ es.length := by
  refine Nat.le_of_not_lt fun hlt => ?_
  have hpow := hds.pow_le (Nat.lt_of_le_of_lt hes.three_le hlt)
  have hval := ofDigitChars_lt hes.isDigit
  rw [hes.value] at hval
  have hlen := (Nat.pow_lt_pow_iff_right (by decide)).1 (Nat.lt_of_le_of_lt hpow hval)
  omega

/-- A number is padded in one way only. -/
theorem unique (hds : Padded n ds) (hes : Padded n es) : ds = es :=
  eq_of_ofDigitChars_eq hds.isDigit hes.isDigit
    (Nat.le_antisymm (hds.length_le hes) (hes.length_le hds)) (hds.value.trans hes.value.symm)

end Padded

end

namespace Session

/-- The text asks for the next line of the session. -/
def IsPrompt (s : Session) (text : String) : Prop :=
  ∃ digits, Padded s.number digits ∧
    text = s.state.name ++ ":" ++ String.ofList digits ++ "> "

/-- **What a prompt says**, and that nothing else says it. -/
theorem isPrompt_iff {s : Session} {text : String} : s.IsPrompt text ↔ text = s.prompt := by
  constructor
  · rintro ⟨digits, hdigits, rfl⟩
    rw [prompt, hdigits.unique (padded_leftpad s.number)]
  · rintro rfl
    exact ⟨_, padded_leftpad s.number, rfl⟩

end Session

end LineLexer
