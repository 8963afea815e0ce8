import Mathlib.Data.List.DropRight
import LineLexer.Proofs.EncryScript.Lexemes
import LineLexer.Proofs.Pattern.Longest

/-!
# Where words end

A word is an identifier that ends at the edge of an ASCII word.  The dollar sign does not belong to
such words although it can stand in an identifier: a word ends in front of the dollar signs at the
end of the identifier (`Grammar.longest_wholeWord`), and dollar signs alone are no word
(`Grammar.not_spells_wholeWord`).
-/

namespace LineLexer

/-! ### Identifiers -/

theorem isIdentifierChar_of_isIdentifierStart {c : Char} (h : isIdentifierStart c) :
    isIdentifierChar c := by
  simp only [isIdentifierStart, Bool.or_eq_true] at h
  simp only [isIdentifierChar, Char.isAlphanum, Bool.or_eq_true]
  tauto

theorem isIdentifier_iff {w : List Char} : isIdentifier (String.ofList w) ↔
    ∃ c cs, w = c :: cs ∧ isIdentifierStart c ∧ ∀ d ∈ cs, isIdentifierChar d := by
  rw [isIdentifier, String.toList_ofList]
  cases w with
  | nil => simp
  | cons c cs =>
    rw [Bool.and_eq_true, List.all_eq_true]
    constructor
    · rintro ⟨hc, hcs⟩
      exact ⟨c, cs, rfl, hc, hcs⟩
    · rintro ⟨_, _, h, hc, hcs⟩
      obtain ⟨rfl, rfl⟩ := List.cons.inj h
      exact ⟨hc, hcs⟩

theorem ne_nil_of_isIdentifier {w : List Char} (h : isIdentifier (String.ofList w)) : w ≠ [] := by
  obtain ⟨c, cs, rfl, -⟩ := isIdentifier_iff.1 h
  exact List.cons_ne_nil c cs

theorem ne_empty_of_isIdentifier {w : String} (h : isIdentifier w) : w ≠ "" := by
  rintro rfl
  simp [isIdentifier] at h

theorem forall_isIdentifierChar {w : List Char} (h : isIdentifier (String.ofList w)) :
    ∀ c ∈ w, isIdentifierChar c := by
  obtain ⟨c, cs, rfl, hc, hcs⟩ := isIdentifier_iff.1 h
  exact List.forall_mem_cons.2 ⟨isIdentifierChar_of_isIdentifierStart hc, hcs⟩

theorem isIdentifier_append {u v : List Char} (hu : isIdentifier (String.ofList u))
    (hv : ∀ c ∈ v, isIdentifierChar c) : isIdentifier (String.ofList (u ++ v)) := by
  obtain ⟨c, cs, rfl, hc, hcs⟩ := isIdentifier_iff.1 hu
  refine isIdentifier_iff.2 ⟨c, cs ++ v, rfl, hc, ?_⟩
  intro d hd
  rcases List.mem_append.1 hd with hd | hd
  · exact hcs d hd
  · exact hv d hd

/-- An identifier without its end is an identifier, if something is left. -/
theorem isIdentifier_of_append {u v : List Char} (h : isIdentifier (String.ofList (u ++ v)))
    (hu : u ≠ []) : isIdentifier (String.ofList u) := by
  obtain ⟨c, cs, rfl⟩ := List.exists_cons_of_ne_nil hu
  obtain ⟨d, ds, heq, hd, hds⟩ := isIdentifier_iff.1 h
  obtain ⟨rfl, rfl⟩ := List.cons.inj heq
  exact isIdentifier_iff.2 ⟨c, cs, rfl, hd, fun e he => hds e (List.mem_append_left v he)⟩

theorem toNat_lt_of_isIdentifierChar {c : Char} (h : isIdentifierChar c) : c.toNat < 128 := by
  simp only [isIdentifierChar, Char.isAlphanum, Char.isDigit, EncryScript.Grammar.isAlpha_eq,
    ← EncryScript.Grammar.between_upper, ← EncryScript.Grammar.between_lower, Bool.or_eq_true,
    Bool.and_eq_true, decide_eq_true_eq, beq_iff_eq, Char.le_def, UInt32.le_iff_toNat_le,
    ge_iff_le] at h
  rcases h with ((((⟨-, hle⟩ | ⟨-, hle⟩) | ⟨-, hle⟩) | rfl) | rfl)
  · exact Nat.lt_of_le_of_lt hle (by decide)
  · exact Nat.lt_of_le_of_lt hle (by decide)
  · exact Nat.lt_of_le_of_lt hle (by decide)
  · decide
  · decide

/-- An identifier has one byte for each character. -/
theorem byteSize_eq_length {w : List Char} (h : ∀ c ∈ w, isIdentifierChar c) :
    byteSize w = w.length := by
  induction w with
  | nil => rfl
  | cons c cs ih =>
    obtain ⟨hc, hcs⟩ := List.forall_mem_cons.1 h
    have hlt := toNat_lt_of_isIdentifierChar hc
    have hsize : c.utf8Size = 1 := by
      rw [Char.utf8Size_eq_one_iff, UInt32.le_iff_toNat_le]
      exact Nat.le_of_lt_succ hlt
    rw [byteSize_cons, ih hcs, hsize, List.length_cons, Nat.add_comm]

theorem not_isAsciiWordChar_of_not_isIdentifierChar {c : Char} (h : isIdentifierChar c = false) :
    isAsciiWordChar c = false := by
  simp only [isIdentifierChar, Bool.or_eq_false_iff] at h
  simp only [isAsciiWordChar, Bool.or_eq_false_iff]
  exact ⟨h.1.1, h.2⟩

namespace EncryScript

namespace Grammar

open Pattern

variable {w rest after : List Char}

/-! ### Words -/

/-- The pattern of a word. -/
def wholeWord : Pattern := .concat (identifier ++ [wordEdge])

theorem descending_wholeWord : wholeWord.Descending :=
  .seq_of_single (single_set _) ((single_set _).descending_star.seq_look _)

theorem isPlain_wholeWord : wholeWord.isPlain := rfl

theorem spells_wholeWord : wholeWord.Spells none w after ↔
    isIdentifier (String.ofList w) ∧ Look.asciiWordEdge.holds w.getLast? after.head? := by
  rw [wholeWord, wordEdge, spells_concat_append_look, spells_identifier, Option.or_none]

/-- **No word follows a word at once**: the two would have been one. -/
theorem not_spells_of_longest {text u after' : List Char} (h : wholeWord.Longest text w (u ++ after'))
    : ¬ wholeWord.Spells none u after' := by
  intro hu
  obtain ⟨hw, -⟩ := spells_wholeWord.1 h.spells
  obtain ⟨hid, hedge⟩ := spells_wholeWord.1 hu
  have hne := ne_nil_of_isIdentifier hid
  have hboth : wholeWord.Spells none (w ++ u) after' := by
    refine spells_wholeWord.2 ⟨isIdentifier_append hw (forall_isIdentifierChar hid), ?_⟩
    rwa [List.getLast?_append_of_ne_nil w hne]
  have hle := h.longest (w ++ u) after' (by rw [h.text_eq, List.append_assoc]) hboth
  have hpos := List.length_pos_iff.2 hne
  rw [List.length_append] at hle
  omega

/-- An identifier without the dollar signs at its end. -/
def core (w : List Char) : List Char := w.rdropWhile (· == '$')

/-- The dollar signs at the end of an identifier. -/
def dollars (w : List Char) : List Char := w.rtakeWhile (· == '$')

theorem core_append_dollars (w : List Char) : core w ++ dollars w = w :=
  List.rdropWhile_append_rtakeWhile

theorem eq_dollar_of_mem_dollars {c : Char} (h : c ∈ dollars w) : c = '$' := by
  simpa using List.mem_rtakeWhile_imp h

theorem dollars_eq_nil_iff : dollars w = [] ↔ w.getLast? ≠ some '$' := by
  rw [dollars, List.rtakeWhile_eq_nil_iff]
  constructor
  · intro h hlast
    have hne : w ≠ [] := by
      rintro rfl
      simp at hlast
    rw [List.getLast?_eq_some_getLast hne] at hlast
    exact h hne (beq_iff_eq.2 (Option.some.inj hlast))
  · intro h hne hlast
    refine h ?_
    rw [List.getLast?_eq_some_getLast hne, beq_iff_eq.1 hlast]

theorem core_eq_nil_iff : core w = [] ↔ ∀ c ∈ w, c = '$' := by
  rw [core, List.rdropWhile_eq_nil_iff]
  simp only [beq_iff_eq]

theorem isAsciiWordChar_dollar : isAsciiWordChar '$' = false := by decide

/-- The core of an identifier ends in an ASCII word character. -/
theorem any_isAsciiWordChar_core (hw : ∀ c ∈ w, isIdentifierChar c) (hcore : core w ≠ []) :
    (core w).getLast?.any isAsciiWordChar := by
  rw [List.getLast?_eq_some_getLast hcore, Option.any_some]
  have hne := List.rdropWhile_last_not (· == '$') w hcore
  have hfront : core w <+: w := ⟨dollars w, core_append_dollars w⟩
  have hchar := hw _ (hfront.subset (List.getLast_mem hcore))
  simp only [isIdentifierChar, Bool.or_eq_true] at hchar
  simp only [isAsciiWordChar, Bool.or_eq_true]
  rcases hchar with (hchar | hchar) | hchar
  · exact .inl hchar
  · exact absurd hchar hne
  · exact .inr hchar

theorem any_isAsciiWordChar_behind {v : List Char} (hv : ∀ c ∈ v, c = '$')
    (hrest : ∀ c ∈ rest.head?, isIdentifierChar c = false) :
    (v ++ rest).head?.any isAsciiWordChar = false := by
  cases v with
  | nil =>
    rw [List.nil_append]
    cases hhead : rest.head? with
    | none => rfl
    | some c => exact not_isAsciiWordChar_of_not_isIdentifierChar (hrest c hhead)
  | cons c v =>
    obtain rfl := hv c List.mem_cons_self
    exact isAsciiWordChar_dollar

/-- A word at the front of an identifier does not reach into the dollar signs at its end. -/
theorem length_le_core {u : List Char} (hw : ∀ c ∈ w, isIdentifierChar c)
    (hrest : ∀ c ∈ rest.head?, isIdentifierChar c = false) (htext : w ++ rest = u ++ after)
    (hu : wholeWord.Spells none u after) : u.length ≤ (core w).length := by
  obtain ⟨hid, hedge⟩ := spells_wholeWord.1 hu
  obtain ⟨v, hv, rfl⟩ := exists_append_of_run htext hw hrest (forall_isIdentifierChar hid)
  by_contra hlt
  have hsplit : core w ++ dollars w = u ++ v := (core_append_dollars w).trans hv
  obtain ⟨d, rfl⟩ : core w <+: u :=
    List.prefix_of_prefix_length_le ⟨_, hsplit⟩ (List.prefix_append u v) (by omega)
  rw [List.append_assoc] at hsplit
  have hdollars : dollars w = d ++ v := List.append_cancel_left hsplit
  have hd : d ≠ [] := by
    rintro rfl
    simp at hlt
  -- there is no ASCII word character on either side of the end of `u`
  have hsigns : ∀ c ∈ d ++ v, c = '$' := by
    intro c hc
    rw [← hdollars] at hc
    exact eq_dollar_of_mem_dollars hc
  have hlast : (core w ++ d).getLast?.any isAsciiWordChar = false := by
    have hsign := hsigns _ (List.mem_append_left v (List.getLast_mem hd))
    rw [List.getLast?_append_of_ne_nil _ hd, List.getLast?_eq_some_getLast hd, hsign]
    exact isAsciiWordChar_dollar
  have hhead : (v ++ rest).head?.any isAsciiWordChar = false :=
    any_isAsciiWordChar_behind (fun c hc => hsigns c (List.mem_append_right d hc)) hrest
  rw [Look.holds, Look.edge, hlast, hhead] at hedge
  simp at hedge

/-- **A word ends in front of the dollar signs at the end of its identifier.** -/
theorem longest_wholeWord (hw : isIdentifier (String.ofList w))
    (hrest : ∀ c ∈ rest.head?, isIdentifierChar c = false) (hcore : core w ≠ []) :
    wholeWord.Longest (w ++ rest) (core w) (dollars w ++ rest) := by
  have hchars := forall_isIdentifierChar hw
  refine ⟨?_, spells_wholeWord.2 ⟨?_, ?_⟩, ?_⟩
  · rw [← List.append_assoc, core_append_dollars]
  · rw [← core_append_dollars w] at hw
    exact isIdentifier_of_append hw hcore
  · rw [Look.holds, Look.edge, any_isAsciiWordChar_core hchars hcore,
      any_isAsciiWordChar_behind (fun c hc => eq_dollar_of_mem_dollars hc) hrest]
    rfl
  · intro u after' htext hu
    exact length_le_core hchars hrest htext hu

/-- **Dollar signs alone are no word.** -/
theorem not_spells_wholeWord {u : List Char} (hw : ∀ c ∈ w, c = '$')
    (hrest : ∀ c ∈ rest.head?, isIdentifierChar c = false) (htext : w ++ rest = u ++ after) :
    ¬ wholeWord.Spells none u after := by
  intro hu
  have hchars : ∀ c ∈ w, isIdentifierChar c := by
    intro c hc
    rw [hw c hc]
    decide
  have hle := length_le_core hchars hrest htext hu
  have hpos := List.length_pos_iff.2 (ne_nil_of_isIdentifier (spells_wholeWord.1 hu).1)
  rw [core_eq_nil_iff.2 hw, List.length_nil] at hle
  omega

end Grammar

end EncryScript

end LineLexer
