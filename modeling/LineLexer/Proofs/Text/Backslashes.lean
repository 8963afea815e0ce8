import Mathlib.Algebra.Group.Nat.Even
import Mathlib.Data.List.DropRight
import Mathlib.Data.List.Basic

/-!
# Backslashes in front of quotes

A quote closes the text in front of it if the number of backslashes between the two is even
(`ClosedBy`).  Read from the left this means that a backslash takes the character behind it along,
whatever that is: the text in front of the closing quote is `Within` the quotes
(`closedBy_iff`), and a text that no quote closes is within them up to a last backslash that has no
character to take along (`exists_within_of_not_closedBy`).
-/

namespace LineLexer

/-- The number of backslashes that a text ends in. -/
def finalBackslashes (cs : List Char) : Nat := (cs.rtakeWhile (· == '\\')).length

/-- The text is closed by the quote between `front` and `rest`: it is the first one with an even
number of backslashes in front of it. -/
structure ClosedBy (quote : Char) (text front rest : List Char) : Prop where
  text_eq : text = front ++ quote :: rest
  even : Even (finalBackslashes front)
  first : ∀ front' rest', text = front' ++ quote :: rest' → Even (finalBackslashes front') →
    front.length ≤ front'.length

/-- The text stays within the quotes: it consists of characters that are neither the quote nor a
backslash, and of backslashes with one character behind each. -/
inductive Within (quote : Char) : List Char → Prop where
  | nil : Within quote []
  | plain {c : Char} {cs : List Char} : c ≠ quote → c ≠ '\\' → Within quote cs →
      Within quote (c :: cs)
  | pair {c : Char} {cs : List Char} : Within quote cs → Within quote ('\\' :: c :: cs)

variable {quote : Char} {text front rest u v w : List Char}

/-! ### Parity -/

@[simp] theorem finalBackslashes_nil : finalBackslashes [] = 0 := rfl

theorem finalBackslashes_append_of_forall (u : List Char) (h : ∀ c ∈ v, c = '\\') :
    finalBackslashes (u ++ v) = finalBackslashes u + v.length := by
  simp only [finalBackslashes, List.rtakeWhile, List.length_reverse, List.reverse_append]
  rw [List.takeWhile_append_of_pos (by simpa using h), List.length_append, List.length_reverse,
    Nat.add_comm]

theorem finalBackslashes_append_of_exists (u : List Char) (h : ∃ c ∈ v, c ≠ '\\') :
    finalBackslashes (u ++ v) = finalBackslashes v := by
  simp only [finalBackslashes, List.rtakeWhile, List.length_reverse, List.reverse_append]
  have hshort : (v.reverse.takeWhile (· == '\\')).length ≠ v.reverse.length := by
    intro hlen
    have hall := List.takeWhile_eq_self_iff.1 ((List.takeWhile_prefix _).eq_of_length hlen)
    obtain ⟨c, hc, hne⟩ := h
    exact hne (eq_of_beq (hall c (List.mem_reverse.2 hc)))
  rw [List.takeWhile_append, if_neg hshort]

/-- An even number of backslashes in front of a text does not count. -/
theorem even_finalBackslashes_append (hu : Even (finalBackslashes u)) :
    Even (finalBackslashes (u ++ v)) ↔ Even (finalBackslashes v) := by
  by_cases h : ∃ c ∈ v, c ≠ '\\'
  · rw [finalBackslashes_append_of_exists u h]
  · have hall : ∀ c ∈ v, c = '\\' := by simpa using h
    have hv : finalBackslashes v = v.length := by
      simpa using finalBackslashes_append_of_forall [] hall
    rw [finalBackslashes_append_of_forall u hall, hv, Nat.even_add, iff_true_left hu]

theorem even_finalBackslashes_nil : Even (finalBackslashes []) := by decide

theorem even_finalBackslashes_singleton {c : Char} (hc : c ≠ '\\') :
    Even (finalBackslashes [c]) := by
  rw [finalBackslashes, List.rtakeWhile_eq_nil_iff.2 (by simpa using hc)]
  decide

theorem even_finalBackslashes_of_forall (h : ∀ c ∈ w, c ≠ '\\') : Even (finalBackslashes w) := by
  induction w with
  | nil => exact even_finalBackslashes_nil
  | cons c cs ih =>
    obtain ⟨hc, hcs⟩ := List.forall_mem_cons.1 h
    exact (even_finalBackslashes_append (even_finalBackslashes_singleton hc)).2 (ih hcs)

theorem even_finalBackslashes_pair (c : Char) : Even (finalBackslashes ['\\', c]) := by
  by_cases hc : c = '\\'
  · subst hc
    decide
  · have hpair := finalBackslashes_append_of_exists ['\\'] ⟨c, List.mem_singleton_self c, hc⟩
    rw [List.singleton_append] at hpair
    rw [hpair]
    exact even_finalBackslashes_singleton hc

theorem Within.even (h : Within quote w) : Even (finalBackslashes w) := by
  induction h with
  | nil => exact even_finalBackslashes_nil
  | @plain c cs _ hslash _ ih =>
    exact (even_finalBackslashes_append (even_finalBackslashes_singleton hslash)).2 ih
  | @pair c cs _ ih => exact (even_finalBackslashes_append (even_finalBackslashes_pair c)).2 ih

/-- A quote within the quotes has an odd number of backslashes in front of it. -/
theorem Within.not_even (hquote : quote ≠ '\\') (h : Within quote w)
    (hw : w = front ++ quote :: rest) : ¬ Even (finalBackslashes front) := by
  induction h generalizing front with
  | nil => simp at hw
  | @plain c cs hc hslash _ ih =>
    cases front with
    | nil => exact absurd (List.cons.inj hw).1 hc
    | cons d front =>
      obtain ⟨rfl, hcs⟩ := List.cons.inj hw
      have hone := even_finalBackslashes_append (v := front)
        (even_finalBackslashes_singleton hslash)
      rw [List.singleton_append] at hone
      rw [hone]
      exact ih hcs
  | @pair c cs _ ih =>
    match front with
    | [] => exact absurd (List.cons.inj hw).1 hquote.symm
    | [d] =>
      obtain rfl := (List.cons.inj hw).1
      decide
    | d :: e :: front =>
      obtain ⟨rfl, htail⟩ := List.cons.inj hw
      obtain ⟨rfl, hcs⟩ := List.cons.inj htail
      have htwo := even_finalBackslashes_append (v := front) (even_finalBackslashes_pair c)
      rw [List.cons_append, List.singleton_append] at htwo
      rw [htwo]
      exact ih hcs

/-- What is within the quotes stays so without characters in front of it that are neither quotes
nor backslashes. -/
theorem Within.exists_append_of_plain {ds tail after : List Char} (hw : Within quote w)
    (htail : ∀ c ∈ tail.head?, c = quote ∨ c = '\\') (hds : ∀ d ∈ ds, d ≠ quote ∧ d ≠ '\\')
    (htext : w ++ tail = ds ++ after) : ∃ w', w = ds ++ w' ∧ Within quote w' := by
  induction ds generalizing w with
  | nil => exact ⟨w, rfl, hw⟩
  | cons d ds ih =>
    obtain ⟨⟨hd, hslash⟩, hplain⟩ := List.forall_mem_cons.1 hds
    cases hw with
    | nil =>
      rw [List.nil_append] at htext
      rw [htext] at htail
      rcases htail d rfl with rfl | rfl <;> contradiction
    | plain _ _ hcs =>
      obtain ⟨rfl, hrest⟩ := List.cons.inj htext
      obtain ⟨w', rfl, hw'⟩ := ih hcs hplain hrest
      exact ⟨w', rfl, hw'⟩
    | pair => exact absurd (List.cons.inj htext).1.symm hslash

/-! ### Where a text leaves the quotes -/

/-- Every text is within the quotes up to its end, up to a last backslash or up to a quote. -/
theorem exists_within (quote : Char) : ∀ text : List Char, ∃ w tail, text = w ++ tail ∧
    Within quote w ∧ (tail = [] ∨ tail = ['\\'] ∨ ∃ rest, tail = quote :: rest)
  | [] => ⟨[], [], rfl, .nil, .inl rfl⟩
  | [c] => by
    by_cases hquote : c = quote
    · exact ⟨[], [c], rfl, .nil, .inr (.inr ⟨[], hquote ▸ rfl⟩)⟩
    by_cases hslash : c = '\\'
    · exact ⟨[], [c], rfl, .nil, .inr (.inl (hslash ▸ rfl))⟩
    · exact ⟨[c], [], rfl, .plain hquote hslash .nil, .inl rfl⟩
  | c :: d :: cs => by
    by_cases hquote : c = quote
    · exact ⟨[], c :: d :: cs, rfl, .nil, .inr (.inr ⟨d :: cs, hquote ▸ rfl⟩)⟩
    by_cases hslash : c = '\\'
    · obtain ⟨w, tail, rfl, hw, htail⟩ := exists_within quote cs
      subst hslash
      exact ⟨_, tail, rfl, .pair hw, htail⟩
    · obtain ⟨w, tail, hsplit, hw, htail⟩ := exists_within quote (d :: cs)
      exact ⟨c :: w, tail, by rw [hsplit, List.cons_append], .plain hquote hslash hw, htail⟩

/-- A quote with an even number of backslashes in front of it stands behind what is within the
quotes. -/
theorem Within.exists_append {tail : List Char} (hquote : quote ≠ '\\') (h : Within quote w)
    (htext : w ++ tail = front ++ quote :: rest) (heven : Even (finalBackslashes front)) :
    ∃ u, front = w ++ u ∧ tail = u ++ quote :: rest := by
  rcases List.append_eq_append_iff.1 htext with hbehind | ⟨u, hw, hu⟩
  · exact hbehind
  · cases u with
    | nil => exact ⟨[], by rw [hw, List.append_nil, List.append_nil], hu.symm⟩
    | cons c u =>
      obtain ⟨rfl, -⟩ := List.cons.inj hu
      exact absurd heven (h.not_even hquote hw)

theorem Within.closedBy (hquote : quote ≠ '\\') (h : Within quote w) (rest : List Char) :
    ClosedBy quote (w ++ quote :: rest) w rest := by
  refine ⟨rfl, h.even, ?_⟩
  intro front' rest' htext heven
  obtain ⟨u, rfl, -⟩ := h.exists_append hquote htext heven
  rw [List.length_append]
  exact Nat.le_add_right _ _

/-- **A quote closes a text exactly if the text in front of it is within the quotes.** -/
theorem closedBy_iff (hquote : quote ≠ '\\') :
    ClosedBy quote text front rest ↔ text = front ++ quote :: rest ∧ Within quote front := by
  constructor
  · rintro ⟨htext, heven, hfirst⟩
    refine ⟨htext, ?_⟩
    obtain ⟨w, tail, hsplit, hw, htail⟩ := exists_within quote text
    obtain ⟨u, rfl, hu⟩ := hw.exists_append hquote (hsplit.symm.trans htext) heven
    rcases htail with rfl | rfl | ⟨rest', rfl⟩
    · simp at hu
    · obtain ⟨rfl, hslash⟩ : u = [] ∧ '\\' = quote := by
        cases u with
        | nil => exact ⟨rfl, (List.cons.inj hu).1⟩
        | cons c u => simp at hu
      exact absurd hslash.symm hquote
    · -- the quote behind `w` would be the first one
      have hle := hfirst w rest' hsplit hw.even
      rw [List.length_append] at hle
      obtain rfl : u = [] := List.length_eq_zero_iff.1 (by omega)
      rwa [List.append_nil]
  · rintro ⟨rfl, hfront⟩
    exact hfront.closedBy hquote rest

/-- **A text that no quote closes** is within the quotes, or is so up to a last backslash. -/
theorem exists_within_of_not_closedBy (hquote : quote ≠ '\\')
    (h : ∀ front rest, ¬ ClosedBy quote text front rest) :
    ∃ w, Within quote w ∧ (text = w ∧ Even (finalBackslashes text) ∨
      text = w ++ ['\\'] ∧ ¬ Even (finalBackslashes text)) := by
  obtain ⟨w, tail, rfl, hw, rfl | rfl | ⟨rest, rfl⟩⟩ := exists_within quote text
  · rw [List.append_nil]
    exact ⟨w, hw, .inl ⟨rfl, hw.even⟩⟩
  · refine ⟨w, hw, .inr ⟨rfl, ?_⟩⟩
    rw [even_finalBackslashes_append hw.even]
    decide
  · exact absurd (hw.closedBy hquote rest) (h w rest)

end LineLexer
