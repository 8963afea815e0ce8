import LineLexer.Proofs.EncryScript.Recognition
import LineLexer.Proofs.EncryScript.Total
import LineLexer.Proofs.Scan.Handover

/-!
# Numbers are kept whole

A number at the start of a line is one token, whatever comes behind it, unless that could go on the
number: a character of an ASCII word or a point (`EncryScript.scanLine_number`).  An integer is an
ASCII word, so the rules of integers can only take all of it (`eq_of_wordEdge`), and neither a
fraction nor a suffix is found in it; a number with a point is the longest one that its rule can
take (`longest_float`).
-/

namespace LineLexer

namespace EncryScript

open Pattern Grammar

/-- Nothing goes on a number in front of the text. -/
def EndsNumber (rest : List Char) : Prop := ∀ c ∈ rest.head?, isAsciiWordChar c = false ∧ c ≠ '.'

/-! ### The characters of numbers -/

variable {n w u rest after : List Char}

theorem isHexDigit_iff {c : Char} :
    isHexDigit c ↔ c.isDigit ∨ ('A' ≤ c ∧ c ≤ 'F') ∨ 'a' ≤ c ∧ c ≤ 'f' := by
  have hdigit : ('0' ≤ c ∧ c ≤ '9') ↔ c.isDigit := by
    simpa [holds_rangeSet] using (Bool.eq_iff_iff.1 (holds_digit c))
  rw [← hdigit, ← holds_hexDigit, holds_rangeSet]
  simp

theorem isAsciiWordChar_of_isHexDigit {c : Char} (h : isHexDigit c) : isAsciiWordChar c := by
  rw [isAsciiWordChar, Char.isAlphanum, isAlpha_eq, ← between_upper, ← between_lower]
  rcases isHexDigit_iff.1 h with h | ⟨hlo, hhi⟩ | ⟨hlo, hhi⟩
  · simp [h]
  · have hle : c ≤ 'Z' := hhi.trans (by decide)
    simp [hlo, hle]
  · have hle : c ≤ 'z' := hhi.trans (by decide)
    simp [hlo, hle]

/-- The characters of an integer; the letter of a binary number is a hexadecimal digit, too. -/
theorem IsInteger.forall_char (h : IsInteger w) : ∀ c ∈ w, isHexDigit c ∨ c ∈ ['x', 'X'] := by
  cases h with
  | zero => exact List.forall_mem_singleton.2 (.inl (by decide))
  | decimal hc _ hds =>
    refine List.forall_mem_cons.2 ⟨.inl (isHexDigit_iff.2 (.inl hc)), ?_⟩
    exact fun d hd => .inl (isHexDigit_iff.2 (.inl (hds d hd)))
  | hex hx _ hds =>
    refine List.forall_mem_cons.2 ⟨by decide, List.forall_mem_cons.2 ⟨.inr hx, ?_⟩⟩
    exact fun d hd => .inl (hds d hd)
  | binary hx _ hds =>
    have hletter : ∀ x ∈ ['b', 'B'], isHexDigit x := List.all_eq_true.1 (by decide)
    have hbit : ∀ d ∈ ['0', '1'], isHexDigit d := List.all_eq_true.1 (by decide)
    refine List.forall_mem_cons.2 ⟨by decide, List.forall_mem_cons.2 ⟨.inl (hletter _ hx), ?_⟩⟩
    exact fun d hd => .inl (hbit d (hds d hd))

theorem IsInteger.forall_isAsciiWordChar (h : IsInteger w) : ∀ c ∈ w, isAsciiWordChar c := by
  have hletter : ∀ x ∈ ['x', 'X'], isAsciiWordChar x := List.all_eq_true.1 (by decide)
  intro c hc
  rcases h.forall_char c hc with hc | hc
  · exact isAsciiWordChar_of_isHexDigit hc
  · exact hletter c hc

/-- No integer has a suffix in it. -/
theorem IsInteger.not_mem (h : IsInteger w) {l : Char} (hl : l ∈ ['l', 'L']) : l ∉ w := by
  have hsuffix : ∀ l ∈ ['l', 'L'], ¬ (isHexDigit l ∨ l ∈ ['x', 'X']) :=
    List.forall_mem_cons.2 ⟨by decide, List.forall_mem_singleton.2 (by decide)⟩
  intro hmem
  exact hsuffix l hl (h.forall_char l hmem)

/-- An integer begins with a digit. -/
theorem IsInteger.exists_eq (h : IsInteger w) : ∃ c cs, w = c :: cs ∧ c.isDigit := by
  cases h with
  | zero => exact ⟨_, _, rfl, by decide⟩
  | decimal hc => exact ⟨_, _, rfl, hc⟩
  | hex => exact ⟨_, _, rfl, by decide⟩
  | binary => exact ⟨_, _, rfl, by decide⟩

/-- A number with a point is digits on both sides of the point. -/
theorem IsFloat.exists_eq (h : IsFloat w) : ∃ front back, w = front ++ '.' :: back ∧
    (∀ d ∈ front, d.isDigit) ∧ ∀ d ∈ back, d.isDigit := by
  cases h with
  | fraction hfront _ hback => exact ⟨_, _, rfl, hfront, hback⟩
  | whole _ hds => exact ⟨_, [], rfl, hds, by simp⟩

/-- A number begins with a digit or a point. -/
theorem IsNumber.exists_eq (h : IsNumber w) : ∃ c cs, w = c :: cs ∧ (c.isDigit ∨ c = '.') := by
  cases h with
  | integer h =>
    obtain ⟨c, cs, rfl, hc⟩ := h.exists_eq
    exact ⟨c, cs, rfl, .inl hc⟩
  | long h _ =>
    obtain ⟨c, cs, rfl, hc⟩ := h.exists_eq
    exact ⟨c, _, rfl, .inl hc⟩
  | float h =>
    obtain ⟨front, back, rfl, hfront, -⟩ := h.exists_eq
    cases front with
    | nil => exact ⟨_, _, rfl, .inr rfl⟩
    | cons c cs => exact ⟨c, _, rfl, .inl (hfront c List.mem_cons_self)⟩

/-! ### Integers -/

/-- **A text that ends at the edge of a word is all of the ASCII word** that stands there. -/
theorem eq_of_wordEdge (hw : ∀ c ∈ w, isAsciiWordChar c)
    (hrest : ∀ c ∈ rest.head?, isAsciiWordChar c = false) (hu : ∀ c ∈ u, isAsciiWordChar c)
    (hne : u ≠ []) (hedge : Look.asciiWordEdge.holds u.getLast? after.head?)
    (htext : w ++ rest = u ++ after) : w = u ∧ rest = after := by
  refine eq_of_run htext hw hrest hu ?_
  intro c hc
  have hlast : u.getLast?.any isAsciiWordChar := by
    rw [List.getLast?_eq_some_getLast hne, Option.any_some]
    exact hu _ (List.getLast_mem hne)
  rw [Option.mem_def] at hc
  rw [Look.holds, Look.edge, hlast, hc, Option.any_some] at hedge
  simpa using hedge

/-- No number with a point is found in an ASCII word. -/
theorem not_isFloat_of_word (hw : ∀ c ∈ w, isAsciiWordChar c) (hrest : EndsNumber rest)
    (htext : w ++ rest = u ++ after) : ¬ IsFloat u := by
  intro hu
  obtain ⟨front, back, rfl, hfront, -⟩ := hu.exists_eq
  have hpoint : isAsciiWordChar '.' = false := by decide
  have hfront' : ∀ c ∈ front, isAsciiWordChar c := fun c hc =>
    isAsciiWordChar_of_isHexDigit (isHexDigit_iff.2 (.inl (hfront c hc)))
  rw [List.append_assoc, List.cons_append] at htext
  obtain ⟨-, rfl⟩ := eq_of_run htext hw (fun c hc => (hrest c hc).1) hfront' (by simp [hpoint])
  exact (hrest '.' rfl).2 rfl

/-! ### Numbers with a point -/

/-- The digits in front of a point are the same however the point is found. -/
theorem eq_of_point {front front' back back' : List Char} (hfront : ∀ d ∈ front, d.isDigit)
    (hfront' : ∀ d ∈ front', d.isDigit) (h : front ++ '.' :: back = front' ++ '.' :: back') :
    front = front' ∧ back = back' := by
  have hpoint : '.'.isDigit = false := by decide
  obtain ⟨rfl, htail⟩ := eq_of_run h hfront (by simp [hpoint]) hfront' (by simp [hpoint])
  exact ⟨rfl, (List.cons.inj htail).2⟩

/-- **The rule of numbers with a point takes the longest one**: first the digits in front of the
point, then those behind it, and it stops at the point only if there are none. -/
theorem longestFirst_float : Grammar.float.LongestFirst := by
  have hdigits : digits.LongestFirst := (single_set _).descending_plus.longestFirst
  have hpoint : '.'.isDigit = false := by decide
  have hfraction : (concat [.opt true digits, .concat [.char '.', digits]]).LongestFirst := by
    refine (hdigits.seq_of_single (single_set _)).seq_of_run (c := Char.isDigit) rfl ?_ ?_
    · intro before w after hspells
      rcases spells_opt.1 hspells with rfl | hspells
      · simp
      · exact (spells_digits.1 hspells).2
    · rintro before _ after ⟨u, v, rfl, hu, -⟩
      rw [spells_char] at hu
      exact ⟨'.', by simp [hu], hpoint⟩
  have hwhole : (concat [digits, .char '.']).LongestFirst := by
    refine (single_set _).descending.longestFirst.seq_of_run (c := Char.isDigit) rfl ?_ ?_
    · intro before w after hspells
      exact (spells_digits.1 hspells).2
    · intro before w after hspells
      rw [spells_concat_singleton, spells_char] at hspells
      exact ⟨'.', by simp [hspells], hpoint⟩
  refine hfraction.alt hwhole ?_
  intro before w after w' after' htext hw hw'
  obtain ⟨front, back, rfl, hfront, -⟩ := (spells_float.1 (spells_alt.2 (.inl hw))).exists_eq
  obtain ⟨ds, _, rfl, hds, hend⟩ := spells_concat_pair.1 hw'
  rw [spells_char] at hend
  subst hend
  simp only [List.append_assoc, List.cons_append] at htext
  obtain ⟨rfl, -⟩ := eq_of_point hfront (spells_digits.1 hds).2 htext
  simp

/-- **A number with a point is all that its rule takes.** -/
theorem longest_float (hn : IsFloat n) (hrest : EndsNumber rest) :
    Grammar.float.Longest (n ++ rest) n rest := by
  refine ⟨rfl, spells_float.2 hn, ?_⟩
  intro u after htext hu
  obtain ⟨front, back, rfl, hfront, hback⟩ := hn.exists_eq
  obtain ⟨front', back', rfl, hfront', hback'⟩ := (spells_float.1 hu).exists_eq
  simp only [List.append_assoc, List.cons_append] at htext
  obtain ⟨rfl, htail⟩ := eq_of_point hfront hfront' htext
  have hstops : ∀ c ∈ rest.head?, c.isDigit = false := by
    intro c hc
    rw [Bool.eq_false_iff]
    intro hdigit
    have hword := isAsciiWordChar_of_isHexDigit (isHexDigit_iff.2 (.inl hdigit))
    rw [(hrest c hc).1] at hword
    exact Bool.noConfusion hword
  obtain ⟨ds, rfl, -⟩ := exists_append_of_run htail hback hstops hback'
  simp

/-! ### Which rule is applied -/

/-- The rule of numbers with a point. -/
def floatRule : Rule := anchored (.single .numeric EncryScript.float) Grammar.float none

/-- The rule of integers with a suffix. -/
def longRule : Rule :=
  anchored (.single .numeric (EncryScript.integer ++ "[lL]" ++ wordEnd))
    (.concat [Grammar.integer, anyOf ['l', 'L'], wordEdge]) none

/-- The rule of integers without a suffix. -/
def integerRule : Rule :=
  anchored (.single .numeric (EncryScript.integer ++ wordEnd)) (.concat [Grammar.integer, wordEdge])
    none

variable {v : Vocabulary}

/-- What can be decided of every ASCII character holds of every digit. -/
theorem of_isDigit {P : Char → Prop} (h : ∀ n < 128, (Char.ofNat n).isDigit → P (Char.ofNat n))
    {c : Char} (hc : c.isDigit) : P c := by
  have hword : isIdentifierChar c := by simp [isIdentifierChar, Char.isAlphanum, hc]
  have hchar := h c.toNat (toNat_lt_of_isIdentifierChar hword)
  rw [Char.ofNat_toNat] at hchar
  exact hchar hc

/-- No string begins with a number. -/
theorem matchAt_quote_eq_none (hn : IsNumber n) :
    ∀ r ∈ (rules .builtin .start).take 2, r.matchAt (n ++ rest) = none := by
  intro r hr
  obtain ⟨c, cs, rfl, hc⟩ := hn.exists_eq
  have hrefuses : ∀ r ∈ (rules .builtin .start).take 2, refuses c (fun _ => false) r := by
    rcases hc with hc | rfl
    · refine of_isDigit (P := fun c => ∀ r ∈ (rules .builtin .start).take 2,
        refuses c (fun _ => false) r) ?_ hc
      decide +kernel
    · decide +kernel
  exact matchAt_eq_none_of_refuses (v := .builtin) (List.mem_of_mem_take hr) (hrefuses r hr) rfl
    fun _ _ => rfl

theorem matchAt_floatRule_eq_none (hw : ∀ c ∈ w, isAsciiWordChar c) (hrest : EndsNumber rest) :
    floatRule.matchAt (w ++ rest) = none := by
  refine matchAt_eq_none ?_
  intro u after htext hspells
  exact not_isFloat_of_word hw hrest htext (spells_float.1 hspells)

theorem spells_integerRule : (concat [Grammar.integer, wordEdge]).Spells none w after ↔
    IsInteger w ∧ Look.asciiWordEdge.holds w.getLast? after.head? := by
  rw [← spells_integer, ← Option.or_none (o := w.getLast?)]
  exact spells_concat_append_look [Grammar.integer]

theorem spells_longRule :
    (concat [Grammar.integer, anyOf ['l', 'L'], wordEdge]).Spells none w after ↔
      (∃ u l, w = u ++ [l] ∧ IsInteger u ∧ l ∈ ['l', 'L']) ∧
        Look.asciiWordEdge.holds w.getLast? after.head? := by
  have hlook : (concat ([Grammar.integer, anyOf ['l', 'L']] ++ [wordEdge])).Spells none w after ↔
      (concat [Grammar.integer, anyOf ['l', 'L']]).Spells none w after ∧
        Look.asciiWordEdge.holds (w.getLast?.or none) after.head? := spells_concat_append_look _
  rw [Option.or_none, spells_concat_pair] at hlook
  simp only [spells_integer, spells_anyOf] at hlook
  refine hlook.trans (and_congr_left' ?_)
  constructor
  · rintro ⟨u, _, rfl, hu, l, hl, rfl⟩
    exact ⟨u, l, rfl, hu, hl⟩
  · rintro ⟨u, l, rfl, hu, hl⟩
    exact ⟨u, [l], rfl, hu, l, hl, rfl⟩

/-- The texts of a rule are ASCII words and end at the edge of a word. -/
def TakesWords (p : Pattern) : Prop := ∀ w after, p.Spells none w after →
  (∀ c ∈ w, isAsciiWordChar c) ∧ w ≠ [] ∧ Look.asciiWordEdge.holds w.getLast? after.head?

theorem takesWords_integerRule : TakesWords (concat [Grammar.integer, wordEdge]) := by
  intro w after hspells
  obtain ⟨hw, hedge⟩ := spells_integerRule.1 hspells
  obtain ⟨c, cs, rfl, -⟩ := hw.exists_eq
  exact ⟨hw.forall_isAsciiWordChar, List.cons_ne_nil c cs, hedge⟩

theorem forall_isAsciiWordChar_long {l : Char} (hw : IsInteger w) (hl : l ∈ ['l', 'L']) :
    ∀ c ∈ w ++ [l], isAsciiWordChar c := by
  have hsuffix : ∀ l ∈ ['l', 'L'], isAsciiWordChar l := List.all_eq_true.1 (by decide)
  exact List.forall_mem_append.2
    ⟨hw.forall_isAsciiWordChar, List.forall_mem_singleton.2 (hsuffix l hl)⟩

theorem takesWords_longRule :
    TakesWords (concat [Grammar.integer, anyOf ['l', 'L'], wordEdge]) := by
  intro w after hspells
  obtain ⟨⟨u, l, rfl, hu, hl⟩, hedge⟩ := spells_longRule.1 hspells
  exact ⟨forall_isAsciiWordChar_long hu hl, by simp, hedge⟩

/-- **A rule of words takes all of a word** that it can take. -/
theorem exists_matchAt_of_takesWords {p : Pattern} (hp : TakesWords p) (text : RuleText)
    (hw : p.Spells none w rest) (hrest : EndsNumber rest) : ∃ m,
      (anchored text p none).matchAt (w ++ rest) = some m ∧ m.start = 0 ∧ m.stop = w.length := by
  obtain ⟨hword, -, -⟩ := hp w rest hw
  obtain ⟨u, after, m, htext, hspells, hm, hstart, hstop⟩ := exists_matchAt_of_spells text hw
  obtain ⟨hu, hne, hedge⟩ := hp u after hspells
  obtain ⟨rfl, -⟩ := eq_of_wordEdge hword (fun c hc => (hrest c hc).1) hu hne hedge htext
  exact ⟨m, hm, hstart, hstop⟩

theorem wordEdge_of_word (hw : ∀ c ∈ w, isAsciiWordChar c) (hne : w ≠ [])
    (hrest : EndsNumber rest) : Look.asciiWordEdge.holds w.getLast? rest.head? := by
  have hlast : w.getLast?.any isAsciiWordChar := by
    rw [List.getLast?_eq_some_getLast hne, Option.any_some]
    exact hw _ (List.getLast_mem hne)
  have hhead : rest.head?.any isAsciiWordChar = false := by
    rw [Option.any_eq_false]
    intro c hc
    simp [(hrest c hc).1]
  rw [Look.holds, Look.edge, hlast, hhead]
  rfl

/-- No suffix is found at the end of an integer. -/
theorem matchAt_longRule_eq_none (hw : IsInteger w) (hrest : EndsNumber rest) :
    longRule.matchAt (w ++ rest) = none := by
  refine matchAt_eq_none ?_
  intro u after htext hspells
  obtain ⟨hu, hne, hedge⟩ := takesWords_longRule u after hspells
  obtain ⟨rfl, -⟩ := eq_of_wordEdge hw.forall_isAsciiWordChar (fun c hc => (hrest c hc).1) hu hne
    hedge htext
  obtain ⟨⟨u, l, rfl, -, hl⟩, -⟩ := spells_longRule.1 hspells
  exact hw.not_mem hl (by simp)

/-- The rules between those of numbers begin with an identifier. -/
theorem matchAt_identifier_eq_none (hw : IsInteger w) :
    ∀ r ∈ (rules .builtin .start).extract 4 8, r.matchAt (w ++ rest) = none := by
  intro r hr
  obtain ⟨c, cs, rfl, hc⟩ := hw.exists_eq
  have hrefuses : ∀ r ∈ (rules .builtin .start).extract 4 8, refuses c (fun _ => false) r := by
    refine of_isDigit (P := fun c => ∀ r ∈ (rules .builtin .start).extract 4 8,
      refuses c (fun _ => false) r) ?_ hc
    decide +kernel
  have hmem : r ∈ rules .builtin .start := List.mem_of_mem_drop (List.mem_of_mem_take hr)
  exact matchAt_eq_none_of_refuses hmem (hrefuses r hr) rfl fun _ _ => rfl

/-- **In front of a number one of the rules of numbers is applied**, and it takes all of the
number. -/
theorem exists_application?_number (v : Vocabulary) (hn : IsNumber n) (hrest : EndsNumber rest)
    (k : Nat) : ∃ r ∈ [floatRule, longRule, integerRule], ∃ m, m.start = 0 ∧ m.stop = n.length ∧
      (tableOf v).application? ⟨.start, k, n ++ rest⟩ = some ⟨⟨.start, k, n ++ rest⟩, r, m⟩ := by
  have hquotes : ∀ r ∈ (rules .builtin .start).take 2, r.matchAt (n ++ rest) = none :=
    matchAt_quote_eq_none hn
  cases hn with
  | float hn =>
    have hsplit : (tableOf v).rules .start = (rules .builtin .start).take 2 ++
        floatRule :: (rules .builtin .start).drop 3 := by
      rw [rules_start]
      rfl
    have hm : floatRule.matchAt (n ++ rest) = some ⟨0, n.length, []⟩ :=
      (matchAt_eq_some_iff rfl longestFirst_float).2 ⟨_, _, longest_float hn hrest, rfl⟩
    exact ⟨floatRule, by simp, _, rfl, rfl, Table.application?_of_front hsplit hquotes hm⟩
  | @long w l hw hl =>
    have hword := forall_isAsciiWordChar_long hw hl
    have hspells := spells_longRule.2 ⟨⟨w, l, rfl, hw, hl⟩,
      wordEdge_of_word hword (by simp) hrest⟩
    obtain ⟨m, hm, hstart, hstop⟩ := exists_matchAt_of_takesWords takesWords_longRule
      longRule.text hspells hrest
    have hsplit : (tableOf v).rules .start = ((rules .builtin .start).take 2 ++ [floatRule]) ++
        longRule :: (rules .builtin .start).drop 4 := by
      rw [rules_start]
      rfl
    refine ⟨longRule, by simp, m, hstart, hstop, Table.application?_of_front hsplit ?_ hm⟩
    exact List.forall_mem_append.2 ⟨hquotes,
      List.forall_mem_singleton.2 (matchAt_floatRule_eq_none hword hrest)⟩
  | integer hw =>
    have hword := hw.forall_isAsciiWordChar
    obtain ⟨c, cs, hn, -⟩ := hw.exists_eq
    have hspells := spells_integerRule.2 ⟨hw, wordEdge_of_word hword (by simp [hn]) hrest⟩
    obtain ⟨m, hm, hstart, hstop⟩ := exists_matchAt_of_takesWords takesWords_integerRule
      integerRule.text hspells hrest
    have hsplit : (tableOf v).rules .start = ((rules .builtin .start).take 2 ++
        ([floatRule, longRule] ++ (rules .builtin .start).extract 4 8)) ++
        integerRule :: (rules .builtin .start).drop 9 := by
      rw [rules_start]
      rfl
    refine ⟨integerRule, by simp, m, hstart, hstop, Table.application?_of_front hsplit ?_ hm⟩
    have hnumbers : ∀ r ∈ [floatRule, longRule], r.matchAt (n ++ rest) = none := by
      simp [matchAt_floatRule_eq_none hword hrest, matchAt_longRule_eq_none hw hrest]
    exact List.forall_mem_append.2 ⟨hquotes,
      List.forall_mem_append.2 ⟨hnumbers, matchAt_identifier_eq_none hw⟩⟩

/-! ### The first token -/

/-- The piece behind a number is no number: it would go on the one in front of it. -/
theorem kind_ne_numeric {ps : List Piece} {state : State} (hv : v.Valid) (hrest : EndsNumber rest)
    (h : (tableOf v).Yields 0 ⟨.start, 0, rest⟩ ps state) {p : Piece}
    (hp : p ∈ (Piece.filled ps).head?) : p.kind ≠ .numeric := by
  intro hkind
  obtain ⟨after, rfl, hne, hfits⟩ :=
    (total_tableOf v).anchored.head_of_yields (fun a ha => along_fits hv ha) h hp
  have hpart := hfits hne
  rw [hkind] at hpart
  have hnumber : IsNumber p.text := hpart
  obtain ⟨c, cs, htext, hc⟩ := hnumber.exists_eq
  obtain ⟨hword, hpoint⟩ := hrest c (by rw [htext]; rfl)
  rcases hc with hc | rfl
  · rw [isAsciiWordChar_of_isHexDigit (isHexDigit_iff.2 (.inl hc))] at hword
    exact Bool.noConfusion hword
  · exact hpoint rfl

theorem yields_number {ps : List Piece} {state : State} (hn : IsNumber n) (hrest : EndsNumber rest)
    (h : (tableOf v).Yields 0 ⟨.start, byteSize n, rest⟩ ps state) :
    (tableOf v).Yields 0 ⟨.start, 0, n ++ rest⟩ (⟨.numeric, n, 0, true⟩ :: ps) state := by
  obtain ⟨r, hr, m, hstart, hstop, happlied⟩ := exists_application?_number v hn hrest 0
  obtain ⟨hclass, hends, hnext⟩ : r.text.classification = .single .numeric ∧
      r.text.endsLine = false ∧ r.text.next = none := by
    simp only [List.mem_cons, List.not_mem_nil, or_false] at hr
    rcases hr with rfl | rfl | rfl <;> exact ⟨rfl, rfl, rfl⟩
  obtain ⟨c, cs, rfl, -⟩ := hn.exists_eq
  refine .step_single happlied hclass hends hstart hstop (List.cons_ne_nil c cs) ?_
  rwa [hnext, Nat.zero_add]

/-- **Numbers are kept whole**, over a valid vocabulary: in front of a text that is empty or begins
with a character that belongs to no ASCII word and is no point, a number is one token, and the text
has the tokens that it has by itself. -/
theorem scanLine_number {v : Vocabulary} (hv : v.Valid) :
    ∃ t, table v = .ok t ∧ ∀ number rest : String, IsNumber number.toList →
      (∀ c ∈ rest.toList.head?, isAsciiWordChar c = false ∧ c ≠ '.') →
      ∃ l l', t.scanLine (number ++ rest) .start = .ok l ∧ t.scanLine rest .start = .ok l' ∧
        l.tokens = ⟨.numeric, number, ⟨0, number.utf8ByteSize⟩⟩ ::
          l'.tokens.map (Token.shift number.utf8ByteSize) ∧
        l.endState = l'.endState := by
  refine ⟨tableOf v, table_eq hv, ?_⟩
  intro number rest hnumber hrest
  have hfront (qs : List Piece) (state : State)
      (hqs : (tableOf v).Yields 0 ⟨.start, byteSize number.toList, rest.toList⟩ qs state) :
      (tableOf v).Yields 0 ⟨.start, 0, (number ++ rest).toList⟩
        ([⟨.numeric, number.toList, 0, true⟩] ++ qs) state := by
    rw [String.toList_append]
    exact yields_number hnumber hrest hqs
  have hborder (qs : List Piece) (state : State)
      (hqs : (tableOf v).Yields 0 ⟨.start, 0, rest.toList⟩ qs state) :
      ∀ p ∈ (Piece.filled [⟨.numeric, number.toList, 0, true⟩]).getLast?,
        ∀ q ∈ (Piece.filled qs).head?, p.joins → q.joins → p.kind ≠ q.kind := by
    intro p hp q hq _ _
    obtain rfl := List.mem_singleton.1 (List.mem_of_mem_filter (List.mem_of_getLast? hp))
    exact (kind_ne_numeric hv hrest hqs hq).symm
  obtain ⟨l, hl, hscan⟩ := (total_tableOf v).scanLine_append hfront hborder
  obtain ⟨c, cs, hcs, -⟩ := hnumber.exists_eq
  have hne : number ≠ "" := by
    rintro rfl
    simp at hcs
  refine ⟨_, l, hscan, hl, ?_, rfl⟩
  rw [Token.ofPieces_singleton, ← byteSize_toList]
  simp [Token.ofPiece, Piece.stop, hne]

/-- The first digits of a hexadecimal number would be an integer by themselves; the letter behind
the number belongs to no ASCII word. -/
theorem scanLine_number_builtin : Vocabulary.builtin.Valid ∧ IsNumber "0xFF0L".toList ∧
    IsNumber "12.".toList ∧
    (∀ c ∈ "é.1".toList.head?, isAsciiWordChar c = false ∧ c ≠ '.') ∧
    (∀ c ∈ "-3".toList.head?, isAsciiWordChar c = false ∧ c ≠ '.') ∧
    ∃ t, table .builtin = .ok t ∧
      (∃ l, t.scanLine "0xFF0Lé.1" .start = .ok l ∧
        l.tokens.head? = some ⟨.numeric, "0xFF0L", ⟨0, 6⟩⟩) ∧
      ∃ l, t.scanLine "12.-3" .start = .ok l ∧
        l.tokens.head? = some ⟨.numeric, "12.", ⟨0, 3⟩⟩ := by
  have hdigits : ∀ d ∈ ['F', 'F', '0'], isHexDigit d := List.all_eq_true.1 (by decide)
  have hinteger : IsInteger "0xFF0".toList := .hex (by decide) (List.cons_ne_nil _ _) hdigits
  have hhex : IsNumber "0xFF0L".toList := .long hinteger (by decide)
  have hfloat : IsFloat ("12".toList ++ ['.']) :=
    .whole (by decide) (List.all_eq_true.1 (by decide))
  have hwhole : IsNumber "12.".toList := .float hfloat
  have hletter : ∀ c ∈ "é.1".toList.head?, isAsciiWordChar c = false ∧ c ≠ '.' :=
    forall_head?_cons.2 (by decide)
  have hminus : ∀ c ∈ "-3".toList.head?, isAsciiWordChar c = false ∧ c ≠ '.' :=
    forall_head?_cons.2 (by decide)
  obtain ⟨t, ht, hscan⟩ := scanLine_number Vocabulary.valid_builtin
  obtain ⟨l, l', hl, hl', htokens, -⟩ := hscan _ _ hhex hletter
  obtain ⟨m, m', hm, -, htokens', -⟩ := hscan _ _ hwhole hminus
  refine ⟨Vocabulary.valid_builtin, hhex, hwhole, hletter, hminus, t, ht, ⟨l, hl, ?_⟩, m, hm, ?_⟩
  · rw [htokens]
    rfl
  · rw [htokens']
    rfl

end EncryScript

end LineLexer
