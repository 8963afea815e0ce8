import LineLexer.Proofs.Text.Runs
import LineLexer.Text.Basic
import LineLexer.Text.Quoted

/-!
# Quoted texts are unambiguous

How a character is written between quotes can be read back (`unquoteChar?_quoteChar`), and none is
written with a quote in front.  So a quoted text shows what it quotes and where it ends, whatever
follows it (`eq_of_quoteChars_append`), and it is all on one line (`feed_notMem_quoteChars`).
-/

namespace LineLexer

/-! ### Hexadecimal digits -/

theorem exists_digitChar_of_mem_toDigits {b n : Nat} (hb : 1 < b) {c : Char}
    (h : c ∈ Nat.toDigits b n) : ∃ d < b, c = Nat.digitChar d := by
  induction n using Nat.strongRecOn with
  | ind n ih =>
    by_cases hlt : n < b
    · rw [Nat.toDigits_of_lt_base hlt, List.mem_singleton] at h
      exact ⟨n, hlt, h⟩
    · have hle : b ≤ n := Nat.not_lt.1 hlt
      rw [Nat.toDigits_of_base_le hb hle, List.mem_append, List.mem_singleton] at h
      rcases h with h | h
      · exact ih (n / b) (Nat.div_lt_self (by omega) hb) h
      · exact ⟨n % b, Nat.mod_lt n (by omega), h⟩

theorem hexDigit?_digitChar : ∀ d < 16, hexDigit? (Nat.digitChar d) = some d := by decide

/-- **The hexadecimal digits of a number are read as the number.** -/
theorem hexNumber?_toDigits (n : Nat) : hexNumber? (Nat.toDigits 16 n) = some n := by
  have hfold : (Nat.toDigits 16 n).foldlM (fun n d => (hexDigit? d).map (16 * n + ·)) 0 =
      some n := by
    induction n using Nat.strongRecOn with
    | ind n ih =>
      by_cases hlt : n < 16
      · rw [Nat.toDigits_of_lt_base hlt]
        simp [hexDigit?_digitChar n hlt]
      · have hdigit := hexDigit?_digitChar (n % 16) (Nat.mod_lt n (by decide))
        rw [Nat.toDigits_of_base_le (by decide) (Nat.not_lt.1 hlt), List.foldlM_append,
          ih (n / 16) (by omega)]
        simp [hdigit, Nat.div_add_mod]
  rw [hexNumber?, List.isEmpty_eq_false_iff.2 Nat.toDigits_ne_nil, hfold]
  rfl

/-! ### Characters -/

/-- The character that an escape stands for, after its backslash, and what is left. -/
def unescape? : List Char → Option (Char × List Char)
  | '0' :: cs => some ('\x00', cs)
  | 't' :: cs => some ('\t', cs)
  | 'r' :: cs => some ('\r', cs)
  | 'n' :: cs => some ('\n', cs)
  | '"' :: cs => some ('"', cs)
  | '\\' :: cs => some ('\\', cs)
  | 'u' :: '\x7b' :: cs =>
    (hexNumber? (cs.takeWhile (· != '\x7d'))).map fun n =>
      (Char.ofNat n, (cs.dropWhile (· != '\x7d')).tail)
  | _ => none

/-- The first character that is quoted, and what is left; there is none at the closing quote. -/
def unquoteChar? : List Char → Option (Char × List Char)
  | [] => none
  | c :: cs => if c = '"' then none else if c = '\\' then unescape? cs else some (c, cs)

theorem unquoteChar?_backslash (cs : List Char) : unquoteChar? ('\\' :: cs) = unescape? cs := rfl

theorem unquoteChar?_codePointEscape (c : Char) (rest : List Char) :
    unquoteChar? (codePointEscape c ++ rest) = some (c, rest) := by
  have hdigits : ∀ d ∈ Nat.toDigits 16 c.toNat, (d != '\x7d') = true := by
    intro d hd
    obtain ⟨n, hn, rfl⟩ := exists_digitChar_of_mem_toDigits (by decide) hd
    have hall : ∀ n < 16, (Nat.digitChar n != '\x7d') = true := by decide
    exact hall n hn
  have hclose : ∀ d ∈ ('\x7d' :: rest).head?, (d != '\x7d') = false := by simp
  rw [codePointEscape, List.append_assoc, List.cons_append, List.cons_append, List.cons_append,
    List.singleton_append, unquoteChar?_backslash, unescape?, takeWhile_run hdigits hclose,
    dropWhile_run hdigits hclose, hexNumber?_toDigits]
  simp

/-- **Every character is read back as it is written**, whatever follows. -/
theorem unquoteChar?_quoteChar (c : Char) (rest : List Char) :
    unquoteChar? (quoteChar c ++ rest) = some (c, rest) := by
  rw [quoteChar]
  split_ifs with hnul htab hreturn hfeed hquote hslash hescape
  · rw [hnul]
    rfl
  · rw [htab]
    rfl
  · rw [hreturn]
    rfl
  · rw [hfeed]
    rfl
  · rw [hquote]
    rfl
  · rw [hslash]
    rfl
  · exact unquoteChar?_codePointEscape c rest
  · rw [List.singleton_append, unquoteChar?, if_neg hquote, if_neg hslash]

theorem feed_notMem_codePointEscape (c : Char) : '\n' ∉ codePointEscape c := by
  have hdigits : '\n' ∉ Nat.toDigits 16 c.toNat := by
    intro h
    obtain ⟨n, hn, hfeed⟩ := exists_digitChar_of_mem_toDigits (by decide) h
    have hall : ∀ n < 16, '\n' ≠ Nat.digitChar n := by decide
    exact hall n hn hfeed
  simp [codePointEscape, hdigits]

theorem feed_notMem_quoteChar (c : Char) : '\n' ∉ quoteChar c := by
  rw [quoteChar]
  split_ifs with hnul htab hreturn hfeed hquote hslash hescape
  -- the short escapes, the escape by the code point, and the character itself
  iterate 6 · decide
  · exact feed_notMem_codePointEscape c
  · simpa using Ne.symm hfeed

/-! ### Texts -/

theorem feed_notMem_quoteChars (cs : List Char) : '\n' ∉ quoteChars cs := by
  simp [quoteChars, feed_notMem_quoteChar]

/-- **What is quoted and where it ends** can be told whatever follows the quoted text. -/
theorem eq_of_quoteChars_append {cs ds xs ys : List Char}
    (h : quoteChars cs ++ xs = quoteChars ds ++ ys) : cs = ds ∧ xs = ys := by
  have hread (c : Char) (cs xs : List Char) :
      unquoteChar? ((c :: cs).flatMap quoteChar ++ '"' :: xs) =
        some (c, cs.flatMap quoteChar ++ '"' :: xs) := by
    rw [List.flatMap_cons, List.append_assoc, unquoteChar?_quoteChar]
  replace h : cs.flatMap quoteChar ++ '"' :: xs = ds.flatMap quoteChar ++ '"' :: ys := by
    simpa [quoteChars] using h
  induction cs generalizing ds with
  | nil =>
    cases ds with
    | nil => exact ⟨rfl, (List.cons.inj h).2⟩
    | cons d ds =>
      have hnone := hread d ds ys
      rw [← h] at hnone
      exact absurd hnone (by simp [unquoteChar?])
  | cons c cs ih =>
    have hsome := hread c cs xs
    rw [h] at hsome
    cases ds with
    | nil => exact absurd hsome (by simp [unquoteChar?])
    | cons d ds =>
      rw [hread] at hsome
      obtain ⟨rfl, hrest⟩ := Prod.mk.inj (Option.some.inj hsome)
      obtain ⟨rfl, rfl⟩ := ih hrest.symm
      exact ⟨rfl, rfl⟩

end LineLexer
