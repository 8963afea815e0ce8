import LineLexer.Proofs.Pattern.Groups

/-!
# A parenthesis after a pattern

Every part of a text is read in the same way if a closing parenthesis is written behind the text
(`PatternItem.LeavesClosing` says so of one reader).  So the items of the text stay what they
are, and the parenthesis is one item more (`PatternItem.items_close`).
-/

namespace LineLexer

namespace PatternItem

/-- Reading stops before a parenthesis that closes the text, and does not depend on it. -/
def LeavesClosing {α : Type} (read : List Char → Reading (α × List Char)) : Prop :=
  ∀ ⦃cs rest : List Char⦄ ⦃x : α⦄, read cs = .ok (x, rest) →
    read (cs ++ [')']) = .ok (x, rest ++ [')'])

theorem LeavesClosing.map {α β : Type} {read : List Char → Reading (α × List Char)}
    (h : LeavesClosing read) (f : α → β) :
    LeavesClosing fun cs => (read cs).map fun (x, rest) => (f x, rest) := by
  intro cs rest y hy
  obtain ⟨⟨x, mid⟩, hx, hy⟩ := map_eq_ok hy
  obtain ⟨rfl, rfl⟩ := Prod.mk.inj hy
  dsimp only
  rw [h hx]
  rfl

section

variable {f : Char → Bool} {cs rest : List Char}

theorem takeWhile_close (hf : f ')' = false) (cs : List Char) :
    (cs ++ [')']).takeWhile f = cs.takeWhile f := by
  rw [List.takeWhile_append]
  split
  · rename_i hlen
    rw [(List.takeWhile_prefix f).eq_of_length hlen]
    simp [hf]
  · rfl

theorem dropWhile_close (hf : f ')' = false) (cs : List Char) :
    (cs ++ [')']).dropWhile f = cs.dropWhile f ++ [')'] := by
  rw [List.dropWhile_append]
  split
  · rename_i hnil
    rw [List.isEmpty_iff.1 hnil]
    simp [hf]
  · rfl

/-- What stands in front of a delimiter is found without looking at what is behind it. -/
theorem takeWhile_append_of_dropWhile {d : Char} (h : cs.dropWhile f = d :: rest)
    (tail : List Char) : (cs ++ tail).takeWhile f = cs.takeWhile f := by
  have hlen := congrArg List.length (List.takeWhile_append_dropWhile (p := f) (l := cs))
  rw [List.length_append, h, List.length_cons] at hlen
  rw [List.takeWhile_append, if_neg (by omega)]

theorem dropWhile_append_of_dropWhile {d : Char} (h : cs.dropWhile f = d :: rest)
    (tail : List Char) : (cs ++ tail).dropWhile f = d :: (rest ++ tail) := by
  rw [List.dropWhile_append, h]
  rfl

end

theorem head?_close {c : Char} (hc : c ≠ ')') (cs : List Char) :
    ((cs ++ [')']).head? == some c) = (cs.head? == some c) := by
  cases cs with
  | nil => simpa using Ne.symm hc
  | cons d cs => rfl

/-! ### Repetitions -/

theorem leavesClosing_readCount : LeavesClosing readCount := by
  intro cs rest n h
  have hblank : isBlank ')' = false := by decide
  have hdigit : Char.isDigit ')' = false := by decide
  unfold readCount at h ⊢
  simp only [dropWhile_close hblank, dropWhile_close hdigit, takeWhile_close hdigit]
  dsimp only at h
  split at h
  · simp at h
  · rename_i hcount
    obtain ⟨rfl, rfl⟩ := by simpa using h
    exact if_neg hcount

/-- The limits of a repetition behind the lower limit `lo`: the upper limit, the text that tells
it and the text after the brace. -/
inductive Limits (lo : Nat) : Option Nat → List Char → List Char → Prop where
  | exact (rest : List Char) : Limits lo (some lo) ('\x7d' :: rest) rest
  | atLeast (rest : List Char) : Limits lo none (',' :: '\x7d' :: rest) rest
  | between {hi : Nat} {mid rest : List Char} : readCount mid = .ok (hi, '\x7d' :: rest) →
      lo ≤ hi → Limits lo (some hi) (',' :: mid) rest

theorem limits_of_readLimits {cs rest : List Char} {lo : Nat} {hi : Option Nat}
    (h : readLimits cs = .ok ((lo, hi), rest)) :
    ∃ mid, readCount cs = .ok (lo, mid) ∧ Limits lo hi mid rest := by
  obtain ⟨⟨n, mid⟩, hn, h⟩ := bind_eq_ok h
  dsimp only at h
  split at h
  · obtain ⟨⟨rfl, rfl⟩, rfl⟩ := by simpa [pure, Except.pure] using h
    exact ⟨_, hn, .exact _⟩
  · obtain ⟨⟨rfl, rfl⟩, rfl⟩ := by simpa [pure, Except.pure] using h
    exact ⟨_, hn, .atLeast _⟩
  · obtain ⟨⟨m, last⟩, hm, h⟩ := bind_eq_ok h
    dsimp only at h
    split at h
    · split at h
      · rename_i hle
        obtain ⟨⟨rfl, rfl⟩, rfl⟩ := by simpa [pure, Except.pure] using h
        exact ⟨_, hn, .between hm hle⟩
      · simp [throw, throwThe, MonadExceptOf.throw] at h
    · simp [throw, throwThe, MonadExceptOf.throw] at h
  · simp [throw, throwThe, MonadExceptOf.throw] at h

theorem readLimits_of_limits {cs mid rest : List Char} {lo : Nat} {hi : Option Nat}
    (hlo : readCount cs = .ok (lo, mid)) (h : Limits lo hi mid rest) :
    readLimits cs = .ok ((lo, hi), rest) := by
  refine Outcome.bind_eq_ok_iff.2 ⟨_, hlo, ?_⟩
  cases h with
  | exact => rfl
  | atLeast => rfl
  | @between n mid _ hn hle =>
    have hbrace (cs : List Char) : mid ≠ '\x7d' :: cs := by
      rintro rfl
      have hbad : readCount ('\x7d' :: cs) = .error .badCount := rfl
      simp [hbad] at hn
    dsimp only
    split
    · rename_i heq
      exact absurd (List.cons.inj heq).1 (by decide)
    · rename_i heq
      exact absurd (List.cons.inj heq).2 (hbrace _)
    · rename_i heq
      obtain ⟨-, rfl⟩ := List.cons.inj heq
      exact Outcome.bind_eq_ok_iff.2 ⟨_, hn, if_pos hle⟩
    · rename_i hcomma
      exact absurd rfl (hcomma mid)

theorem leavesClosing_readLimits : LeavesClosing readLimits := by
  rintro cs rest ⟨lo, hi⟩ h
  obtain ⟨mid, hlo, hlimits⟩ := limits_of_readLimits h
  refine readLimits_of_limits (leavesClosing_readCount hlo) ?_
  cases hlimits with
  | exact => exact .exact _
  | atLeast => exact .atLeast _
  | between hn hle => exact .between (leavesClosing_readCount hn) hle

theorem readGreed_close (lo : Nat) (hi : Option Nat) (cs : List Char) :
    readGreed lo hi (cs ++ [')']) = ((readGreed lo hi cs).1, (readGreed lo hi cs).2 ++ [')']) := by
  cases cs with
  | nil => rfl
  | cons c cs =>
    by_cases hc : c = '?'
    · subst hc
      rfl
    · simp [readGreed, hc]

/-! ### Escapes -/

theorem leavesClosing_readCodePoint (width : Nat) : LeavesClosing (readCodePoint width) := by
  intro cs rest c h
  unfold readCodePoint at h
  split at h
  · rename_i cs
    split at h
    · rename_i d mid hd
      obtain ⟨x, hx, h⟩ := map_eq_ok h
      obtain ⟨rfl, rfl⟩ := Prod.mk.inj h
      rw [List.cons_append, readCodePoint, dropWhile_append_of_dropWhile hd,
        takeWhile_append_of_dropWhile hd]
      dsimp only
      rw [hx]
      rfl
    · simp at h
  · rename_i hbrace
    split at h
    · simp at h
    · rename_i hshort
      have hlen : width ≤ cs.length := Nat.not_lt.1 hshort
      have hshort' : ¬ (cs ++ [')']).length < width := by
        rw [List.length_append]
        omega
      obtain ⟨x, hx, h⟩ := map_eq_ok h
      obtain ⟨rfl, rfl⟩ := Prod.mk.inj h
      rw [readCodePoint, if_neg hshort', List.take_append_of_le_length hlen, hx,
        List.drop_append_of_le_length hlen]
      · rfl
      · -- the parenthesis is no brace
        intro ds hds
        cases cs with
        | nil => simp at hds
        | cons d cs =>
          obtain ⟨rfl, -⟩ := List.cons.inj hds
          exact hbrace _ rfl

theorem leavesClosing_readEscape : LeavesClosing readEscape := by
  intro cs rest i h
  have hpoint (width : Nat) := (leavesClosing_readCodePoint width).map PatternItem.literal
  unfold readEscape at h
  split at h
  case h_1 => simp at h
  case h_2 => exact hpoint 2 h
  case h_3 => exact hpoint 4 h
  case h_4 => exact hpoint 8 h
  case h_21 =>
    split at h
    · simp at h
    · split at h
      · rename_i hdigit hesc
        obtain ⟨rfl, rfl⟩ := by simpa using h
        rw [List.cons_append, readEscape, if_neg hdigit, if_pos hesc]
        all_goals assumption
      · simp at h
  all_goals
    obtain ⟨rfl, rfl⟩ := by simpa using h
    rfl

/-! ### Character sets -/

theorem leavesClosing_readMember : LeavesClosing readMember := by
  intro cs rest i h
  unfold readMember at h
  split at h
  · simp at h
  · exact leavesClosing_readEscape h
  · rename_i hback
    obtain ⟨rfl, rfl⟩ := by simpa using h
    exact readMember.eq_3 _ _ hback

theorem leavesClosing_readRange : LeavesClosing readRange := by
  intro cs rest i h
  obtain ⟨⟨low, mid⟩, hlow, h⟩ := bind_eq_ok h
  refine Outcome.bind_eq_ok_iff.2 ⟨_, leavesClosing_readMember hlow, ?_⟩
  dsimp only at h ⊢
  split at h
  · rename_i after
    have hhead : ((after ++ [')']).head? == some ']' || (after ++ [')']).head? == some '-') =
        (after.head? == some ']' || after.head? == some '-') := by
      rw [head?_close (by decide), head?_close (by decide)]
    rw [List.cons_append]
    simp only [hhead]
    split at h
    · rename_i hc
      obtain ⟨m, hm, h⟩ := bind_eq_ok h
      obtain ⟨rfl, rfl⟩ := by simpa [pure, Except.pure] using h
      rw [if_pos hc]
      exact Outcome.bind_eq_ok_iff.2 ⟨_, hm, rfl⟩
    · rename_i hc
      obtain ⟨⟨high, last⟩, hhigh, h⟩ := bind_eq_ok h
      obtain ⟨m, hm, h⟩ := bind_eq_ok h
      obtain ⟨rfl, rfl⟩ := by simpa [pure, Except.pure] using h
      rw [if_neg hc]
      refine Outcome.bind_eq_ok_iff.2 ⟨_, leavesClosing_readMember hhigh, ?_⟩
      exact Outcome.bind_eq_ok_iff.2 ⟨_, hm, rfl⟩
  · rename_i hhyphen
    obtain ⟨m, hm, h⟩ := bind_eq_ok h
    obtain ⟨rfl, rfl⟩ := by simpa [pure, Except.pure] using h
    split
    · rename_i after heq
      cases mid with
      | nil => simp at heq
      | cons c mid =>
        obtain ⟨rfl, -⟩ := List.cons.inj heq
        exact absurd rfl (hhyphen mid)
    · exact Outcome.bind_eq_ok_iff.2 ⟨_, hm, rfl⟩

theorem isSetOperation_close (c : Char) (cs : List Char) :
    isSetOperation c (cs ++ [')']) = isSetOperation c cs := by
  unfold isSetOperation
  by_cases hc : c = ')'
  · subst hc
    rfl
  · rw [head?_close hc]

theorem leavesClosing_readMembers : LeavesClosing readMembers := by
  intro cs rest is h
  fun_induction readMembers cs generalizing is rest with
  | case1 => simp at h
  | case2 cs =>
    obtain ⟨rfl, rfl⟩ := by simpa using h
    rw [List.cons_append, readMembers]
  | case3 => simp at h
  | case4 => simp at h
  | case5 c after hbracket hop item mid hr ih =>
    obtain ⟨⟨is', last⟩, hm, h⟩ := map_eq_ok h
    obtain ⟨rfl, rfl⟩ := Prod.mk.inj h
    have hop' : isSetOperation c (after ++ [')']) = false := by
      rw [isSetOperation_close]
      simpa using hop
    rw [List.cons_append,
      readMembers_of_readRange hbracket hop' (leavesClosing_readRange hr), ih hm]
    rfl

theorem leavesClosing_readSet : LeavesClosing readSet := by
  intro cs rest i h
  have hdrop {b : Bool} {cs : List Char} (hb : b → cs ≠ []) :
      (if b then (cs ++ [')']).drop 1 else cs ++ [')']) = (if b then cs.drop 1 else cs) ++ [')'] := by
    cases b with
    | false => rfl
    | true => exact List.drop_append_of_le_length (List.length_pos_iff.2 (hb rfl))
  have hne {c : Char} {cs : List Char} (h : cs.head? == some c) : cs ≠ [] := by
    rintro rfl
    simp at h
  have hhyphen : (')' == '-') = false := by decide
  unfold readSet at h ⊢
  dsimp only at h ⊢
  obtain ⟨⟨is, mid⟩, hm, h⟩ := map_eq_ok h
  obtain ⟨rfl, rfl⟩ := Prod.mk.inj h
  rw [head?_close (by decide), hdrop hne, dropWhile_close hhyphen, takeWhile_close hhyphen,
    head?_close (by decide), hdrop fun hb => hne (Bool.and_eq_true_iff.1 hb).2,
    leavesClosing_readMembers hm]
  rfl

/-! ### Openings of groups -/

theorem readFlags_close {value : Bool} {seen settings : FlagSettings} {cs rest : List Char}
    {c : Char} (h : readFlags value seen cs = .ok (settings, c, rest)) :
    readFlags value seen (cs ++ [')']) = .ok (settings, c, rest ++ [')']) := by
  fun_induction readFlags value seen cs with
  | case2 value seen c' cs hend hlast =>
    obtain ⟨rfl, rfl, rfl⟩ := by simpa using h
    rw [List.cons_append, readFlags, if_pos hend, if_pos hlast]
  | case4 seen cs hend ih =>
    rw [List.cons_append, readFlags, if_neg hend, if_pos rfl, if_pos rfl]
    exact ih h
  | case7 value seen c' cs hend hhyphen f hf hseen ih =>
    rw [List.cons_append, readFlags, if_neg hend, if_neg hhyphen, hf]
    dsimp only
    rw [if_neg hseen]
    exact ih h
  | _ => simp at h

theorem leavesClosing_readName : LeavesClosing readName := by
  intro cs rest name h
  unfold readName at h ⊢
  dsimp only at h ⊢
  split at h
  · rename_i d mid c more hd hname
    rw [dropWhile_append_of_dropWhile hd, takeWhile_append_of_dropWhile hd, hname]
    dsimp only
    split at h
    · rename_i hchars
      obtain ⟨rfl, rfl⟩ := by simpa using h
      rw [if_pos hchars, hname]
    · simp at h
  · simp at h

theorem leavesClosing_readOpening : LeavesClosing readOpening := by
  intro cs rest i h
  have hgroup := leavesClosing_readName.map fun name => PatternItem.opening true (some name) []
  unfold readOpening at h
  split at h
  case h_1 | h_2 | h_3 | h_4 => simp at h
  case h_5 cs hequal hbang =>
    cases cs with
    | nil => simp [readName, Except.map] at h
    | cons c cs =>
      rw [List.cons_append, List.cons_append, List.cons_append, readOpening, ← List.cons_append]
      · exact hgroup h
      · rintro _ ⟨⟩
        exact hequal _ rfl
      · rintro _ ⟨⟩
        exact hbang _ rfl
  case h_6 => exact hgroup h
  case h_7 cs _ _ _ _ _ _ =>
    split at h
    · simp at h
    · rename_i settings closer mid hf
      obtain ⟨c, cs, rfl⟩ : ∃ c cs', cs = c :: cs' := by
        cases cs with
        | nil => simp [readFlags] at hf
        | cons c cs => exact ⟨c, cs, rfl⟩
      -- flags begin, so none of the other kinds of groups does
      have hflag {d : Char} (hd : d = '=' ∨ d = '!' ∨ d = '<' ∨ d = 'P') : c ≠ d := by
        rintro rfl
        rcases hd with rfl | rfl | rfl | rfl <;> simp [readFlags, flag?] at hf
      rw [List.cons_append, readOpening, readFlags_close hf]
      · dsimp only
        split at h
        · rename_i hcolon
          obtain ⟨rfl, rfl⟩ := by simpa using h
          rw [if_pos hcolon]
        · rename_i hcolon
          split at h
          · simp at h
          · rename_i hsome
            obtain ⟨rfl, rfl⟩ := by simpa using h
            rw [if_neg hcolon, if_neg hsome]
      all_goals
        intro tail htail
        exact hflag (by simp) (List.cons.inj htail).1
  case h_8 hquestion =>
    obtain ⟨rfl, rfl⟩ := by simpa using h
    refine readOpening_of_head?_ne ?_
    cases cs with
    | nil => simp
    | cons c cs =>
      rintro ⟨⟩
      exact hquestion _ rfl

/-! ### Items -/

theorem leavesClosing_readItem (c : Char) : LeavesClosing (readItem c) := by
  intro cs rest i h
  unfold readItem at h
  split at h
  case h_1 => exact leavesClosing_readEscape h
  case h_2 => exact leavesClosing_readSet h
  case h_3 => exact leavesClosing_readOpening h
  case h_9 | h_10 | h_11 => rw [readItem, readGreed_close, Except.ok.inj h]
  case h_12 =>
    obtain ⟨⟨⟨lo, hi⟩, mid⟩, hl, h⟩ := map_eq_ok h
    rw [readItem, leavesClosing_readLimits hl]
    simp only [Except.map, readGreed_close]
    dsimp only at h
    rw [h]
  case h_13 =>
    obtain ⟨rfl, rfl⟩ := by simpa using h
    rw [readItem]
    all_goals assumption
  all_goals
    obtain ⟨rfl, rfl⟩ := by simpa using h
    rfl

/-- **The items of a text** stay the same if a parenthesis closes it. -/
theorem items_close {cs : List Char} {is : List PatternItem} (h : items cs = .ok is) :
    items (cs ++ [')']) = .ok (is ++ [.closing]) := by
  fun_induction items cs generalizing is with
  | case1 =>
    obtain rfl := Except.ok.inj h
    have hnone : items [] = .ok [] := by rw [items]
    have hclosing : readItem ')' [] = .ok (.closing, []) := rfl
    exact (begins_of_readItem hclosing).items_eq hnone
  | case2 => simp at h
  | case3 c cs i rest hi ih =>
    obtain ⟨is', his', rfl⟩ := map_eq_ok h
    exact (begins_of_readItem (leavesClosing_readItem c hi)).items_eq (ih his')

end PatternItem

end LineLexer
