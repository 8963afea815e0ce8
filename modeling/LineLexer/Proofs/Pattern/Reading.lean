import LineLexer.Proofs.Outcome
import LineLexer.Pattern.Reader

/-!
# Reading pattern text that is put together

The text of a pattern can be put together from words.  The text that `Pattern.escape` gives for
a word is read as the characters of the word (`PatternItem.begins_escape`), and words with bars
between them are read as the choice between the words, in their order
(`PatternReader.exists_foldlM_choiceItems`).
-/

namespace LineLexer

namespace Pattern

/-- The pattern of a word: its characters one after the other. -/
def word (w : List Char) : Pattern := .concat (w.map .char)

/-- The choice between words, the first preferred. -/
def oneOf : List (List Char) → Pattern
  | [] => .empty
  | w :: ws => .choice (word w) (ws.map word)

theorem groupCount_concat {ps : List Pattern} (h : ∀ p ∈ ps, p.groupCount = 0) :
    (concat ps).groupCount = 0 := by
  fun_induction concat ps with
  | case1 => rfl
  | case2 p => exact h p List.mem_cons_self
  | case3 p ps _ ih =>
    rw [groupCount, h p List.mem_cons_self, ih fun q hq => h q (List.mem_cons_of_mem _ hq),
      Nat.max_self]

theorem groupCount_choice {p : Pattern} {ps : List Pattern} (hp : p.groupCount = 0)
    (h : ∀ q ∈ ps, q.groupCount = 0) : (choice p ps).groupCount = 0 := by
  fun_induction choice p ps with
  | case1 => exact hp
  | case2 p q qs ih =>
    rw [groupCount, hp, ih (h q List.mem_cons_self) fun r hr => h r (List.mem_cons_of_mem _ hr),
      Nat.max_self]

theorem groupCount_word (w : List Char) : (word w).groupCount = 0 :=
  groupCount_concat fun _ hp => by
    obtain ⟨c, -, rfl⟩ := List.mem_map.1 hp
    rfl

theorem groupCount_oneOf (ws : List (List Char)) : (oneOf ws).groupCount = 0 := by
  cases ws with
  | nil => rfl
  | cons w ws =>
    refine groupCount_choice (groupCount_word w) fun p hp => ?_
    obtain ⟨u, -, rfl⟩ := List.mem_map.1 hp
    exact groupCount_word u

end Pattern

/-! ### Splitting into items -/

namespace PatternItem

/-- The text begins with the items `is`, and `rest` comes after them. -/
def Begins (cs : List Char) (is : List PatternItem) (rest : List Char) : Prop :=
  items cs = (items rest).map (is ++ ·)

theorem Begins.refl (cs : List Char) : Begins cs [] cs := by
  unfold Begins
  cases items cs <;> rfl

theorem Begins.trans {cs mid rest : List Char} {is js : List PatternItem} (h : Begins cs is mid)
    (h' : Begins mid js rest) : Begins cs (is ++ js) rest := by
  unfold Begins at *
  rw [h, h']
  cases items rest <;> simp [Except.map]

theorem begins_of_readItem {c : Char} {cs rest : List Char} {i : PatternItem}
    (h : readItem c cs = .ok (i, rest)) : Begins (c :: cs) [i] rest := by
  unfold Begins
  rw [items]
  split
  · rename_i e he
    rw [h] at he
    simp at he
  · rename_i i' rest' hi
    rw [h] at hi
    obtain ⟨rfl, rfl⟩ := by simpa using hi
    rfl

theorem Begins.cons {c : Char} {cs mid rest : List Char} {i : PatternItem}
    {is : List PatternItem} (h : readItem c cs = .ok (i, mid)) (h' : Begins mid is rest) :
    Begins (c :: cs) (i :: is) rest :=
  (begins_of_readItem h).trans h'

theorem Begins.items_eq {cs rest : List Char} {is js : List PatternItem} (h : Begins cs is rest)
    (hrest : items rest = .ok js) : items cs = .ok (is ++ js) := by
  rw [h, hrest]
  rfl

theorem readItem_of_isMeta {c : Char} (h : Pattern.escape.isMeta c) (cs : List Char) :
    readItem '\\' (c :: cs) = .ok (.literal c, cs) := by
  simp only [Pattern.escape.isMeta, Bool.or_eq_true, beq_iff_eq, or_assoc] at h
  rcases h with rfl | rfl | rfl | rfl | rfl | rfl | rfl | rfl | rfl | rfl | rfl | rfl | rfl |
    rfl | rfl | rfl | rfl | rfl <;> rfl

theorem readItem_of_not_isMeta {c : Char} (h : ¬ Pattern.escape.isMeta c) (cs : List Char) :
    readItem c cs = .ok (.literal c, cs) := by
  unfold readItem
  split
  case h_13 => rfl
  all_goals exact absurd (by decide) h

/-- **An escaped text is read as its characters.** -/
theorem begins_escape (w rest : List Char) :
    Begins (Pattern.escape w ++ rest) (w.map .literal) rest := by
  induction w with
  | nil => exact .refl rest
  | cons c w ih =>
    rw [Pattern.escape, List.flatMap_cons, List.append_assoc]
    split
    · rename_i hc
      exact .cons (readItem_of_isMeta hc _) ih
    · rename_i hc
      exact .cons (readItem_of_not_isMeta hc _) ih

/-- The items of words with bars between them. -/
def choiceItems (ws : List (List Char)) : List PatternItem :=
  ((ws.map fun w => w.map .literal).intersperse [.bar]).flatten

theorem begins_choice (ws : List (List Char)) (rest : List Char) :
    Begins (((ws.map Pattern.escape).intersperse ['|']).flatten ++ rest) (choiceItems ws) rest := by
  induction ws with
  | nil => exact .refl rest
  | cons w ws ih =>
    cases ws with
    | nil => simpa [choiceItems] using begins_escape w rest
    | cons u ws =>
      have hbar := Begins.cons (c := '|') rfl ih
      simpa [choiceItems] using (begins_escape w _).trans hbar

/-! ### Openings of groups -/

theorem readOpening_of_head?_ne {cs : List Char} (h : cs.head? ≠ some '?') :
    readOpening cs = .ok (.opening true none [], cs) := by
  unfold readOpening
  split
  case h_8 => rfl
  all_goals simp at h

theorem head?_escape_ne {w rest : List Char} (h : rest.head? ≠ some '?') :
    (Pattern.escape w ++ rest).head? ≠ some '?' := by
  cases w with
  | nil => exact h
  | cons c w =>
    rw [Pattern.escape, List.flatMap_cons]
    split
    · simp
    · rename_i hc
      have : c ≠ '?' := by
        rintro rfl
        exact hc (by decide)
      simpa using this

theorem head?_choice_ne (ws : List (List Char)) {rest : List Char} (h : rest.head? ≠ some '?') :
    (((ws.map Pattern.escape).intersperse ['|']).flatten ++ rest).head? ≠ some '?' := by
  cases ws with
  | nil => exact h
  | cons w ws =>
    cases ws with
    | nil => simpa using head?_escape_ne h
    | cons u ws =>
      rw [List.map_cons, List.map_cons, List.intersperse_cons_cons, List.flatten_cons,
        List.append_assoc]
      exact head?_escape_ne (by simp)

/-! ### Members of a character set -/

theorem readMembers_of_readRange {c : Char} {cs rest : List Char} {i : CharItem} (hc : c ≠ ']')
    (ho : isSetOperation c cs = false) (h : readRange (c :: cs) = .ok (i, rest)) :
    readMembers (c :: cs) = (readMembers rest).map fun (is, rest) => (i :: is, rest) := by
  rw [readMembers.eq_def]
  split
  · rename_i heq
    simp at heq
  · rename_i heq
    exact absurd (List.cons.inj heq).1 hc
  · rename_i heq
    obtain ⟨rfl, rfl⟩ := List.cons.inj heq
    rw [if_neg (by simp [ho])]
    split
    · rename_i e he
      rw [h] at he
      simp at he
    · rename_i i' rest' hi
      rw [h] at hi
      obtain ⟨rfl, rfl⟩ := by simpa using hi
      rfl

end PatternItem

/-! ### From items to patterns -/

namespace PatternReader

theorem step_literal {r : PatternReader} (h : r.flags.anyCase = false) (c : Char) :
    r.step (.literal c) = .ok { r with inner := r.inner.push (.char c) } := by
  have hstep : r.step (.literal c) =
      .ok { r with inner := r.inner.push (literal r.flags c) } := rfl
  rw [hstep, literal, h, if_neg Bool.false_ne_true]

theorem foldlM_literal {r : PatternReader} (h : r.flags.anyCase = false) (w : List Char)
    (is : List PatternItem) :
    (w.map PatternItem.literal ++ is).foldlM step r =
      is.foldlM step { r with inner := (w.map Pattern.char).foldl OpenGroup.push r.inner } := by
  induction w generalizing r with
  | nil => rfl
  | cons c w ih =>
    rw [List.map_cons, List.cons_append, List.foldlM_cons, step_literal h, List.map_cons,
      List.foldl_cons]
    exact ih (r := { r with inner := r.inner.push (.char c) }) h

end PatternReader

namespace OpenGroup

theorem foldl_push (g : OpenGroup) (ps : List Pattern) :
    (ps.foldl push g).parts = ps.reverse ++ g.parts ∧
      (ps.foldl push g).alternatives = g.alternatives ∧ (ps.foldl push g).index = g.index ∧
      (ps.foldl push g).outerFlags = g.outerFlags := by
  induction ps generalizing g with
  | nil => exact ⟨rfl, rfl, rfl, rfl⟩
  | cons p ps ih =>
    obtain ⟨hparts, hrest⟩ := ih (g.push p)
    refine ⟨?_, hrest⟩
    rw [List.foldl_cons, hparts]
    simp [push]

end OpenGroup

namespace PatternReader

theorem exists_foldlM_choiceItems_cons {r : PatternReader} (hcase : r.flags.anyCase = false)
    (hparts : r.inner.parts = []) (w : List Char) (ws : List (List Char)) :
    ∃ g : OpenGroup, g.index = r.inner.index ∧ g.outerFlags = r.inner.outerFlags ∧
      g.body = r.inner.alternatives.foldl (fun later earlier => .alt earlier later)
        (.oneOf (w :: ws)) ∧ ∀ is : List PatternItem,
        (PatternItem.choiceItems (w :: ws) ++ is).foldlM step r =
          is.foldlM step { r with inner := g } := by
  induction ws generalizing w r with
  | nil =>
    obtain ⟨hp, ha, hi, hf⟩ := r.inner.foldl_push (w.map .char)
    refine ⟨(w.map Pattern.char).foldl OpenGroup.push r.inner, hi, hf, ?_, fun is => ?_⟩
    · rw [OpenGroup.body, hp, ha, hparts, List.append_nil, List.reverse_reverse]
      rfl
    · simpa [PatternItem.choiceItems] using foldlM_literal hcase w is
  | cons u ws ih =>
    obtain ⟨hp, ha, hi, hf⟩ := r.inner.foldl_push (w.map .char)
    -- the word becomes a finished alternative at the bar after it
    obtain ⟨g, hgi, hgf, hbody, hfold⟩ := ih
      (r := { r with inner := ((w.map Pattern.char).foldl OpenGroup.push r.inner).nextAlternative })
      hcase rfl u
    refine ⟨g, hgi.trans hi, hgf.trans hf, ?_, fun is => ?_⟩
    · rw [hbody]
      simp only [OpenGroup.nextAlternative, hp, ha, hparts, List.append_nil, List.reverse_reverse,
        List.foldl_cons]
      rfl
    · have hitems : PatternItem.choiceItems (w :: u :: ws) ++ is =
          w.map PatternItem.literal ++ .bar :: (PatternItem.choiceItems (u :: ws) ++ is) := by
        simp [PatternItem.choiceItems]
      rw [hitems, foldlM_literal hcase, List.foldlM_cons, ← hfold is]
      rfl

/-- **Words with bars between them are read as the choice between the words.** -/
theorem exists_foldlM_choiceItems {r : PatternReader} (hcase : r.flags.anyCase = false)
    (hparts : r.inner.parts = []) (hfirst : r.inner.alternatives = []) (ws : List (List Char)) :
    ∃ g : OpenGroup, g.index = r.inner.index ∧ g.outerFlags = r.inner.outerFlags ∧
      g.body = .oneOf ws ∧ ∀ is : List PatternItem,
        (PatternItem.choiceItems ws ++ is).foldlM step r = is.foldlM step { r with inner := g } := by
  cases ws with
  | nil =>
    refine ⟨r.inner, rfl, rfl, ?_, fun is => rfl⟩
    rw [OpenGroup.body, hfirst, hparts]
    rfl
  | cons w ws =>
    obtain ⟨g, hi, hf, hbody, hfold⟩ := exists_foldlM_choiceItems_cons hcase hparts w ws
    exact ⟨g, hi, hf, by rw [hbody, hfirst, List.foldl_nil], hfold⟩

end PatternReader

end LineLexer
