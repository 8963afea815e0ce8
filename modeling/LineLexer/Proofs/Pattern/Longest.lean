import LineLexer.Proofs.Pattern.Spelling
import LineLexer.Proofs.Text.Runs

/-!
# Patterns that prefer the longest match

The match of a pattern is its first result, which need not be the longest.  It is the longest if
the results come in the order of their length (`Pattern.Descending`), as those of a repeated
character set do, or if only one result of the first part of a sequence leads on
(`Pattern.LongestFirst.seq`).  For such a pattern a match is the longest text that it spells
(`Pattern.find?_eq_some_iff`).
-/

namespace LineLexer

namespace Pattern

/-- The results come with the longest first. -/
def Descending (p : Pattern) : Prop :=
  ∀ s, (p.results s).Pairwise fun t u => t.left ≤ u.left

/-- The first result is a longest one. -/
def LongestFirst (p : Pattern) : Prop :=
  ∀ s t, (p.results s).head? = some t → ∀ u ∈ p.results s, t.left ≤ u.left

/-- There is at most one result. -/
def Single (p : Pattern) : Prop := ∀ s, (p.results s).length ≤ 1

theorem Descending.longestFirst {p : Pattern} (hp : p.Descending) : p.LongestFirst := by
  intro s t ht u hu
  obtain ⟨ts, hts⟩ := List.head?_eq_some_iff.1 ht
  have hpair := hp s
  rw [hts] at hpair hu
  rcases List.mem_cons.1 hu with rfl | hu
  · exact Nat.le_refl _
  · exact List.rel_of_pairwise_cons hpair hu

/-! ### Patterns with one result -/

theorem single_set (cs : CharSet) : (set cs).Single := by
  intro s
  rw [results]
  split
  · split <;> simp
  · simp

theorem single_empty : empty.Single := by
  intro s
  rw [results]
  exact Nat.le_refl 1

theorem single_look (l : Look) : (look l).Single := by
  intro s
  rw [results]
  split <;> simp

theorem Single.eq_nil_or_eq {p : Pattern} (hp : p.Single) (s : Cursor) :
    p.results s = [] ∨ ∃ t, p.results s = [t] := by
  match h : p.results s with
  | [] => exact .inl rfl
  | [t] => exact .inr ⟨t, rfl⟩
  | t :: u :: us =>
    have hlen := hp s
    rw [h] at hlen
    simp at hlen

theorem Single.seq {p q : Pattern} (hp : p.Single) (hq : q.Single) : (seq p q).Single := by
  intro s
  rw [results]
  obtain h | ⟨t, h⟩ := hp.eq_nil_or_eq s
  · simp [h]
  · rw [h, List.flatMap_singleton]
    exact hq t

theorem single_concat {ps : List Pattern} (h : ∀ p ∈ ps, p.Single) : (concat ps).Single := by
  fun_induction concat ps with
  | case1 => exact fun _ => Nat.le_refl _
  | case2 p => exact h p List.mem_cons_self
  | case3 p ps _ ih =>
    exact (h p List.mem_cons_self).seq (ih fun q hq => h q (List.mem_cons_of_mem p hq))

theorem Single.descending {p : Pattern} (hp : p.Single) : p.Descending := by
  intro s
  obtain h | ⟨t, h⟩ := hp.eq_nil_or_eq s
  · rw [h]
    exact .nil
  · rw [h]
    exact List.pairwise_singleton _ t

/-! ### Sequences -/

variable {p q : Pattern}

theorem Descending.seq_of_single (hp : p.Single) (hq : q.Descending) : (seq p q).Descending := by
  intro s
  rw [results]
  obtain h | ⟨t, h⟩ := hp.eq_nil_or_eq s
  · rw [h]
    exact .nil
  · rw [h, List.flatMap_singleton]
    exact hq t

/-- A condition behind a pattern only leaves results out. -/
theorem Descending.seq_look (hp : p.Descending) (l : Look) : (seq p (look l)).Descending := by
  intro s
  have hfilter : (seq p (look l)).results s =
      (p.results s).filter fun t => l.holds t.before t.rest.head? := by
    rw [results]
    induction p.results s with
    | nil => rfl
    | cons t ts ih =>
      rw [List.flatMap_cons, List.filter_cons, ih, results]
      split <;> rfl
  rw [hfilter]
  exact (hp s).filter _

theorem Descending.group (hp : p.Descending) (i : Nat) : (group i p).Descending := by
  intro s
  rw [results, List.pairwise_map]
  exact hp s

/-- **A sequence prefers the longest match** if its second part does and only one result of the
first part leads on. -/
theorem LongestFirst.seq (hq : q.LongestFirst)
    (hp : ∀ s, ∀ t ∈ p.results s, ∀ u ∈ p.results s, q.results t ≠ [] → q.results u ≠ [] → t = u) :
    (seq p q).LongestFirst := by
  intro s t ht u hu
  rw [results] at ht hu
  obtain ⟨r, hr, htr⟩ := List.mem_flatMap.1 (List.mem_of_head? ht)
  obtain ⟨r', hr', hur'⟩ := List.mem_flatMap.1 hu
  obtain rfl := hp s r hr r' hr' (List.ne_nil_of_mem htr) (List.ne_nil_of_mem hur')
  refine hq r t ?_ u hur'
  -- all results are results of the second part at `r`
  have hone : ∀ xs : List Cursor, (∀ x ∈ xs, x ∈ p.results s) →
      (xs.flatMap q.results).head? = some t → (q.results r).head? = some t := by
    intro xs hxs hhead
    induction xs with
    | nil => simp at hhead
    | cons x xs ih =>
      by_cases hx : q.results x = []
      · rw [List.flatMap_cons, hx, List.nil_append] at hhead
        exact ih (fun y hy => hxs y (List.mem_cons_of_mem x hy)) hhead
      · obtain rfl := hp s x (hxs x List.mem_cons_self) r hr hx (List.ne_nil_of_mem htr)
        obtain ⟨y, ys, hy⟩ := List.exists_cons_of_ne_nil hx
        rw [List.flatMap_cons, hy] at hhead
        rw [hy]
        exact hhead
  exact hone _ (fun _ hx => hx) ht

theorem LongestFirst.seq_of_single (hq : q.LongestFirst) (hp : p.Single) :
    (Pattern.seq p q).LongestFirst := by
  refine hq.seq ?_
  intro s t ht u hu _ _
  obtain h | ⟨r, h⟩ := hp.eq_nil_or_eq s
  · simp [h] at ht
  · rw [h, List.mem_singleton] at ht hu
    rw [ht, hu]

theorem Single.group (hp : p.Single) (i : Nat) : (Pattern.group i p).Single := by
  intro s
  rw [results, List.length_map]
  exact hp s

/-! ### Runs of characters in front -/

section

variable {c : Char → Bool}

/-- Behind a result that leads on stands no character of the run. -/
theorem head?_of_results_ne_nil (hnext : ∀ before w after, q.Spells before w after →
    ∃ d, (w ++ after).head? = some d ∧ c d = false) {r : Cursor} (h : q.results r ≠ []) :
    ∀ d ∈ r.rest.head?, c d = false := by
  obtain ⟨t, ht⟩ := List.exists_mem_of_ne_nil _ h
  obtain ⟨w, hpass, hspells⟩ := spells_of_mem_results ht
  obtain ⟨d, hd, hcd⟩ := hnext _ _ _ hspells
  have hrest : r.rest = w ++ t.rest := hpass.rest_eq
  rintro e he
  rw [hrest, hd] at he
  obtain rfl := Option.some.inj he
  exact hcd

/-- Only one result of a run is all of it. -/
theorem eq_of_mem_results_of_run (hplain : p.isPlain)
    (hrun : ∀ before w after, p.Spells before w after → ∀ d ∈ w, c d) {s t u : Cursor}
    (ht : t ∈ p.results s) (hu : u ∈ p.results s) (hts : ∀ d ∈ t.rest.head?, c d = false)
    (hus : ∀ d ∈ u.rest.head?, c d = false) : t = u := by
  obtain ⟨w, x, hrest, hspells, rfl⟩ := (mem_results_iff hplain).1 ht
  obtain ⟨w', x', hrest', hspells', rfl⟩ := (mem_results_iff hplain).1 hu
  have hx := (Cursor.passes_skip hrest).rest_eq
  have hx' := (Cursor.passes_skip hrest').rest_eq
  obtain ⟨rfl, -⟩ := eq_of_run (hx.symm.trans hx') (hrun _ _ _ hspells) hts
    (hrun _ _ _ hspells') hus
  rfl

/-- **A run of characters in front of a part that cannot begin with one of them**: only the whole
run leads on. -/
theorem LongestFirst.seq_of_run (hplain : p.isPlain)
    (hrun : ∀ before w after, p.Spells before w after → ∀ d ∈ w, c d)
    (hnext : ∀ before w after, q.Spells before w after → ∃ d, (w ++ after).head? = some d ∧
      c d = false) (hq : q.LongestFirst) : (Pattern.seq p q).LongestFirst := by
  refine hq.seq ?_
  intro s t ht u hu htq huq
  exact eq_of_mem_results_of_run hplain hrun ht hu (head?_of_results_ne_nil hnext htq)
    (head?_of_results_ne_nil hnext huq)

/-- The run may be captured. -/
theorem LongestFirst.run_seq (i : Nat) (hplain : p.isPlain)
    (hrun : ∀ before w after, p.Spells before w after → ∀ d ∈ w, c d)
    (hnext : ∀ before w after, q.Spells before w after → ∃ d, (w ++ after).head? = some d ∧
      c d = false) (hq : q.LongestFirst) : (Pattern.seq (.group i p) q).LongestFirst := by
  refine hq.seq ?_
  intro s t ht u hu htq huq
  obtain ⟨r, hr, rfl⟩ := List.mem_map.1 ht
  obtain ⟨r', hr', rfl⟩ := List.mem_map.1 hu
  have hstops := head?_of_results_ne_nil (r := r.capture i s) hnext htq
  have hstops' := head?_of_results_ne_nil (r := r'.capture i s) hnext huq
  rw [eq_of_mem_results_of_run hplain hrun hr hr' hstops hstops']

end

/-! ### Alternatives -/

/-- **An alternative prefers the longest match** if both sides do, and what the second side spells
is no longer than what the first side spells there. -/
theorem LongestFirst.alt (hp : p.LongestFirst) (hq : q.LongestFirst)
    (hle : ∀ before w after w' after', w ++ after = w' ++ after' → p.Spells before w after →
      q.Spells before w' after' → w'.length ≤ w.length) : (Pattern.alt p q).LongestFirst := by
  intro s t ht u hu
  rw [results] at ht hu
  by_cases hnil : p.results s = []
  · rw [hnil, List.nil_append] at ht hu
    exact hq s t ht u hu
  obtain ⟨x, xs, hx⟩ := List.exists_cons_of_ne_nil hnil
  rw [hx, List.cons_append, List.head?_cons] at ht
  obtain rfl := Option.some.inj ht
  have hhead : (p.results s).head? = some x := by rw [hx, List.head?_cons]
  rcases List.mem_append.1 hu with hu | hu
  · exact hp s x hhead u hu
  · obtain ⟨w, hpass, hspells⟩ := spells_of_mem_results (List.mem_of_head? hhead)
    obtain ⟨w', hpass', hspells'⟩ := spells_of_mem_results hu
    have hlen := hle _ _ _ _ _ (hpass.rest_eq.symm.trans hpass'.rest_eq) hspells hspells'
    have hleft : s.left = w.length + x.left := hpass.left_eq
    have hleft' : s.left = w'.length + u.left := hpass'.left_eq
    omega

/-! ### Repeated sets -/

theorem pairwise_rounds (hp : p.Single) (s : Cursor) :
    (rounds p.results true s).Pairwise fun t u => t.left ≤ u.left := by
  generalize hn : s.left = n
  induction n using Nat.strongRecOn generalizing s with
  | ind n ih =>
    rw [rounds]
    obtain h | ⟨t, h⟩ := hp.eq_nil_or_eq s
    · simp [h]
    · by_cases hlt : t.left < s.left
      · simp only [h, List.flatMap_singleton, hlt, ↓reduceDIte, ↓reduceIte]
        refine List.pairwise_append.2 ⟨ih _ (hn ▸ hlt) t rfl, List.pairwise_singleton _ s, ?_⟩
        intro u hu v hv
        obtain rfl := List.mem_singleton.1 hv
        have hreach := reaches_of_mem_rounds (fun _ _ => reaches_of_mem_results) hu
        have := hreach.left_le
        omega
      · simp [h, hlt]

theorem pairwise_roundsAfterFirst (hp : p.Single) (s : Cursor) :
    (roundsAfterFirst p.results true s).Pairwise fun t u => t.left ≤ u.left := by
  rw [roundsAfterFirst]
  obtain h | ⟨t, h⟩ := hp.eq_nil_or_eq s
  · simp [h]
  · rw [h, List.flatMap_singleton]
    split
    · exact pairwise_rounds hp t
    · exact List.pairwise_singleton _ t

theorem Single.descending_plus (hp : p.Single) : (plus true p).Descending :=
  pairwise_roundsAfterFirst hp

theorem Single.descending_star (hp : p.Single) : (star true p).Descending := by
  intro s
  rw [results]
  refine List.pairwise_append.2 ⟨pairwise_roundsAfterFirst hp s, List.pairwise_singleton _ s, ?_⟩
  intro u hu v hv
  obtain rfl := List.mem_singleton.1 hv
  exact (reaches_of_mem_roundsAfterFirst (fun _ _ => reaches_of_mem_results) hu).left_le

/-! ### Choices between words -/

theorem single_word (u : List Char) : (word u).Single := by
  refine single_concat ?_
  intro p hp
  obtain ⟨c, -, rfl⟩ := List.mem_map.1 hp
  exact single_set _

theorem results_word (u : List Char) (s : Cursor) :
    (word u).results s = if u.isPrefixOf s.rest then [s.skip u.length] else [] := by
  by_cases hu : u.isPrefixOf s.rest
  · rw [if_pos hu]
    obtain ⟨r, hr⟩ := List.isPrefixOf_iff_prefix.1 hu
    have hmem : s.skip u.length ∈ (word u).results s :=
      (mem_results_iff (isPlain_word u)).2 ⟨u, r, hr.symm, spells_word.2 rfl, rfl⟩
    obtain h | ⟨t, h⟩ := (single_word u).eq_nil_or_eq s
    · simp [h] at hmem
    · rw [h, List.mem_singleton] at hmem
      rw [h, hmem]
  · rw [if_neg hu, List.eq_nil_iff_forall_not_mem]
    intro t ht
    obtain ⟨w, r, hrest, hspells, -⟩ := (mem_results_iff (isPlain_word u)).1 ht
    obtain rfl := spells_word.1 hspells
    exact hu (List.isPrefixOf_iff_prefix.2 ⟨r, hrest.symm⟩)

/-- **A choice between words tries them in their order.** -/
theorem results_oneOf {ws : List (List Char)} (hne : ws ≠ []) (s : Cursor) :
    (oneOf ws).results s =
      (ws.filter fun w => w.isPrefixOf s.rest).map fun w => s.skip w.length := by
  have hchoice : ∀ (w : List Char) (ws : List (List Char)),
      (choice (word w) (ws.map word)).results s =
        (w :: ws).flatMap fun w => if w.isPrefixOf s.rest then [s.skip w.length] else [] := by
    intro w ws
    induction ws generalizing w with
    | nil => simp [choice, results_word]
    | cons u us ih =>
      rw [List.map_cons, choice, results, ih u, results_word]
      simp only [List.flatMap_cons]
  obtain ⟨w, ws, rfl⟩ := List.exists_cons_of_ne_nil hne
  rw [oneOf, hchoice]
  induction w :: ws with
  | nil => rfl
  | cons u us ih =>
    rw [List.flatMap_cons, ih, List.filter_cons]
    split <;> rfl

theorem descending_oneOf {ws : List (List Char)} (hne : ws ≠ [])
    (hws : ws.Pairwise fun u v => v.length ≤ u.length) : (oneOf ws).Descending := by
  intro s
  rw [results_oneOf hne, List.pairwise_map]
  refine (hws.filter _).imp ?_
  intro u v hle
  simp only [Cursor.skip, List.length_drop]
  omega

/-! ### The longest text that is spelled -/

/-- The text begins with `w`, and no longer front of it is spelled. -/
structure Longest (p : Pattern) (text w after : List Char) : Prop where
  text_eq : text = w ++ after
  spells : p.Spells none w after
  longest : ∀ w' after', text = w' ++ after' → p.Spells none w' after' → w'.length ≤ w.length

variable {text w after : List Char}

theorem Longest.unique {w' after' : List Char} (h : p.Longest text w after)
    (h' : p.Longest text w' after') : w = w' ∧ after = after' := by
  have hlen : w.length = w'.length :=
    Nat.le_antisymm (h'.longest _ _ h.text_eq h.spells) (h.longest _ _ h'.text_eq h'.spells)
  exact List.append_inj (h.text_eq.symm.trans h'.text_eq) hlen

theorem run_some (p : Pattern) (s : Cursor) : p.run s some = (p.results s).head? := by
  rw [run_eq]
  cases p.results s with
  | nil => rfl
  | cons t ts => rfl

/-- **A match of a pattern that prefers the longest match is the longest one.** -/
theorem exists_longest_of_find? (hstart : p.startsAtTextStart) (hp : p.LongestFirst) {m : Match}
    (h : p.find? text = some m) :
    ∃ w after, p.Longest text w after ∧ m.start = 0 ∧ m.stop = w.length := by
  rw [find?, if_pos hstart, matchAt, run_some] at h
  obtain ⟨t, ht, rfl⟩ := Option.map_eq_some_iff.1 h
  obtain ⟨w, hpass, hspells⟩ := spells_of_mem_results (List.mem_of_head? ht)
  have hleft : text.length = w.length + t.left := hpass.left_eq
  refine ⟨w, t.rest, ⟨hpass.rest_eq, hspells, ?_⟩, Nat.sub_self _, by dsimp only; omega⟩
  intro w' after' htext hspells'
  obtain ⟨u, hu, hpass'⟩ := exists_mem_results (s := .start text) htext hspells'
  have hle := hp _ t ht u hu
  have hleft' : text.length = w'.length + u.left := hpass'.left_eq
  omega

theorem groupCount_of_isPlain (hp : p.isPlain) : p.groupCount = 0 := by
  induction p with
  | empty | set | look => rfl
  | seq p q ihp ihq | alt p q ihp ihq =>
    rw [isPlain, Bool.and_eq_true] at hp
    rw [groupCount, ihp hp.1, ihq hp.2, Nat.max_self]
  | opt _ p ih | star _ p ih | plus _ p ih => exact ih hp
  | group => simp [isPlain] at hp

theorem longest_textStart_seq :
    (seq (look .textStart) p).Longest text w after ↔ p.Longest text w after := by
  constructor
  · rintro ⟨htext, hspells, hlongest⟩
    refine ⟨htext, spells_textStart_seq.1 hspells, ?_⟩
    intro w' after' htext' hspells'
    exact hlongest w' after' htext' (spells_textStart_seq.2 hspells')
  · rintro ⟨htext, hspells, hlongest⟩
    refine ⟨htext, spells_textStart_seq.2 hspells, ?_⟩
    intro w' after' htext' hspells'
    exact hlongest w' after' htext' (spells_textStart_seq.1 hspells')

/-- **The match of a pattern without groups that prefers the longest match**, at the start of the
text. -/
theorem find?_eq_some_iff (hplain : p.isPlain) (hp : p.LongestFirst) {m : Match} :
    (seq (look .textStart) p).find? text = some m ↔
      ∃ w after, p.Longest text w after ∧ m = ⟨0, w.length, []⟩ := by
  have hstart : (seq (look .textStart) p).startsAtTextStart := rfl
  have hfirst : (seq (look .textStart) p).LongestFirst := hp.seq_of_single (single_look _)
  have hgroups {m : Match} (h : (seq (look .textStart) p).find? text = some m) :
      m.groups = [] := by
    rw [find?, if_pos hstart] at h
    obtain ⟨t, -, -, -, hgroups⟩ := matchAt_eq_some h
    rw [hgroups, groupCount, groupCount_of_isPlain hplain]
    rfl
  constructor
  · intro h
    obtain ⟨w, after, hlongest, hzero, hstop⟩ := exists_longest_of_find? hstart hfirst h
    refine ⟨w, after, longest_textStart_seq.1 hlongest, ?_⟩
    rw [← hzero, ← hstop, ← hgroups h]
  · rintro ⟨w, after, hlongest, rfl⟩
    have hsome := find?_isSome_of_spells (spells_textStart_seq.2 hlongest.spells)
    rw [← hlongest.text_eq] at hsome
    obtain ⟨m, hm⟩ := Option.isSome_iff_exists.1 hsome
    obtain ⟨w', after', hlongest', hzero, hstop⟩ := exists_longest_of_find? hstart hfirst hm
    obtain ⟨rfl, -⟩ := (longest_textStart_seq.1 hlongest').unique hlongest
    rw [hm, ← hzero, ← hstop, ← hgroups hm]

end Pattern

end LineLexer
