import LineLexer.Pattern.Search

/-!
# Where the matches of a pattern lie

A result of a pattern lies after the place where the match begins: what is left of the text
there is an end part of what was left before, and whatever was captured on the way lies between
the two places (`Pattern.reaches_of_mem_results`).  A match is therefore a stretch of its text
with all its groups inside it (`Pattern.inText_of_find?`).
-/

namespace LineLexer

/-! ### Places and the places after them -/

namespace Cursor

/-- `t` is a place after `s`, or `s` itself, with no captures but those of `s` and some between
the two. -/
structure Reaches (s t : Cursor) : Prop where
  suffix : t.rest <:+ s.rest
  captured : ∃ new, t.captures = new ++ s.captures ∧ ∀ c ∈ new,
    t.left ≤ c.leftAtStop ∧ c.leftAtStop ≤ c.leftAtStart ∧ c.leftAtStart ≤ s.left

theorem Reaches.refl (s : Cursor) : s.Reaches s := ⟨List.suffix_refl _, [], rfl, by simp⟩

theorem Reaches.left_le {s t : Cursor} (h : s.Reaches t) : t.left ≤ s.left := by
  rw [s.left_eq, t.left_eq]
  exact h.suffix.length_le

theorem Reaches.trans {s t u : Cursor} (hst : s.Reaches t) (htu : t.Reaches u) : s.Reaches u := by
  have hs := hst.left_le
  have hu := htu.left_le
  obtain ⟨hsuf, new, hnew, hin⟩ := hst
  obtain ⟨hsuf', new', hnew', hin'⟩ := htu
  refine ⟨hsuf'.trans hsuf, new' ++ new, by rw [hnew', hnew, List.append_assoc], ?_⟩
  intro c hc
  rcases List.mem_append.1 hc with hc | hc
  · have := hin' c hc
    omega
  · have := hin c hc
    omega

theorem Reaches.eq_rest {s t : Cursor} (h : s.Reaches t) (hl : t.left = s.left) :
    t.rest = s.rest := by
  rw [s.left_eq, t.left_eq] at hl
  exact h.suffix.eq_of_length hl

theorem reaches_of_next? {s t : Cursor} {c : Char} (h : s.next? = some (c, t)) : s.Reaches t :=
  ⟨by simp [next?_rest h], [], next?_captures h, by simp⟩

theorem Reaches.capture {s t : Cursor} (h : s.Reaches t) (group : Nat) :
    s.Reaches (t.capture group s) := by
  have hl := h.left_le
  obtain ⟨hsuf, new, hnew, hin⟩ := h
  refine ⟨hsuf, ⟨group, s.left, t.left⟩ :: new, by simp [Cursor.capture, hnew], ?_⟩
  intro c hc
  rcases List.mem_cons.1 hc with rfl | hc
  · exact ⟨Nat.le_refl _, hl, Nat.le_refl _⟩
  · exact hin c hc

end Cursor

namespace Pattern

/-! ### Rounds of a repetition -/

variable {step : Cursor → List Cursor} {greedy : Bool}

theorem mem_rounds {s t : Cursor} :
    t ∈ rounds step greedy s ↔
      t = s ∨ ∃ u ∈ step s, u.left < s.left ∧ t ∈ rounds step greedy u := by
  have more : (t ∈ (step s).flatMap fun u =>
      if _h : u.left < s.left then rounds step greedy u else []) ↔
        ∃ u ∈ step s, u.left < s.left ∧ t ∈ rounds step greedy u := by
    rw [List.mem_flatMap]
    refine exists_congr fun u => and_congr_right fun _ => ?_
    by_cases hu : u.left < s.left <;> simp [hu]
  rw [rounds]
  cases greedy
  · simp only [Bool.false_eq_true, ↓reduceIte, List.mem_cons, more]
  · simp only [↓reduceIte, List.mem_append, List.mem_singleton, more, or_comm]

theorem mem_roundsAfterFirst {s t : Cursor} :
    t ∈ roundsAfterFirst step greedy s ↔
      ∃ u ∈ step s, (u.left < s.left ∧ t ∈ rounds step greedy u) ∨
        (¬ u.left < s.left ∧ t = u) := by
  rw [roundsAfterFirst, List.mem_flatMap]
  refine exists_congr fun u => and_congr_right fun _ => ?_
  by_cases hu : u.left < s.left <;> simp [hu]

theorem mem_results_star {p : Pattern} {s t : Cursor} :
    t ∈ (star greedy p).results s ↔ t = s ∨ t ∈ roundsAfterFirst p.results greedy s := by
  rw [results]
  cases greedy
  · simp only [Bool.false_eq_true, ↓reduceIte, List.mem_cons]
  · simp only [↓reduceIte, List.mem_append, List.mem_singleton, or_comm]

theorem mem_results_opt {p : Pattern} {s t : Cursor} :
    t ∈ (opt greedy p).results s ↔ t = s ∨ t ∈ p.results s := by
  rw [results]
  cases greedy
  · simp only [Bool.false_eq_true, ↓reduceIte, List.mem_cons]
  · simp only [↓reduceIte, List.mem_append, List.mem_singleton, or_comm]

theorem mem_results_set {cs : CharSet} {s t : Cursor} :
    t ∈ (set cs).results s ↔ ∃ c, s.next? = some (c, t) ∧ cs.holds c := by
  rw [results]
  cases h : s.next? with
  | none => simp
  | some next =>
    obtain ⟨c, u⟩ := next
    by_cases hc : cs.holds c
    · simp only [hc, ↓reduceIte, List.mem_singleton, Option.some.injEq, Prod.mk.injEq]
      constructor
      · intro ht
        exact ⟨c, ⟨rfl, ht.symm⟩, hc⟩
      · rintro ⟨d, ⟨-, ht⟩, -⟩
        exact ht.symm
    · simp only [hc, Option.some.injEq, Prod.mk.injEq]
      constructor
      · intro ht
        exact absurd ht List.not_mem_nil
      · rintro ⟨d, ⟨rfl, -⟩, hd⟩
        exact absurd hd hc

theorem mem_results_look {l : Look} {s t : Cursor} :
    t ∈ (look l).results s ↔ t = s ∧ l.holds s.before s.rest.head? := by
  rw [results]
  by_cases h : l.holds s.before s.rest.head?
  · rw [if_pos h, List.mem_singleton, and_iff_left h]
  · rw [if_neg h]
    exact ⟨fun hm => absurd hm List.not_mem_nil, fun hm => absurd hm.2 h⟩

theorem reaches_of_mem_rounds (hstep : ∀ s, ∀ t ∈ step s, s.Reaches t) {s t : Cursor}
    (h : t ∈ rounds step greedy s) : s.Reaches t := by
  generalize hn : s.left = n
  induction n using Nat.strongRecOn generalizing s with
  | ind n ih =>
    obtain rfl | ⟨u, hu, hlt, ht⟩ := mem_rounds.1 h
    · exact .refl _
    · exact (hstep s u hu).trans (ih _ (hn ▸ hlt) ht rfl)

theorem reaches_of_mem_roundsAfterFirst (hstep : ∀ s, ∀ t ∈ step s, s.Reaches t) {s t : Cursor}
    (h : t ∈ roundsAfterFirst step greedy s) : s.Reaches t := by
  obtain ⟨u, hu, ⟨-, ht⟩ | ⟨-, rfl⟩⟩ := mem_roundsAfterFirst.1 h
  · exact (hstep s u hu).trans (reaches_of_mem_rounds hstep ht)
  · exact hstep s t hu

/-! ### Results -/

/-- **Every result of a pattern is a place after the one where the match begins.** -/
theorem reaches_of_mem_results {p : Pattern} {s t : Cursor} (h : t ∈ p.results s) :
    s.Reaches t := by
  induction p generalizing s t with
  | empty =>
    obtain rfl := List.mem_singleton.1 h
    exact .refl _
  | set cs =>
    obtain ⟨c, hc, -⟩ := mem_results_set.1 h
    exact Cursor.reaches_of_next? hc
  | look l =>
    obtain ⟨rfl, -⟩ := mem_results_look.1 h
    exact .refl _
  | seq p q ihp ihq =>
    obtain ⟨u, hu, ht⟩ := List.mem_flatMap.1 h
    exact (ihp hu).trans (ihq ht)
  | alt p q ihp ihq =>
    rcases List.mem_append.1 h with h | h
    · exact ihp h
    · exact ihq h
  | opt greedy p ih =>
    obtain rfl | h := mem_results_opt.1 h
    · exact .refl _
    · exact ih h
  | star greedy p ih =>
    obtain rfl | h := mem_results_star.1 h
    · exact .refl _
    · exact reaches_of_mem_roundsAfterFirst (fun _ _ => ih) h
  | plus greedy p ih => exact reaches_of_mem_roundsAfterFirst (fun _ _ => ih) h
  | group i p ih =>
    obtain ⟨u, hu, rfl⟩ := List.mem_map.1 h
    exact (ih hu).capture i

end Pattern

/-! ### Matches -/

/-- The match is a stretch of a text of `total` characters, and every group that took part lies
in it. -/
structure Match.InText (m : Match) (total : Nat) : Prop where
  start_le : m.start ≤ m.stop
  stop_le : m.stop ≤ total
  groups : ∀ lo hi, some (lo, hi) ∈ m.groups → m.start ≤ lo ∧ lo ≤ hi ∧ hi ≤ m.stop

namespace Pattern

theorem matchAt_eq_some {p : Pattern} {total : Nat} {s : Cursor} {m : Match}
    (h : p.matchAt total s = some m) :
    ∃ t ∈ p.results s, m.start = total - s.left ∧ m.stop = total - t.left ∧
      m.groups = (List.range p.groupCount).map fun i => t.captured? total (i + 1) := by
  obtain ⟨t, ht, rfl⟩ := Option.map_eq_some_iff.1 h
  rw [run_eq] at ht
  obtain ⟨u, hu, hut⟩ := List.exists_of_findSome?_eq_some ht
  obtain rfl := Option.some.inj hut
  exact ⟨u, hu, rfl, rfl, rfl⟩

theorem inText_of_matchAt {p : Pattern} {total : Nat} {s : Cursor} {m : Match}
    (hs : s.captures = []) (hl : s.left ≤ total) (h : p.matchAt total s = some m) :
    m.InText total := by
  obtain ⟨t, ht, hstart, hstop, hgroups⟩ := matchAt_eq_some h
  have hr := reaches_of_mem_results ht
  have hle := hr.left_le
  refine ⟨by omega, by omega, ?_⟩
  intro lo hi hmem
  rw [hgroups] at hmem
  obtain ⟨i, -, hi'⟩ := List.mem_map.1 hmem
  obtain ⟨c, hc, heq⟩ := Option.map_eq_some_iff.1 hi'
  obtain ⟨rfl, rfl⟩ := Prod.mk.inj heq
  -- the start of the text has no captures, so `c` was made by this match
  obtain ⟨new, hnew, hin⟩ := hr.captured
  have := hin c (by simpa [hnew, hs] using List.mem_of_find?_eq_some hc)
  omega

theorem inText_of_firstFrom {p : Pattern} {total : Nat} {s : Cursor} {m : Match}
    (hs : s.captures = []) (hl : s.left ≤ total) (h : p.firstFrom total s = some m) :
    m.InText total := by
  generalize hn : s.left = n
  induction n using Nat.strongRecOn generalizing s with
  | ind n ih =>
    rw [firstFrom, Option.orElse_eq_or, Option.or_eq_some_iff] at h
    obtain h | ⟨-, h⟩ := h
    · exact inText_of_matchAt hs hl h
    · split at h
      · rename_i c t ht
        have hlt := Cursor.next?_left ht
        exact ih _ (hn ▸ hlt) (by rw [Cursor.next?_captures ht, hs]) (by omega) h rfl
      · simp at h

theorem inText_of_find? {p : Pattern} {text : List Char} {m : Match} (h : p.find? text = some m) :
    m.InText text.length := by
  rw [find?_eq] at h
  exact inText_of_firstFrom rfl (Nat.le_refl _) h

end Pattern

end LineLexer
