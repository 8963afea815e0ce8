import LineLexer.Proofs.Pattern.Reading
import LineLexer.Proofs.Pattern.Shape

/-!
# The texts that a pattern spells

`Pattern.Spells` says which texts a pattern matches between a character and a text after it.  It
leaves out in which order matches are preferred and what the groups capture: the results of a
pattern lie exactly behind the texts that it spells (`Pattern.spells_of_mem_results` and
`Pattern.exists_mem_results`), and a pattern without groups changes nothing but the place
(`Pattern.mem_results_iff`).
-/

namespace LineLexer

/-! ### Places behind a text -/

namespace Cursor

theorem eq_of_rest_eq {s t : Cursor} (hbefore : s.before = t.before) (hrest : s.rest = t.rest)
    (hcaptures : s.captures = t.captures) : s = t := by
  obtain ⟨before, rest, left, captures, hleft⟩ := s
  obtain ⟨before', rest', left', captures', hleft'⟩ := t
  obtain rfl := hbefore
  obtain rfl := hrest
  obtain rfl := hcaptures
  obtain rfl := hleft
  obtain rfl := hleft'
  rfl

/-- The place behind the next `n` characters. -/
def skip (s : Cursor) (n : Nat) : Cursor :=
  { before := (s.rest.take n).getLast?.or s.before, rest := s.rest.drop n,
    left := (s.rest.drop n).length, captures := s.captures }

@[simp] theorem captures_skip (s : Cursor) (n : Nat) : (s.skip n).captures = s.captures := rfl

/-- `t` lies behind the text `w` that follows `s`. -/
structure Passes (s : Cursor) (w : List Char) (t : Cursor) : Prop where
  rest_eq : s.rest = w ++ t.rest
  before_eq : t.before = w.getLast?.or s.before

variable {s t u : Cursor} {w v : List Char}

theorem Passes.refl (s : Cursor) : s.Passes [] s := ⟨rfl, rfl⟩

theorem Passes.trans (h : s.Passes w t) (h' : t.Passes v u) : s.Passes (w ++ v) u where
  rest_eq := by rw [h.rest_eq, h'.rest_eq, List.append_assoc]
  before_eq := by rw [h'.before_eq, h.before_eq, List.getLast?_append, Option.or_assoc]

theorem Passes.left_eq (h : s.Passes w t) : s.left = w.length + t.left := by
  rw [s.left_eq, t.left_eq, h.rest_eq, List.length_append]

theorem Passes.left_lt_iff (h : s.Passes w t) : t.left < s.left ↔ w ≠ [] := by
  rw [h.left_eq, ← List.length_pos_iff]
  omega

theorem Passes.capture (h : s.Passes w t) (i : Nat) (begun : Cursor) :
    s.Passes w (t.capture i begun) := ⟨h.rest_eq, h.before_eq⟩

theorem passes_of_next? {c : Char} (h : s.next? = some (c, t)) : s.Passes [c] t :=
  ⟨next?_rest h, next?_before h⟩

theorem exists_next? {c : Char} {r : List Char} (h : s.rest = c :: r) :
    ∃ t, s.next? = some (c, t) := by
  unfold next?
  split
  · rename_i hnil
    exact absurd (h.symm.trans hnil) (List.cons_ne_nil _ _)
  · rename_i d cs hcons
    obtain ⟨rfl, -⟩ := List.cons.inj (h.symm.trans hcons)
    exact ⟨_, rfl⟩

theorem passes_skip {r : List Char} (h : s.rest = w ++ r) : s.Passes w (s.skip w.length) := by
  refine ⟨?_, ?_⟩
  · simp [skip, h]
  · simp [skip, h]

theorem Passes.eq_skip (h : s.Passes w t) (hcaptures : t.captures = s.captures) :
    t = s.skip w.length := by
  have hskip := passes_skip h.rest_eq
  refine eq_of_rest_eq (h.before_eq.trans hskip.before_eq.symm) ?_ hcaptures
  exact List.append_cancel_left (h.rest_eq.symm.trans hskip.rest_eq)

end Cursor

namespace Pattern

/-! ### Spelling -/

/-- The text is made of rounds that each spell something that is not empty. -/
inductive Rounds (spells : Option Char → List Char → List Char → Prop) :
    Option Char → List Char → List Char → Prop where
  | nil (before : Option Char) (after : List Char) : Rounds spells before [] after
  | cons {before : Option Char} {u v after : List Char} : u ≠ [] → spells before u (v ++ after) →
      Rounds spells (u.getLast?.or before) v after → Rounds spells before (u ++ v) after

/-- The pattern matches the text `w` between the character `before`, if there is one, and the
text `after`. -/
def Spells : Pattern → Option Char → List Char → List Char → Prop
  | .empty, _, w, _ => w = []
  | .set cs, _, w, _ => ∃ c, cs.holds c ∧ w = [c]
  | .look l, before, w, after => w = [] ∧ l.holds before after.head?
  | .seq p q, before, w, after => ∃ u v, w = u ++ v ∧ p.Spells before u (v ++ after) ∧
      q.Spells (u.getLast?.or before) v after
  | .alt p q, before, w, after => p.Spells before w after ∨ q.Spells before w after
  | .opt _ p, before, w, after => w = [] ∨ p.Spells before w after
  | .star _ p, before, w, after => Rounds p.Spells before w after
  | .plus _ p, before, w, after => ∃ u v, w = u ++ v ∧ p.Spells before u (v ++ after) ∧
      (u = [] → v = []) ∧ Rounds p.Spells (u.getLast?.or before) v after
  | .group _ p, before, w, after => p.Spells before w after

/-! ### Results spell what they pass -/

section

variable {p : Pattern} {s t : Cursor} {greedy : Bool}

theorem rounds_of_mem_rounds
    (hp : ∀ s t, t ∈ p.results s → ∃ w, s.Passes w t ∧ p.Spells s.before w t.rest)
    (h : t ∈ rounds p.results greedy s) :
    ∃ w, s.Passes w t ∧ Rounds p.Spells s.before w t.rest := by
  generalize hn : s.left = n
  induction n using Nat.strongRecOn generalizing s with
  | ind n ih =>
    obtain rfl | ⟨u, hu, hlt, ht⟩ := mem_rounds.1 h
    · exact ⟨[], .refl _, .nil _ _⟩
    · obtain ⟨w, hw, hspells⟩ := hp s u hu
      obtain ⟨v, hv, hrounds⟩ := ih _ (hn ▸ hlt) ht rfl
      refine ⟨w ++ v, hw.trans hv, .cons (hw.left_lt_iff.1 hlt) ?_ ?_⟩
      · rwa [← hv.rest_eq]
      · rwa [← hw.before_eq]

theorem rounds_of_mem_roundsAfterFirst
    (hp : ∀ s t, t ∈ p.results s → ∃ w, s.Passes w t ∧ p.Spells s.before w t.rest)
    (h : t ∈ roundsAfterFirst p.results greedy s) :
    ∃ u v, s.Passes (u ++ v) t ∧ p.Spells s.before u (v ++ t.rest) ∧ (u = [] → v = []) ∧
      Rounds p.Spells (u.getLast?.or s.before) v t.rest := by
  obtain ⟨r, hr, ⟨hlt, ht⟩ | ⟨hle, rfl⟩⟩ := mem_roundsAfterFirst.1 h
  · obtain ⟨u, hu, hspells⟩ := hp s r hr
    obtain ⟨v, hv, hrounds⟩ := rounds_of_mem_rounds hp ht
    refine ⟨u, v, hu.trans hv, ?_, ?_, ?_⟩
    · rwa [← hv.rest_eq]
    · intro hnil
      exact absurd hnil (hu.left_lt_iff.1 hlt)
    · rwa [← hu.before_eq]
  · obtain ⟨u, hu, hspells⟩ := hp s t hr
    exact ⟨u, [], by simpa using hu, by simpa using hspells, fun _ => rfl, .nil _ _⟩

/-- **A result of a pattern lies behind a text that the pattern spells.** -/
theorem spells_of_mem_results (h : t ∈ p.results s) :
    ∃ w, s.Passes w t ∧ p.Spells s.before w t.rest := by
  induction p generalizing s t with
  | empty =>
    obtain rfl := List.mem_singleton.1 h
    exact ⟨[], .refl _, rfl⟩
  | set cs =>
    obtain ⟨c, hc, hholds⟩ := mem_results_set.1 h
    exact ⟨[c], Cursor.passes_of_next? hc, c, hholds, rfl⟩
  | look l =>
    obtain ⟨rfl, hholds⟩ := mem_results_look.1 h
    exact ⟨[], .refl _, rfl, hholds⟩
  | seq p q ihp ihq =>
    obtain ⟨r, hr, ht⟩ := List.mem_flatMap.1 h
    obtain ⟨u, hu, hp⟩ := ihp hr
    obtain ⟨v, hv, hq⟩ := ihq ht
    rw [hv.rest_eq] at hp
    rw [hu.before_eq] at hq
    exact ⟨u ++ v, hu.trans hv, u, v, rfl, hp, hq⟩
  | alt p q ihp ihq =>
    rcases List.mem_append.1 h with h | h
    · obtain ⟨w, hw, hp⟩ := ihp h
      exact ⟨w, hw, .inl hp⟩
    · obtain ⟨w, hw, hq⟩ := ihq h
      exact ⟨w, hw, .inr hq⟩
  | opt greedy p ih =>
    obtain rfl | h := mem_results_opt.1 h
    · exact ⟨[], .refl _, .inl rfl⟩
    · obtain ⟨w, hw, hp⟩ := ih h
      exact ⟨w, hw, .inr hp⟩
  | star greedy p ih =>
    obtain rfl | h := mem_results_star.1 h
    · exact ⟨[], .refl _, .nil _ _⟩
    · obtain ⟨u, v, hpass, hu, hnil, hv⟩ := rounds_of_mem_roundsAfterFirst (fun _ _ => ih) h
      refine ⟨u ++ v, hpass, ?_⟩
      by_cases hempty : u = []
      · -- rounds that consume nothing are not counted, so this is no round at all
        obtain rfl := hnil hempty
        rw [hempty]
        exact .nil _ _
      · exact .cons hempty hu hv
  | plus greedy p ih =>
    obtain ⟨u, v, hpass, hu, hnil, hv⟩ := rounds_of_mem_roundsAfterFirst (fun _ _ => ih) h
    exact ⟨u ++ v, hpass, u, v, rfl, hu, hnil, hv⟩
  | group i p ih =>
    obtain ⟨r, hr, rfl⟩ := List.mem_map.1 h
    obtain ⟨w, hw, hp⟩ := ih hr
    exact ⟨w, hw.capture i s, hp⟩

end

/-! ### What is spelled is a result -/

section

variable {p : Pattern}

theorem exists_mem_rounds (greedy : Bool) {before : Option Char} {w r : List Char}
    (hp : ∀ (s : Cursor) (w r : List Char), s.rest = w ++ r → p.Spells s.before w r →
      ∃ t ∈ p.results s, s.Passes w t)
    (h : Rounds p.Spells before w r) (s : Cursor) (hbefore : s.before = before)
    (hrest : s.rest = w ++ r) : ∃ t ∈ rounds p.results greedy s, s.Passes w t := by
  induction h generalizing s with
  | nil => exact ⟨s, mem_rounds.2 (.inl rfl), .refl s⟩
  | @cons before u v r hne hspells _ ih =>
    rw [List.append_assoc] at hrest
    obtain ⟨m, hm, hpass⟩ := hp s u (v ++ r) hrest (hbefore ▸ hspells)
    have hmrest : m.rest = v ++ r := List.append_cancel_left (hpass.rest_eq.symm.trans hrest)
    obtain ⟨t, ht, hpass'⟩ := ih m (by rw [hpass.before_eq, hbefore]) hmrest
    exact ⟨t, mem_rounds.2 (.inr ⟨m, hm, hpass.left_lt_iff.2 hne, ht⟩), hpass.trans hpass'⟩

/-- **Behind a text that a pattern spells there is a result of it.** -/
theorem exists_mem_results {s : Cursor} {w r : List Char} (hrest : s.rest = w ++ r)
    (h : p.Spells s.before w r) : ∃ t ∈ p.results s, s.Passes w t := by
  induction p generalizing s w r with
  | empty =>
    obtain rfl : w = [] := h
    exact ⟨s, List.mem_singleton_self s, .refl s⟩
  | set cs =>
    obtain ⟨c, hholds, rfl⟩ := h
    obtain ⟨t, ht⟩ := Cursor.exists_next? hrest
    exact ⟨t, mem_results_set.2 ⟨c, ht, hholds⟩, Cursor.passes_of_next? ht⟩
  | look l =>
    obtain ⟨rfl, hholds⟩ := h
    rw [List.nil_append] at hrest
    exact ⟨s, mem_results_look.2 ⟨rfl, by rwa [hrest]⟩, .refl s⟩
  | seq p q ihp ihq =>
    obtain ⟨u, v, rfl, hp, hq⟩ := h
    rw [List.append_assoc] at hrest
    obtain ⟨m, hm, hpass⟩ := ihp hrest hp
    have hmrest : m.rest = v ++ r := List.append_cancel_left (hpass.rest_eq.symm.trans hrest)
    obtain ⟨t, ht, hpass'⟩ := ihq hmrest (hpass.before_eq ▸ hq)
    exact ⟨t, List.mem_flatMap.2 ⟨m, hm, ht⟩, hpass.trans hpass'⟩
  | alt p q ihp ihq =>
    rcases h with h | h
    · obtain ⟨t, ht, hpass⟩ := ihp hrest h
      exact ⟨t, List.mem_append_left _ ht, hpass⟩
    · obtain ⟨t, ht, hpass⟩ := ihq hrest h
      exact ⟨t, List.mem_append_right _ ht, hpass⟩
  | opt greedy p ih =>
    rcases h with rfl | h
    · exact ⟨s, mem_results_opt.2 (.inl rfl), .refl s⟩
    · obtain ⟨t, ht, hpass⟩ := ih hrest h
      exact ⟨t, mem_results_opt.2 (.inr ht), hpass⟩
  | star greedy p ih =>
    cases h with
    | nil => exact ⟨s, mem_results_star.2 (.inl rfl), .refl s⟩
    | @cons _ u v _ hne hspells hrounds =>
      rw [List.append_assoc] at hrest
      obtain ⟨m, hm, hpass⟩ := ih hrest hspells
      have hmrest : m.rest = v ++ r := List.append_cancel_left (hpass.rest_eq.symm.trans hrest)
      obtain ⟨t, ht, hpass'⟩ := exists_mem_rounds greedy (fun _ _ _ => ih) hrounds m
        hpass.before_eq hmrest
      -- the first round consumes a text, so the others are tried behind it
      have hfirst := mem_roundsAfterFirst.2 ⟨m, hm, .inl ⟨hpass.left_lt_iff.2 hne, ht⟩⟩
      exact ⟨t, mem_results_star.2 (.inr hfirst), hpass.trans hpass'⟩
  | plus greedy p ih =>
    obtain ⟨u, v, rfl, hspells, hnil, hrounds⟩ := h
    rw [List.append_assoc] at hrest
    obtain ⟨m, hm, hpass⟩ := ih hrest hspells
    have hmrest : m.rest = v ++ r := List.append_cancel_left (hpass.rest_eq.symm.trans hrest)
    by_cases hempty : u = []
    · -- a first round that consumes nothing is the only one
      obtain rfl := hnil hempty
      rw [List.append_nil]
      have hle : ¬ m.left < s.left := fun hlt => hpass.left_lt_iff.1 hlt hempty
      exact ⟨m, mem_roundsAfterFirst.2 ⟨m, hm, .inr ⟨hle, rfl⟩⟩, hpass⟩
    · obtain ⟨t, ht, hpass'⟩ := exists_mem_rounds greedy (fun _ _ _ => ih) hrounds m
        hpass.before_eq hmrest
      exact ⟨t, mem_roundsAfterFirst.2 ⟨m, hm, .inl ⟨hpass.left_lt_iff.2 hempty, ht⟩⟩,
        hpass.trans hpass'⟩
  | group i p ih =>
    obtain ⟨t, ht, hpass⟩ := ih hrest h
    exact ⟨t.capture i s, List.mem_map_of_mem ht, hpass.capture i s⟩

end

/-! ### Patterns without groups -/

/-- The pattern has no groups. -/
def isPlain : Pattern → Bool
  | .empty | .set _ | .look _ => true
  | .seq p q | .alt p q => p.isPlain && q.isPlain
  | .opt _ p | .star _ p | .plus _ p => p.isPlain
  | .group _ _ => false

theorem isPlain_concat {ps : List Pattern} (h : ∀ p ∈ ps, p.isPlain) : (concat ps).isPlain := by
  fun_induction concat ps with
  | case1 => rfl
  | case2 p => exact h p List.mem_cons_self
  | case3 p ps _ ih =>
    rw [isPlain, Bool.and_eq_true]
    exact ⟨h p List.mem_cons_self, ih fun q hq => h q (List.mem_cons_of_mem p hq)⟩

theorem isPlain_word (w : List Char) : (word w).isPlain := by
  refine isPlain_concat ?_
  intro p hp
  obtain ⟨c, -, rfl⟩ := List.mem_map.1 hp
  rfl

section

variable {p : Pattern} {s t : Cursor}

theorem captures_eq_of_mem_rounds {step : Cursor → List Cursor} {greedy : Bool}
    (hstep : ∀ s, ∀ t ∈ step s, t.captures = s.captures) (h : t ∈ rounds step greedy s) :
    t.captures = s.captures := by
  generalize hn : s.left = n
  induction n using Nat.strongRecOn generalizing s with
  | ind n ih =>
    obtain rfl | ⟨u, hu, hlt, ht⟩ := mem_rounds.1 h
    · rfl
    · rw [ih _ (hn ▸ hlt) ht rfl, hstep s u hu]

theorem captures_eq_of_mem_roundsAfterFirst {step : Cursor → List Cursor} {greedy : Bool}
    (hstep : ∀ s, ∀ t ∈ step s, t.captures = s.captures) (h : t ∈ roundsAfterFirst step greedy s) :
    t.captures = s.captures := by
  obtain ⟨u, hu, ⟨-, ht⟩ | ⟨-, rfl⟩⟩ := mem_roundsAfterFirst.1 h
  · rw [captures_eq_of_mem_rounds hstep ht, hstep s u hu]
  · exact hstep s t hu

theorem captures_eq_of_mem_results (hp : p.isPlain) (h : t ∈ p.results s) :
    t.captures = s.captures := by
  induction p generalizing s t with
  | empty =>
    obtain rfl := List.mem_singleton.1 h
    rfl
  | set cs =>
    obtain ⟨c, hc, -⟩ := mem_results_set.1 h
    exact Cursor.next?_captures hc
  | look l =>
    obtain ⟨rfl, -⟩ := mem_results_look.1 h
    rfl
  | seq p q ihp ihq =>
    rw [isPlain, Bool.and_eq_true] at hp
    obtain ⟨u, hu, ht⟩ := List.mem_flatMap.1 h
    rw [ihq hp.2 ht, ihp hp.1 hu]
  | alt p q ihp ihq =>
    rw [isPlain, Bool.and_eq_true] at hp
    rcases List.mem_append.1 h with h | h
    · exact ihp hp.1 h
    · exact ihq hp.2 h
  | opt greedy p ih =>
    obtain rfl | h := mem_results_opt.1 h
    · rfl
    · exact ih hp h
  | star greedy p ih =>
    obtain rfl | h := mem_results_star.1 h
    · rfl
    · exact captures_eq_of_mem_roundsAfterFirst (fun _ _ => ih hp) h
  | plus greedy p ih => exact captures_eq_of_mem_roundsAfterFirst (fun _ _ => ih hp) h
  | group i p => simp [isPlain] at hp

/-- **The results of a pattern without groups** are the places behind the texts that it
spells. -/
theorem mem_results_iff (hp : p.isPlain) :
    t ∈ p.results s ↔ ∃ w r, s.rest = w ++ r ∧ p.Spells s.before w r ∧ t = s.skip w.length := by
  constructor
  · intro h
    obtain ⟨w, hpass, hspells⟩ := spells_of_mem_results h
    exact ⟨w, t.rest, hpass.rest_eq, hspells, hpass.eq_skip (captures_eq_of_mem_results hp h)⟩
  · rintro ⟨w, r, hrest, hspells, rfl⟩
    obtain ⟨t, ht, hpass⟩ := exists_mem_results hrest hspells
    rwa [← hpass.eq_skip (captures_eq_of_mem_results hp ht)]

end

/-! ### Matches of patterns bound to the start of the text -/

section

variable {p : Pattern} {text : List Char}

/-- A match of a pattern is a text that it spells. -/
theorem exists_spells_of_find? {m : Match} (hp : p.startsAtTextStart)
    (h : p.find? text = some m) : ∃ w after, text = w ++ after ∧ p.Spells none w after ∧
      m.start = 0 ∧ m.stop = w.length := by
  obtain ⟨t, ht, hstart, hstop⟩ := mem_results_of_find? hp h
  obtain ⟨w, hpass, hspells⟩ := spells_of_mem_results ht
  have hleft : text.length = w.length + t.left := hpass.left_eq
  exact ⟨w, t.rest, hpass.rest_eq, hspells, hstart, by omega⟩

/-- A pattern that spells the front of a text is found in it. -/
theorem find?_isSome_of_spells {w after : List Char} (h : p.Spells none w after) :
    (p.find? (w ++ after)).isSome := by
  obtain ⟨t, ht, -⟩ := exists_mem_results (s := .start (w ++ after)) rfl h
  exact find?_isSome_of_mem ht

/-- A pattern that spells no front of a text is not found in it. -/
theorem find?_eq_none_of_not_spells (hp : p.startsAtTextStart)
    (h : ∀ w after, text = w ++ after → ¬ p.Spells none w after) : p.find? text = none := by
  cases hm : p.find? text with
  | none => rfl
  | some m =>
    obtain ⟨w, after, htext, hspells, -⟩ := exists_spells_of_find? hp hm
    exact absurd hspells (h w after htext)

end

/-! ### Common patterns -/

section

variable {before : Option Char} {w after : List Char}

@[simp] theorem spells_empty : Pattern.empty.Spells before w after ↔ w = [] := Iff.rfl

@[simp] theorem spells_look {l : Look} :
    (look l).Spells before w after ↔ w = [] ∧ l.holds before after.head? := Iff.rfl

@[simp] theorem spells_set {cs : CharSet} :
    (set cs).Spells before w after ↔ ∃ c, cs.holds c ∧ w = [c] := Iff.rfl

theorem spells_seq {p q : Pattern} : (seq p q).Spells before w after ↔
    ∃ u v, w = u ++ v ∧ p.Spells before u (v ++ after) ∧
      q.Spells (u.getLast?.or before) v after := Iff.rfl

@[simp] theorem spells_alt {p q : Pattern} : (alt p q).Spells before w after ↔
    p.Spells before w after ∨ q.Spells before w after := Iff.rfl

@[simp] theorem spells_opt {greedy : Bool} {p : Pattern} :
    (opt greedy p).Spells before w after ↔ w = [] ∨ p.Spells before w after := Iff.rfl

@[simp] theorem spells_group {i : Nat} {p : Pattern} :
    (group i p).Spells before w after ↔ p.Spells before w after := Iff.rfl

theorem holds_single {c d : Char} : (CharSet.single c).holds d ↔ d = c := by
  have hholds : (CharSet.single c).holds d ↔ c ≤ d ∧ d ≤ c := by
    simp [CharSet.holds, CharSet.single, CharItem.holds]
  rw [hholds]
  constructor
  · rintro ⟨hle, hge⟩
    exact Char.le_antisymm hge hle
  · rintro rfl
    exact ⟨Char.le_refl d, Char.le_refl d⟩

@[simp] theorem spells_char {c : Char} : (char c).Spells before w after ↔ w = [c] := by
  simp [char, holds_single]

theorem rounds_set_iff {cs : CharSet} :
    Rounds (set cs).Spells before w after ↔ ∀ c ∈ w, cs.holds c := by
  constructor
  · intro h
    induction h with
    | nil => simp
    | cons _ hspells _ ih =>
      obtain ⟨c, hc, rfl⟩ := hspells
      intro d hd
      rcases List.mem_cons.1 hd with rfl | hd
      · exact hc
      · exact ih d hd
  · intro h
    induction w generalizing before with
    | nil => exact .nil _ _
    | cons c w ih =>
      have hc : (set cs).Spells before [c] (w ++ after) := ⟨c, h c List.mem_cons_self, rfl⟩
      exact .cons (List.cons_ne_nil c []) hc (ih fun d hd => h d (List.mem_cons_of_mem c hd))

@[simp] theorem spells_star_set {greedy : Bool} {cs : CharSet} :
    (star greedy (set cs)).Spells before w after ↔ ∀ c ∈ w, cs.holds c := rounds_set_iff

@[simp] theorem spells_plus_set {greedy : Bool} {cs : CharSet} :
    (plus greedy (set cs)).Spells before w after ↔ w ≠ [] ∧ ∀ c ∈ w, cs.holds c := by
  constructor
  · rintro ⟨u, v, rfl, ⟨c, hc, rfl⟩, -, hrounds⟩
    exact ⟨by simp, List.forall_mem_cons.2 ⟨hc, rounds_set_iff.1 hrounds⟩⟩
  · rintro ⟨hne, h⟩
    obtain ⟨c, v, rfl⟩ := List.exists_cons_of_ne_nil hne
    obtain ⟨hc, hv⟩ := List.forall_mem_cons.1 h
    exact ⟨[c], v, rfl, ⟨c, hc, rfl⟩, by simp, rounds_set_iff.2 hv⟩

@[simp] theorem spells_concat_nil : (concat []).Spells before w after ↔ w = [] := Iff.rfl

theorem spells_concat_cons {p : Pattern} {ps : List Pattern} :
    (concat (p :: ps)).Spells before w after ↔ ∃ u v, w = u ++ v ∧
      p.Spells before u (v ++ after) ∧ (concat ps).Spells (u.getLast?.or before) v after := by
  cases ps with
  | nil => simp [concat]
  | cons q ps => exact Iff.rfl

theorem spells_concat_append {ps qs : List Pattern} :
    (concat (ps ++ qs)).Spells before w after ↔ ∃ u v, w = u ++ v ∧
      (concat ps).Spells before u (v ++ after) ∧ (concat qs).Spells (u.getLast?.or before) v after := by
  induction ps generalizing before w with
  | nil =>
    constructor
    · intro hw
      exact ⟨[], w, rfl, rfl, hw⟩
    · rintro ⟨_, v, rfl, rfl, hv⟩
      exact hv
  | cons p ps ih =>
    rw [List.cons_append, spells_concat_cons]
    simp only [ih, spells_concat_cons]
    constructor
    · rintro ⟨u, _, rfl, hu, v, v', rfl, hv, hv'⟩
      rw [List.append_assoc] at hu
      refine ⟨u ++ v, v', (List.append_assoc _ _ _).symm, ⟨u, v, rfl, hu, hv⟩, ?_⟩
      rwa [List.getLast?_append, Option.or_assoc]
    · rintro ⟨_, v', rfl, ⟨u, v, rfl, hu, hv⟩, hv'⟩
      refine ⟨u, v ++ v', List.append_assoc _ _ _, by rwa [List.append_assoc], v, v', rfl, hv, ?_⟩
      rwa [List.getLast?_append, Option.or_assoc] at hv'

theorem spells_concat_append_look (ps : List Pattern) {l : Look} :
    (concat (ps ++ [look l])).Spells before w after ↔ (concat ps).Spells before w after ∧
      l.holds (w.getLast?.or before) after.head? := by
  rw [spells_concat_append]
  constructor
  · rintro ⟨u, _, rfl, hu, rfl, hl⟩
    rw [List.append_nil]
    exact ⟨hu, hl⟩
  · rintro ⟨hw, hl⟩
    exact ⟨w, [], (List.append_nil w).symm, hw, rfl, hl⟩

/-- At the start of a text the condition for it has no say. -/
@[simp] theorem spells_textStart_seq {p : Pattern} :
    (seq (look .textStart) p).Spells none w after ↔ p.Spells none w after := by
  rw [spells_seq]
  constructor
  · rintro ⟨_, v, rfl, ⟨rfl, -⟩, hv⟩
    exact hv
  · intro hw
    exact ⟨[], w, rfl, ⟨rfl, rfl⟩, hw⟩

theorem spells_concat_singleton {p : Pattern} :
    (concat [p]).Spells before w after ↔ p.Spells before w after := Iff.rfl

theorem spells_concat_pair {p q : Pattern} : (concat [p, q]).Spells before w after ↔
    ∃ u v, w = u ++ v ∧ p.Spells before u (v ++ after) ∧
      q.Spells (u.getLast?.or before) v after := Iff.rfl

theorem spells_concat_set_cons {cs : CharSet} {ps : List Pattern} :
    (concat (set cs :: ps)).Spells before w after ↔ ∃ c v, w = c :: v ∧ cs.holds c ∧
      (concat ps).Spells (some c) v after := by
  rw [spells_concat_cons]
  constructor
  · rintro ⟨_, v, rfl, ⟨c, hc, rfl⟩, hv⟩
    exact ⟨c, v, rfl, hc, hv⟩
  · rintro ⟨c, v, rfl, hc, hv⟩
    exact ⟨[c], v, rfl, ⟨c, hc, rfl⟩, hv⟩

theorem spells_concat_char_cons {c : Char} {ps : List Pattern} :
    (concat (char c :: ps)).Spells before w after ↔ ∃ v, w = c :: v ∧
      (concat ps).Spells (some c) v after := by
  simp only [char, spells_concat_set_cons, holds_single]
  constructor
  · rintro ⟨_, v, rfl, rfl, hv⟩
    exact ⟨v, rfl, hv⟩
  · rintro ⟨v, rfl, hv⟩
    exact ⟨c, v, rfl, rfl, hv⟩

@[simp] theorem spells_word {u : List Char} : (word u).Spells before w after ↔ w = u := by
  unfold word
  induction u generalizing before w with
  | nil => exact Iff.rfl
  | cons c u ih =>
    rw [List.map_cons, spells_concat_cons]
    simp only [spells_char, ih]
    simp

theorem spells_choice {p : Pattern} {ps : List Pattern} :
    (choice p ps).Spells before w after ↔ ∃ q ∈ p :: ps, q.Spells before w after := by
  induction ps generalizing p with
  | nil => simp [choice]
  | cons q ps ih => simp [choice, ih]

/-- A choice between words spells the words. -/
theorem spells_oneOf {ws : List (List Char)} (h : ws ≠ []) :
    (oneOf ws).Spells before w after ↔ w ∈ ws := by
  obtain ⟨u, us, rfl⟩ := List.exists_cons_of_ne_nil h
  have hmem : (word u :: us.map word) = (u :: us).map word := rfl
  rw [oneOf, spells_choice, hmem]
  constructor
  · rintro ⟨p, hp, hspells⟩
    obtain ⟨x, hx, rfl⟩ := List.mem_map.1 hp
    rwa [spells_word.1 hspells]
  · intro hw
    exact ⟨word w, List.mem_map_of_mem hw, spells_word.2 rfl⟩

theorem spells_times_set {cs : CharSet} {n : Nat} :
    (times (set cs) n).Spells before w after ↔ w.length = n ∧ ∀ c ∈ w, cs.holds c := by
  unfold times
  induction n generalizing before w with
  | zero => simp +contextual
  | succ n ih =>
    rw [List.replicate_succ, spells_concat_cons]
    simp only [spells_set, ih]
    constructor
    · rintro ⟨_, v, rfl, ⟨c, hc, rfl⟩, rfl, hv⟩
      exact ⟨rfl, List.forall_mem_cons.2 ⟨hc, hv⟩⟩
    · rintro ⟨hlen, h⟩
      obtain ⟨c, v, rfl⟩ := List.exists_cons_of_length_eq_add_one hlen
      obtain ⟨hc, hv⟩ := List.forall_mem_cons.1 h
      exact ⟨[c], v, rfl, ⟨c, hc, rfl⟩, Nat.succ.inj hlen, hv⟩

end

end Pattern

end LineLexer
