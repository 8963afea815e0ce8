import LineLexer.Proofs.Pattern.Longest

/-!
# Patterns whose groups follow one another

`Pattern.fields` numbers patterns as groups that stand side by side.  A match of such a chain is
one text for each group, one after the other, and the groups capture exactly these texts
(`Pattern.exists_fields_of_find?`).
-/

namespace LineLexer

namespace Pattern

/-- The patterns as groups, numbered from `i` on. -/
def fields (i : Nat) : List Pattern → List Pattern
  | [] => []
  | p :: ps => .group i p :: fields (i + 1) ps

/-- Each pattern spells the text in its place; the texts stand side by side. -/
def SpellEach : List Pattern → Option Char → List (List Char) → List Char → Prop
  | [], _, [], _ => True
  | p :: ps, before, w :: ws, after =>
    p.Spells before w (ws.flatten ++ after) ∧ SpellEach ps (w.getLast?.or before) ws after
  | _, _, _, _ => False

/-- Where texts that stand side by side begin and end, if the first of them begins at `n`. -/
def spans (n : Nat) : List (List Char) → List (Option (Nat × Nat))
  | [] => []
  | w :: ws => some (n, n + w.length) :: spans (n + w.length) ws

/-- The captures of groups, numbered from `i` on, that hold texts side by side; the newest
first. -/
def captures (i left : Nat) : List (List Char) → List Capture
  | [] => []
  | w :: ws => captures (i + 1) (left - w.length) ws ++ [⟨i, left, left - w.length⟩]

@[simp] theorem spellEach_nil {before : Option Char} {ws : List (List Char)} {after : List Char} :
    SpellEach [] before ws after ↔ ws = [] := by
  cases ws <;> simp [SpellEach]

theorem spellEach_cons {p : Pattern} {ps : List Pattern} {before : Option Char}
    {ws : List (List Char)} {after : List Char} : SpellEach (p :: ps) before ws after ↔
      ∃ u us, ws = u :: us ∧ p.Spells before u (us.flatten ++ after) ∧
        SpellEach ps (u.getLast?.or before) us after := by
  cases ws with
  | nil => simp [SpellEach]
  | cons w ws =>
    constructor
    · rintro ⟨hw, hws⟩
      exact ⟨w, ws, rfl, hw, hws⟩
    · rintro ⟨_, _, heq, hw, hws⟩
      obtain ⟨rfl, rfl⟩ := List.cons.inj heq
      exact ⟨hw, hws⟩

theorem spells_concat_fields {ps : List Pattern} {i : Nat} {before : Option Char}
    {w after : List Char} : (concat (fields i ps)).Spells before w after ↔
      ∃ ws, w = ws.flatten ∧ SpellEach ps before ws after := by
  induction ps generalizing i before w with
  | nil =>
    rw [fields, spells_concat_nil]
    constructor
    · rintro rfl
      exact ⟨[], rfl, trivial⟩
    · rintro ⟨ws, rfl, hspells⟩
      rw [spellEach_nil.1 hspells]
      rfl
  | cons p ps ih =>
    rw [fields, spells_concat_cons]
    simp only [spells_group, ih]
    constructor
    · rintro ⟨u, _, rfl, hu, ws, rfl, hws⟩
      exact ⟨u :: ws, rfl, hu, hws⟩
    · rintro ⟨ws, rfl, hspells⟩
      obtain ⟨u, us, rfl, hu, hus⟩ := spellEach_cons.1 hspells
      exact ⟨u, us.flatten, rfl, hu, us, rfl, hus⟩

/-! ### Results of a chain -/

theorem mem_results_concat_cons {p : Pattern} {ps : List Pattern} {s t : Cursor} :
    t ∈ (concat (p :: ps)).results s ↔ ∃ u ∈ p.results s, t ∈ (concat ps).results u := by
  cases ps with
  | nil => simp [concat, results]
  | cons q ps => exact List.mem_flatMap

section

variable {ps qs : List Pattern} {s t : Cursor}

/-- **A result of a chain of groups** lies behind a text for each group, and has captured
these. -/
theorem exists_fields_of_mem_results {i : Nat} (hps : ∀ p ∈ ps, p.isPlain)
    (hqs : ∀ q ∈ qs, q.isPlain) (h : t ∈ (concat (fields i ps ++ qs)).results s) :
    ∃ ws w, s.Passes (ws.flatten ++ w) t ∧ SpellEach ps s.before ws (w ++ t.rest) ∧
      (concat qs).Spells (ws.flatten.getLast?.or s.before) w t.rest ∧
      t.captures = captures i s.left ws ++ s.captures := by
  induction ps generalizing i s with
  | nil =>
    obtain ⟨w, hpass, hspells⟩ := spells_of_mem_results h
    exact ⟨[], w, hpass, trivial, hspells, captures_eq_of_mem_results (isPlain_concat hqs) h⟩
  | cons p ps ih =>
    obtain ⟨u, hu, ht⟩ := mem_results_concat_cons.1 h
    obtain ⟨r, hr, rfl⟩ := List.mem_map.1 hu
    obtain ⟨w, hpass, hspells⟩ := spells_of_mem_results hr
    have hplain := captures_eq_of_mem_results (hps p List.mem_cons_self) hr
    obtain ⟨ws, w', hpass', hspells', htail, hcaptures⟩ :=
      ih (fun q hq => hps q (List.mem_cons_of_mem p hq)) ht
    have hbefore : (r.capture i s).before = w.getLast?.or s.before := hpass.before_eq
    have hrest : r.rest = ws.flatten ++ w' ++ t.rest := hpass'.rest_eq
    have hleft : r.left = s.left - w.length := by rw [hpass.left_eq, Nat.add_sub_cancel_left]
    -- the induction starts behind the first text; its capture is the one made first
    refine ⟨w :: ws, w', ?_, ⟨?_, ?_⟩, ?_, ?_⟩
    · rw [List.flatten_cons, List.append_assoc]
      exact (hpass.capture i s).trans hpass'
    · rwa [← List.append_assoc, ← hrest]
    · rwa [← hbefore]
    · rwa [List.flatten_cons, List.getLast?_append, Option.or_assoc, ← hbefore]
    · simp only [hcaptures, Cursor.capture, captures, hplain, hleft, List.append_assoc,
        List.singleton_append]

end

/-! ### What the groups capture -/

theorem lt_of_mem_captures {i left : Nat} {ws : List (List Char)} {c : Capture}
    (h : c ∈ captures i left ws) : i ≤ c.group := by
  induction ws generalizing i left with
  | nil => simp [captures] at h
  | cons w ws ih =>
    rcases List.mem_append.1 h with h | h
    · exact Nat.le_of_succ_le (ih h)
    · obtain rfl := List.mem_singleton.1 h
      exact Nat.le_refl i

/-- The captures of a chain of groups give the places of their texts. -/
theorem map_captured_eq_spans (total : Nat) {i left : Nat} {ws : List (List Char)} {s : Cursor}
    {older : List Capture} (hs : s.captures = captures i left ws ++ older)
    (hleft : ws.flatten.length ≤ left) (htotal : left ≤ total) :
    ((List.range ws.length).map fun j => s.captured? total (j + i)) = spans (total - left) ws := by
  induction ws generalizing i left older with
  | nil => rfl
  | cons w ws ih =>
    rw [List.flatten_cons, List.length_append] at hleft
    rw [captures, List.append_assoc, List.singleton_append] at hs
    have hfirst : s.captured? total i = some (total - left, total - left + w.length) := by
      have hlater : ((captures (i + 1) (left - w.length) ws).find? fun c => c.group == i) = none := by
        refine List.find?_eq_none.2 fun c hc => ?_
        have := lt_of_mem_captures hc
        simp only [beq_iff_eq]
        omega
      have hstop : total - (left - w.length) = total - left + w.length := by omega
      simp [Cursor.captured?, hs, hlater, hstop]
    have hothers := ih hs (by omega) (by omega)
    have hplace : total - (left - w.length) = total - left + w.length := by omega
    rw [List.length_cons, List.range_succ_eq_map, List.map_cons, List.map_map, spans, Nat.zero_add,
      hfirst, ← hplace, ← hothers]
    refine congrArg _ (List.map_congr_left fun j _ => ?_)
    rw [Function.comp_apply, Nat.succ_add, ← Nat.add_succ]

/-! ### The match of a chain -/

theorem groupCount_concat_cons (p : Pattern) (ps : List Pattern) :
    (concat (p :: ps)).groupCount = max p.groupCount (concat ps).groupCount := by
  cases ps with
  | nil => simp [concat, groupCount]
  | cons q ps => rfl

theorem groupCount_fields {i : Nat} {ps qs : List Pattern} (hps : ∀ p ∈ ps, p.isPlain)
    (hqs : ∀ q ∈ qs, q.isPlain) (hne : ps ≠ []) :
    (concat (fields i ps ++ qs)).groupCount = i + ps.length - 1 := by
  induction ps generalizing i with
  | nil => exact absurd rfl hne
  | cons p ps ih =>
    rw [fields, List.cons_append, groupCount_concat_cons, groupCount,
      groupCount_of_isPlain (hps p List.mem_cons_self)]
    by_cases hnil : ps = []
    · rw [hnil, fields, List.nil_append, groupCount_of_isPlain (isPlain_concat hqs)]
      simp
    · rw [ih (fun q hq => hps q (List.mem_cons_of_mem p hq)) hnil, List.length_cons]
      omega

theorem SpellEach.length_eq {ps : List Pattern} {before : Option Char} {ws : List (List Char)}
    {after : List Char} (h : SpellEach ps before ws after) : ws.length = ps.length := by
  induction ps generalizing before ws with
  | nil =>
    rw [spellEach_nil.1 h]
    rfl
  | cons p ps ih =>
    obtain ⟨w, ws, rfl, -, hws⟩ := spellEach_cons.1 h
    rw [List.length_cons, List.length_cons, ih hws]

/-- **A match of a chain of groups** is one text for each group, one after the other, and the
groups capture exactly these. -/
theorem exists_fields_of_find? {ps qs : List Pattern} (hps : ∀ p ∈ ps, p.isPlain)
    (hqs : ∀ q ∈ qs, q.isPlain) (hne : ps ≠ []) {text : List Char} {m : Match}
    (h : (seq (look .textStart) (concat (fields 1 ps ++ qs))).find? text = some m) :
    ∃ ws w after, text = ws.flatten ++ w ++ after ∧ SpellEach ps none ws (w ++ after) ∧
      (concat qs).Spells ws.flatten.getLast? w after ∧
      m = ⟨0, (ws.flatten ++ w).length, spans 0 ws⟩ := by
  have hfind : (seq (look .textStart) (concat (fields 1 ps ++ qs))).startsAtTextStart := rfl
  rw [find?, if_pos hfind] at h
  obtain ⟨t, ht, hstart, hstop, hgroups⟩ := matchAt_eq_some h
  obtain ⟨s, hs, ht⟩ := List.mem_flatMap.1 ht
  obtain ⟨rfl, -⟩ := mem_results_look.1 hs
  obtain ⟨ws, w, hpass, hspells, htail, hcaptures⟩ := exists_fields_of_mem_results hps hqs ht
  refine ⟨ws, w, t.rest, hpass.rest_eq, hspells, by simpa [Cursor.start] using htail, ?_⟩
  have hleft : text.length = (ws.flatten ++ w).length + t.left := hpass.left_eq
  have hlen := hspells.length_eq
  have hcount : (seq (look .textStart) (concat (fields 1 ps ++ qs))).groupCount = ws.length := by
    rw [groupCount, groupCount, groupCount_fields hps hqs hne, hlen]
    omega
  have hspans := map_captured_eq_spans text.length hcaptures
    (by simp only [Cursor.start, List.length_append] at hleft ⊢; omega) (Nat.le_refl _)
  simp only [Cursor.start, Nat.sub_self] at hspans hstart
  rw [hcount, hspans] at hgroups
  have hend : m.stop = (ws.flatten ++ w).length := by omega
  rw [← hgroups, ← hend, ← hstart]

end Pattern

end LineLexer
