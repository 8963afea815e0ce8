import LineLexer.Proofs.Scan.Coverage

/-!
# What a scan costs

A scan applies no more than five rules for each character of the line, and one at its end
(`Table.length_applications_add_le`): where a rule consumes nothing, fewer stalls are left, and
where it consumes something, less of the line is.  At the end of the line one rule is applied at
most, since it is the last (`Table.countP_atEnd_le`); and the scan of a built table that comes there
has ended well (`Table.exists_outcome_of_atEnd`).
-/

namespace LineLexer

/-- Nothing is left of the line. -/
def Place.AtEnd (p : Place) : Prop := p.rest = []

instance (p : Place) : Decidable p.AtEnd := inferInstanceAs (Decidable (p.rest = []))

namespace Application

variable {a : Application}

theorem not_atEnd_of_not_isLast (h : ¬ a.isLast) : ¬ a.place.AtEnd := by
  intro hend
  rw [Place.AtEnd] at hend
  simp [isLast, hend] at h

theorem length_after_rest_lt (hlast : ¬ a.isLast) (hmoves : a.hit.stop ≠ 0) :
    a.after.rest.length < a.place.rest.length := by
  have hpos := List.length_pos_iff.2 (not_atEnd_of_not_isLast hlast)
  simp only [after, List.length_drop]
  omega

theorem rest_after_of_stop_eq_zero (hstill : a.hit.stop = 0) : a.after.rest = a.place.rest := by
  rw [after_of_stop_eq_zero hstill]

end Application

namespace Table

variable {t : Table} {line : String} {p : Place} {stalls : Nat}

/-- The places that a scan comes to: the one where it begins, and one after every rule. -/
def visited (t : Table) (line : String) (state : State) : List Place :=
  ⟨state, 0, line.toList⟩ :: (t.scan line state).applications.map Application.after

/-- **Five rules a character.**  The stalls count with the rules, since each of them was one; at the
end of a line there are none. -/
theorem length_applications_add_le (hs : stalls ≤ maxStalls) (hend : p.AtEnd → stalls = 0) :
    (t.scanFrom line p stalls).applications.length + stalls ≤
      (maxStalls + 1) * p.rest.length + 1 := by
  have hmax : maxStalls = 4 := rfl
  rw [hmax] at hs ⊢
  have hstalls (p : Place) (hend : ¬ p.AtEnd) : 1 ≤ p.rest.length := List.length_pos_iff.2 hend
  fun_induction t.scanFrom line p stalls with
  | case1 p stalls =>
    by_cases hp : p.AtEnd
    · simp [hend hp]
    · have := hstalls p hp
      simp only [List.length_nil]
      omega
  | case2 p stalls a ha hlast =>
    by_cases hp : p.AtEnd
    · simp [hend hp]
    · have := hstalls p hp
      simp only [List.length_singleton]
      omega
  | case3 p stalls a ha hlast hstill hmore later ih =>
    obtain rfl := application?_place ha
    have hrest := Application.rest_after_of_stop_eq_zero hstill
    have hp := Application.not_atEnd_of_not_isLast hlast
    have hp' : ¬ a.after.AtEnd := by rwa [Place.AtEnd, hrest]
    have hlater := ih (by omega) (fun h => absurd h hp')
    rw [hrest] at hlater
    simp only [List.length_cons, later]
    omega
  | case4 p stalls a ha hlast =>
    obtain rfl := application?_place ha
    have := hstalls _ (Application.not_atEnd_of_not_isLast hlast)
    simp only [List.length_singleton]
    omega
  | case5 p stalls a ha hlast hmoves later ih =>
    obtain rfl := application?_place ha
    have hshorter := Application.length_after_rest_lt hlast hmoves
    have hlater := ih (Nat.zero_le _) (fun _ => rfl)
    simp only [List.length_cons, later]
    omega

/-- **At the end of a line one rule is applied at most**: nothing is scanned after it. -/
theorem countP_atEnd_le (t : Table) (line : String) (p : Place) (stalls : Nat) :
    (t.scanFrom line p stalls).applications.countP (fun a => a.place.AtEnd) ≤ 1 := by
  have hskip {a : Application} (hlast : ¬ a.isLast) (later : List Application) :
      (a :: later).countP (fun a => a.place.AtEnd) = later.countP (fun a => a.place.AtEnd) := by
    rw [List.countP_cons_of_neg]
    simpa using Application.not_atEnd_of_not_isLast hlast
  fun_induction t.scanFrom line p stalls with
  | case1 => simp
  | case2 | case4 => exact List.countP_le_length
  | case3 p stalls a ha hlast hstill hmore later ih | case5 p stalls a ha hlast hstill later ih =>
    rwa [hskip hlast]

/-- **A scan that comes to the end of the line ends without a fault**, if some rule of every state
matches there. -/
theorem exists_outcome_of_atEnd (hcover : ∀ state, ∃ r ∈ t.rules state, (r.matchAt []).isSome)
    (h : p.AtEnd ∨ ∃ a ∈ (t.scanFrom line p stalls).applications, a.after.AtEnd) :
    ∃ state, (t.scanFrom line p stalls).outcome = .ok state := by
  -- a scan that goes on after a rule is not at the end of the line before it
  have hlater {a : Application} {later : List Application} (hlast : ¬ a.isLast)
      (h : a.place.AtEnd ∨ ∃ b ∈ a :: later, b.after.AtEnd) :
      a.after.AtEnd ∨ ∃ b ∈ later, b.after.AtEnd := by
    rcases h with h | ⟨b, hb, hend⟩
    · exact absurd h (Application.not_atEnd_of_not_isLast hlast)
    · rcases List.mem_cons.1 hb with rfl | hb
      · exact .inl hend
      · exact .inr ⟨b, hb, hend⟩
  fun_induction t.scanFrom line p stalls with
  | case1 p stalls ha =>
    rcases h with h | ⟨a, ha', -⟩
    · obtain ⟨r, hr, hm⟩ := hcover p.state
      rw [← h, application?_eq_none_iff.1 ha r hr] at hm
      exact absurd hm Bool.false_ne_true
    · exact absurd ha' List.not_mem_nil
  | case2 p stalls a => exact ⟨a.after.state, rfl⟩
  | case3 p stalls a ha hlast hstill hmore later ih | case5 p stalls a ha hlast hstill later ih =>
    obtain rfl := application?_place ha
    exact ih (hlater hlast h)
  | case4 p stalls a ha hlast hstill =>
    obtain rfl := application?_place ha
    have hend : a.after.AtEnd := by simpa using hlater hlast h
    rw [Place.AtEnd, Application.rest_after_of_stop_eq_zero hstill] at hend
    exact absurd hend (Application.not_atEnd_of_not_isLast hlast)

end Table

namespace TableDraft

/-- **Scans of a built table are linear and safe at the end of the line**: they apply at most five
rules for each character and one more, at most one of them at the end of the line, and a scan that
comes to the end of the line ends without a fault. -/
theorem cost_of_build {d : TableDraft} {t : Table} (h : d.build = .ok t) (line : String)
    (state : State) :
    (t.scan line state).applications.length ≤ 5 * line.length + 1 ∧
      (t.scan line state).applications.countP (fun a => a.place.AtEnd) ≤ 1 ∧
      ((∃ p ∈ t.visited line state, p.AtEnd) → ∃ l, t.scanLine line state = .ok l) := by
  refine ⟨?_, t.countP_atEnd_le line _ 0, ?_⟩
  · have hle : (t.scan line state).applications.length + 0 ≤
        (Table.maxStalls + 1) * line.toList.length + 1 :=
      Table.length_applications_add_le (Nat.zero_le _) fun _ => rfl
    rwa [Nat.add_zero, String.length_toList] at hle
  · rintro ⟨p, hp, hend⟩
    have hat : (Place.mk state 0 line.toList).AtEnd ∨
        ∃ a ∈ (t.scan line state).applications, a.after.AtEnd := by
      rcases List.mem_cons.1 hp with rfl | hp
      · exact .inl hend
      · obtain ⟨a, ha, rfl⟩ := List.mem_map.1 hp
        exact .inr ⟨a, ha, hend⟩
    obtain ⟨endState, hout⟩ := Table.exists_outcome_of_atEnd (exists_matchAt_nil h) hat
    exact ⟨_, Outcome.map_eq_ok_iff.2 ⟨endState, hout, rfl⟩⟩

/-- A draft in which two states leave a line to each other: only `x` and `y` are consumed. -/
def handoverDraft : TableDraft :=
  TableDraft.new .builtin
    |>.add .start [.single .empty "$", .single .text "x",
      .asFallback (.goto (.single .empty "") .quotedString)]
    |>.add .quotedString [.single .empty "$", .single .text "y",
      .asFallback (.goto (.single .empty "") .start)]
    |>.add .doubleQuotedString (catchAll "(?s).")
    |>.add .functionArguments (catchAll "(?s).")

/-- Scans of this table stall, and as often as they may where they do not come to the end. -/
theorem handoverDraft_cost : ∃ t, handoverDraft.build = .ok t ∧
    (t.scan "xyz" .start).applications.length = 8 ∧
    (t.scan "xyz" .start).applications.length ≤ 5 * 3 + 1 ∧
    (t.scan "yyx" .start).applications.length = 6 ∧
    (∃ l, t.scanLine "yyx" .start = .ok l) := by
  have hbuild : ∃ t, handoverDraft.build = .ok t := by
    rw [← Outcome.isOk_iff]
    decide +kernel
  obtain ⟨t, ht⟩ := hbuild
  have hscans : handoverDraft.build.map (fun t => ((t.scan "xyz" .start).applications.length,
      (t.scan "yyx" .start).applications.length,
      decide (∃ p ∈ t.visited "yyx" .start, p.AtEnd))) = .ok (8, 6, true) := by
    decide +kernel
  rw [ht] at hscans
  obtain ⟨hstuck, hdone, hend⟩ : (t.scan "xyz" .start).applications.length = 8 ∧
      (t.scan "yyx" .start).applications.length = 6 ∧
      ∃ p ∈ t.visited "yyx" .start, p.AtEnd := by
    simpa [Except.map] using hscans
  exact ⟨t, ht, hstuck, (cost_of_build ht "xyz" .start).1, hdone,
    (cost_of_build ht "yyx" .start).2.2 hend⟩

end TableDraft

end LineLexer
