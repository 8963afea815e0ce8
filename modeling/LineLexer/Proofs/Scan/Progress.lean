import Mathlib.Data.List.Perm.Subperm
import Mathlib.Logic.Relation
import LineLexer.Proofs.Scan.Step

/-!
# The check for progress

A scan stops with a fault when too many matches in a row consume nothing.  Here it is compared
with the scan that has no such check (`Table.uncheckedFrom`), which may go on forever: the fault
is raised exactly when the unchecked scan never ends, and in all other cases the two do the same
(`Table.noProgress_iff_endless`).

The place that a scan is at decides all that comes after it, so a scan that comes to a place
twice never ends (`Table.uncheckedFrom_eq_none_of_cycle`).  As long as nothing is consumed only the
state changes, and the states are few: the states visited since the last progress are either all
different, and then not too many, or the scan is in a cycle (`Table.Stalled`).  So the fault is
raised in a cycle (`Table.exists_cycle_of_noProgress`).
-/

namespace LineLexer

/-- The fault is a lack of progress. -/
def ScanFault.isNoProgress : ScanFault → Bool
  | .noProgress .. => true
  | .noRule .. => false

/-- What a scan makes of its line. -/
def Scan.result (lexicon : Lexicon) (s : Scan) : Except ScanFault ScannedLine :=
  s.outcome.map fun endState =>
    { tokens := Token.ofPieces (s.applications.flatMap (Application.pieces lexicon))
      endState := endState }

namespace Table

open Relation (ReflTransGen TransGen)

/-! ### The unchecked scan -/

/-- Scans `line` from a place on without looking for progress; it has not ended if it is not
done after `rounds` rules. -/
def uncheckedFrom (t : Table) (line : String) : Nat → Place → Option Scan
  | 0, _ => none
  | rounds + 1, p =>
    match t.application? p with
    | none => some ⟨[], .error (.noRule p.state p.offset line)⟩
    | some a =>
      if a.isLast then some ⟨[a], .ok a.after.state⟩
      else (t.uncheckedFrom line rounds a.after).map fun later =>
        ⟨a :: later.applications, later.outcome⟩

/-- Classifies a line that begins in `state` by the unchecked scan. -/
def uncheckedLine (t : Table) (rounds : Nat) (line : String) (state : State) :
    Option (Except ScanFault ScannedLine) :=
  (t.uncheckedFrom line rounds ⟨state, 0, line.toList⟩).map (·.result t.lexicon)

variable {t : Table}

theorem scanLine_eq (line : String) (state : State) :
    t.scanLine line state = (t.scan line state).result t.lexicon := rfl

variable {line : String} {p q : Place}

theorem uncheckedFrom_succ_of_steps (line : String) (h : t.Steps p q) (rounds : Nat) :
    ∃ a, t.uncheckedFrom line (rounds + 1) p = (t.uncheckedFrom line rounds q).map fun later =>
      ⟨a :: later.applications, later.outcome⟩ := by
  obtain ⟨a, ha, hlast, rfl⟩ := h
  exact ⟨a, by simp [uncheckedFrom, ha, hlast]⟩

theorem uncheckedFrom_eq_none_of_steps (h : t.Steps p q)
    (hq : ∀ rounds, t.uncheckedFrom line rounds q = none) (rounds : Nat) :
    t.uncheckedFrom line rounds p = none := by
  cases rounds with
  | zero => rfl
  | succ rounds =>
    obtain ⟨a, ha⟩ := uncheckedFrom_succ_of_steps line h rounds
    rw [ha, hq, Option.map_none]

theorem uncheckedFrom_eq_none_of_reaches (h : ReflTransGen t.Steps p q)
    (hq : ∀ rounds, t.uncheckedFrom line rounds q = none) (rounds : Nat) :
    t.uncheckedFrom line rounds p = none := by
  induction h using ReflTransGen.head_induction_on generalizing rounds with
  | refl => exact hq rounds
  | head hst _ ih => exact uncheckedFrom_eq_none_of_steps hst ih rounds

/-- A scan that comes back to a place never ends. -/
theorem uncheckedFrom_eq_none_of_cycle (h : TransGen t.Steps p p) (rounds : Nat) :
    t.uncheckedFrom line rounds p = none := by
  induction rounds generalizing p with
  | zero => rfl
  | succ rounds ih =>
    -- the next place lies on the cycle too
    obtain ⟨q, hpq, hqp⟩ := TransGen.head'_iff.1 h
    obtain ⟨a, ha⟩ := uncheckedFrom_succ_of_steps line hpq rounds
    rw [ha, ih (TransGen.tail' hqp hpq), Option.map_none]

theorem uncheckedFrom_add {s : Scan} {rounds : Nat} (h : t.uncheckedFrom line rounds p = some s)
    (more : Nat) : t.uncheckedFrom line (rounds + more) p = some s := by
  induction rounds generalizing p s with
  | zero => simp [uncheckedFrom] at h
  | succ rounds ih =>
    rw [Nat.succ_add]
    simp only [uncheckedFrom] at h ⊢
    cases ha : t.application? p with
    | none => simpa only [ha] using h
    | some a =>
      simp only [ha] at h ⊢
      split at h
      · rename_i hlast
        rwa [if_pos hlast]
      · rename_i hlast
        obtain ⟨later, hlater, rfl⟩ := Option.map_eq_some_iff.1 h
        rw [if_neg hlast, ih hlater, Option.map_some]

/-! ### Matches that consume nothing -/

/-- The states visited since the last progress are not more than there are. -/
theorem mem_of_nodup_of_length {visited : List State} (hn : visited.Nodup)
    (hl : maxStalls ≤ visited.length) (s : State) : s ∈ visited := by
  by_contra hs
  have hsub : s :: visited ⊆ State.all := fun s _ => s.mem_all
  have := (List.subperm_of_subset (List.nodup_cons.2 ⟨hs, hn⟩) hsub).length_le
  have : State.all.length = maxStalls := rfl
  simp only [List.length_cons] at *
  omega

/-- A step that consumes nothing. -/
def Stalls (t : Table) (p q : Place) : Prop :=
  ∃ a, t.application? p = some a ∧ a.isLast = false ∧ a.hit.stop = 0 ∧ a.after = q

theorem Stalls.steps (h : t.Stalls p q) : t.Steps p q := by
  obtain ⟨a, ha, hlast, -, hafter⟩ := h
  exact ⟨a, ha, hlast, hafter⟩

theorem Stalls.eq_withState (h : t.Stalls p q) : q = { p with state := q.state } := by
  obtain ⟨a, ha, -, hstill, rfl⟩ := h
  obtain rfl := application?_place ha
  rw [Application.after_of_stop_eq_zero hstill]

/-- The step from a place on a cycle stays on it. -/
theorem Stalls.cycle_next (hst : t.Stalls p q) (h : TransGen t.Stalls p p) :
    TransGen t.Stalls q q := by
  obtain ⟨q', ⟨b, hb, -, -, rfl⟩, hqp⟩ := TransGen.head'_iff.1 h
  obtain ⟨a, ha, hlast, hstill, rfl⟩ := hst
  obtain rfl : a = b := Option.some.inj (ha.symm.trans hb)
  exact .tail' hqp ⟨a, ha, hlast, hstill, rfl⟩

/-- What the scan has come through at a place after `stalls` matches in a row that consumed nothing:
it is in a cycle, or it made them in different states, and each of these led to the place. -/
def Stalled (t : Table) (stalls : Nat) (p : Place) : Prop :=
  TransGen t.Stalls p p ∨ ∃ visited : List State, visited.Nodup ∧ visited.length = stalls ∧
    ∀ s ∈ visited, TransGen t.Stalls { p with state := s } p

theorem stalled_zero (t : Table) (p : Place) : t.Stalled 0 p :=
  .inr ⟨[], List.nodup_nil, rfl, by simp⟩

theorem Stalled.step {stalls : Nat} (h : t.Stalled stalls p) (hst : t.Stalls p q) :
    t.Stalled (stalls + 1) q := by
  rcases h with hcycle | ⟨visited, hn, hl, hv⟩
  · exact .inl (hst.cycle_next hcycle)
  · by_cases hmem : p.state ∈ visited
    · exact .inl (hst.cycle_next (hv _ hmem))
    · refine .inr ⟨p.state :: visited, List.nodup_cons.2 ⟨hmem, hn⟩, by simp [hl], ?_⟩
      intro s hs
      have hplace : { q with state := s } = { p with state := s } := by rw [hst.eq_withState]
      rw [hplace]
      rcases List.mem_cons.1 hs with rfl | hs
      · exact .single hst
      · exact (hv s hs).tail hst

/-- After as many stalls as there are states, one state was visited before. -/
theorem Stalled.cycle {stalls : Nat} (h : t.Stalled stalls p) (hmax : maxStalls ≤ stalls) :
    TransGen t.Stalls p p := by
  rcases h with hcycle | ⟨visited, hn, hl, hv⟩
  · exact hcycle
  · exact hv _ (mem_of_nodup_of_length hn (by rwa [hl]) p.state)

/-- **A scan that lacks progress is in a cycle of steps that consume nothing.**  The fault names the
rule applied last, and the state and the offset after it. -/
theorem exists_cycle_of_noProgress {stalls : Nat} {fault : ScanFault} (hs : t.Stalled stalls p)
    (h : (t.scanFrom line p stalls).outcome = .error fault) (hf : fault.isNoProgress) :
    ∃ a, t.application? a.place = some a ∧ ReflTransGen t.Steps p a.place ∧
      TransGen t.Stalls a.place a.place ∧
      fault = .noProgress a.rule.text.pattern a.after.state a.after.offset line := by
  fun_induction t.scanFrom line p stalls with
  | case1 =>
    obtain rfl := Except.error.inj h
    simp [ScanFault.isNoProgress] at hf
  | case2 => simp at h
  | case3 p stalls a ha hlast hstill _ later ih =>
    have hst : t.Stalls p a.after := ⟨a, ha, by simpa using hlast, hstill, rfl⟩
    obtain ⟨b, hb, hreach, hcycle⟩ := ih (hs.step hst) h
    exact ⟨b, hb, .head hst.steps hreach, hcycle⟩
  | case4 p stalls a ha hlast hstill hmore =>
    have hst : t.Stalls p a.after := ⟨a, ha, by simpa using hlast, hstill, rfl⟩
    obtain rfl := application?_place ha
    refine ⟨a, ha, .refl, ?_, (Except.error.inj h).symm⟩
    by_cases hnext : a.rule.text.next.isSome
    · exact hs.cycle (by simpa [hnext] using hmore)
    · -- the rule will match again at once
      have hnone : a.rule.text.next = none := by simpa using hnext
      have hafter : a.after = a.place := by
        rw [Application.after_of_stop_eq_zero hstill, hnone, Option.getD_none]
      exact .single (hafter ▸ hst)
  | case5 p stalls a ha hlast _ later ih =>
    obtain ⟨b, hb, hreach, hcycle⟩ := ih (t.stalled_zero _) h
    exact ⟨b, hb, .head ⟨a, ha, by simpa using hlast, rfl⟩ hreach, hcycle⟩

/-! ### The two scans -/

/-- A scan that lacks progress never ends without the check. -/
theorem endless_of_noProgress {stalls : Nat} {fault : ScanFault} (visited : List State)
    (hn : visited.Nodup) (hl : visited.length = stalls)
    (hv : ∀ s ∈ visited, TransGen t.Stalls { p with state := s } p)
    (h : (t.scanFrom line p stalls).outcome = .error fault) (hf : fault.isNoProgress)
    (rounds : Nat) : t.uncheckedFrom line rounds p = none := by
  obtain ⟨a, -, hreach, hcycle, -⟩ :=
    exists_cycle_of_noProgress (.inr ⟨visited, hn, hl, hv⟩) h hf
  have hsteps : TransGen t.Steps a.place a.place :=
    TransGen.mono (fun _ _ => Stalls.steps) _ _ hcycle
  exact uncheckedFrom_eq_none_of_reaches hreach (uncheckedFrom_eq_none_of_cycle hsteps) rounds

/-- A scan that does not lack progress ends in the same way without the check. -/
theorem exists_uncheckedFrom_eq (stalls : Nat)
    (h : ∀ fault, (t.scanFrom line p stalls).outcome = .error fault → ¬ fault.isNoProgress) :
    ∃ rounds, t.uncheckedFrom line rounds p = some (t.scanFrom line p stalls) := by
  fun_induction t.scanFrom line p stalls with
  | case1 p stalls ha => exact ⟨1, by simp [uncheckedFrom, ha]⟩
  | case2 p stalls a ha hlast => exact ⟨1, by simp [uncheckedFrom, ha, hlast]⟩
  | case3 p stalls a ha hlast _ _ later ih | case5 p stalls a ha hlast _ later ih =>
    obtain ⟨rounds, hr⟩ := ih h
    exact ⟨rounds + 1, by simp [uncheckedFrom, ha, hlast, hr, later]⟩
  | case4 => exact absurd rfl (h _ rfl)

theorem scanLine_eq_error_iff {state : State} {fault : ScanFault} :
    t.scanLine line state = .error fault ↔
      (t.scanFrom line ⟨state, 0, line.toList⟩ 0).outcome = .error fault := by
  rw [scanLine_eq, scan, Scan.result]
  cases (t.scanFrom line ⟨state, 0, line.toList⟩ 0).outcome <;> simp [Except.map]

/-- **The check for progress is exact**: a scan lacks progress exactly if the unchecked scan of
the line never ends, and whenever it does not, the two give the same. -/
theorem noProgress_iff_endless (t : Table) (line : String) (state : State) :
    ((∃ fault, t.scanLine line state = .error fault ∧ fault.isNoProgress) ↔
        ∀ rounds, t.uncheckedLine rounds line state = none) ∧
      ((¬ ∃ fault, t.scanLine line state = .error fault ∧ fault.isNoProgress) →
        ∃ rounds, ∀ more,
          t.uncheckedLine (rounds + more) line state = some (t.scanLine line state)) := by
  have same : (¬ ∃ fault, t.scanLine line state = .error fault ∧ fault.isNoProgress) →
      ∃ rounds, ∀ more,
        t.uncheckedLine (rounds + more) line state = some (t.scanLine line state) := by
    intro h
    obtain ⟨rounds, hr⟩ := exists_uncheckedFrom_eq (p := ⟨state, 0, line.toList⟩) 0
      fun fault hf hp => h ⟨fault, scanLine_eq_error_iff.2 hf, hp⟩
    exact ⟨rounds, fun more => by
      rw [uncheckedLine, uncheckedFrom_add hr, Option.map_some, scanLine_eq, scan]⟩
  refine ⟨⟨?_, ?_⟩, same⟩
  · rintro ⟨fault, hf, hp⟩ rounds
    rw [uncheckedLine, endless_of_noProgress [] List.nodup_nil rfl (by simp)
      (scanLine_eq_error_iff.1 hf) hp, Option.map_none]
  · intro h
    by_contra hp
    obtain ⟨rounds, hr⟩ := same hp
    exact absurd (h rounds) (by rw [← Nat.add_zero rounds, hr]; simp)

end Table

end LineLexer
