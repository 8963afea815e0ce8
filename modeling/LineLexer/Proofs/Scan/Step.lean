import LineLexer.Proofs.Pattern.Results
import LineLexer.Scan

/-!
# One step of a scan

What is known of a rule that a scan applies at a place: it is the first rule of the state to match
(`Table.firstMatch?_eq_some_iff`, `Table.application?_eq_some`), its match lies in the rest of the
line (`Table.inText_of_application?`), and a match that consumes nothing changes the state only
(`Application.after_of_stop_eq_zero`).
`Table.Steps` is the step from one place to the next.
-/

namespace LineLexer

namespace Rule

theorem find?_of_matchAt {r : Rule} {rest : List Char} {m : Match}
    (h : r.matchAt rest = some m) : r.pattern.find? rest = some m := by
  unfold matchAt at h
  split at h
  · simp at h
  · rename_i m' hm
    split at h
    · rw [hm, h]
    · split at h
      · rw [hm, h]
      · simp at h

theorem matchAt_eq_find? {r : Rule} (h : r.ahead = none) (rest : List Char) :
    r.matchAt rest = r.pattern.find? rest := by
  unfold matchAt
  cases r.pattern.find? rest with
  | none => rfl
  | some m => simp [h]

end Rule

namespace Table

variable {t : Table} {p q : Place} {a : Application}

/-- The first match is that of a rule behind others that all refuse. -/
theorem firstMatch?_eq_some_iff {state : State} {rest : List Char} {r : Rule} {m : Match} :
    t.firstMatch? state rest = some (r, m) ↔ ∃ front back, t.rules state = front ++ r :: back ∧
      (∀ r' ∈ front, r'.matchAt rest = none) ∧ r.matchAt rest = some m := by
  rw [firstMatch?, List.findSome?_eq_some_iff]
  constructor
  · rintro ⟨front, r', back, hrules, hr, hfront⟩
    obtain ⟨m', hm, heq⟩ := Option.map_eq_some_iff.1 hr
    obtain ⟨rfl, rfl⟩ := Prod.mk.inj heq
    exact ⟨front, back, hrules, fun r hr => Option.map_eq_none_iff.1 (hfront r hr), hm⟩
  · rintro ⟨front, back, hrules, hfront, hm⟩
    refine ⟨front, r, back, hrules, by rw [hm, Option.map_some], ?_⟩
    intro r' hr'
    rw [hfront r' hr', Option.map_none]

theorem application?_eq_some (h : t.application? p = some a) :
    a.place = p ∧ a.rule ∈ t.rules p.state ∧ a.rule.matchAt p.rest = some a.hit := by
  obtain ⟨⟨rule, hit⟩, hfirst, rfl⟩ := Option.map_eq_some_iff.1 h
  obtain ⟨front, back, hrules, -, hm⟩ := firstMatch?_eq_some_iff.1 hfirst
  exact ⟨rfl, by simp [hrules], hm⟩

/-- No rule is applied at a place exactly if no rule of the state matches there. -/
theorem application?_eq_none_iff :
    t.application? p = none ↔ ∀ r ∈ t.rules p.state, r.matchAt p.rest = none := by
  simp [application?, firstMatch?]

theorem inText_of_application? (h : t.application? p = some a) :
    a.hit.InText a.place.rest.length := by
  obtain ⟨rfl, -, hm⟩ := application?_eq_some h
  exact Pattern.inText_of_find? (Rule.find?_of_matchAt hm)

/-- A rule is applied at `p`, the scan goes on after it, and `q` is the place where it does. -/
def Steps (t : Table) (p q : Place) : Prop :=
  ∃ a, t.application? p = some a ∧ a.isLast = false ∧ a.after = q

theorem mem_applications {line : String} {stalls : Nat}
    (h : a ∈ (t.scanFrom line p stalls).applications) : t.application? a.place = some a := by
  have here {p : Place} {b : Application} (hb : t.application? p = some b) :
      t.application? b.place = some b := by
    rw [application?_place hb, hb]
  fun_induction t.scanFrom line p stalls with
  | case1 => simp at h
  | case2 _ _ b hb | case4 _ _ b hb =>
    obtain rfl := List.mem_singleton.1 h
    exact here hb
  | case3 _ _ b hb _ _ _ _ ih | case5 _ _ b hb _ _ _ ih =>
    rcases List.mem_cons.1 h with rfl | h
    · exact here hb
    · exact ih h

end Table

namespace Application

/-- After a match that consumed nothing, only the state may have changed. -/
theorem after_of_stop_eq_zero {a : Application} (h : a.hit.stop = 0) :
    a.after = { a.place with state := a.rule.text.next.getD a.place.state } := by
  simp [after, h]

end Application

end LineLexer
