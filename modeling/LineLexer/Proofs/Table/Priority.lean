import LineLexer.Proofs.Pattern.Spelling
import LineLexer.Proofs.Scan.Step

/-!
# Which rule is applied

The first rule of a state that matches is applied.  So a rule is applied where all rules in front
of it refuse (`Table.application?_of_front`), and where a rule is applied none in front of it
matches (`Table.mem_front_of_matchAt`).
-/

namespace LineLexer

namespace Rule

variable {r : Rule} {rest : List Char} {m : Match}

/-- A rule matches where its pattern does and what has to follow the match does. -/
theorem matchAt_eq_some_iff : r.matchAt rest = some m ↔
    r.pattern.find? rest = some m ∧ ∀ q ∈ r.ahead, (q.find? (rest.drop m.stop)).isSome := by
  rw [matchAt]
  cases hfind : r.pattern.find? rest with
  | none => simp
  | some m' =>
    cases hahead : r.ahead with
    | none => simp
    | some q =>
      simp only [Option.mem_def, Option.some.injEq, forall_eq']
      constructor
      · intro h
        split at h
        · rename_i hq
          obtain rfl := Option.some.inj h
          exact ⟨rfl, hq⟩
        · simp at h
      · rintro ⟨rfl, hq⟩
        rw [if_pos hq]

theorem matchAt_eq_none_of_find? (h : r.pattern.find? rest = none) : r.matchAt rest = none := by
  rw [Option.eq_none_iff_forall_not_mem]
  intro m hm
  have hfind := (matchAt_eq_some_iff.1 hm).1
  rw [h] at hfind
  simp at hfind

/-- A rule refuses where what has to follow its match does not. -/
theorem matchAt_eq_none_of_ahead {q : Pattern} (hq : r.ahead = some q)
    (h : ∀ m, r.pattern.find? rest = some m → q.find? (rest.drop m.stop) = none) :
    r.matchAt rest = none := by
  rw [Option.eq_none_iff_forall_not_mem]
  intro m hm
  obtain ⟨hfind, hahead⟩ := matchAt_eq_some_iff.1 hm
  have hsome := hahead q hq
  rw [h m hfind] at hsome
  simp at hsome

end Rule

namespace Table

variable {t : Table} {p : Place} {front back : List Rule} {r : Rule} {m : Match}

/-- **A rule is applied where it matches and all rules in front of it refuse.** -/
theorem application?_of_front (hrules : t.rules p.state = front ++ r :: back)
    (hfront : ∀ r' ∈ front, r'.matchAt p.rest = none) (hm : r.matchAt p.rest = some m) :
    t.application? p = some ⟨p, r, m⟩ := by
  have hfirst : t.firstMatch? p.state p.rest = some (r, m) :=
    firstMatch?_eq_some_iff.2 ⟨front, back, hrules, hfront, hm⟩
  rw [application?, hfirst, Option.map_some]

/-- **A rule that matches is passed over only for one in front of it.** -/
theorem mem_front_of_matchAt {a : Application} (h : t.application? p = some a)
    (hrules : t.rules p.state = front ++ back) (hr : r ∈ front)
    (hm : (r.matchAt p.rest).isSome) : a.rule ∈ front := by
  obtain ⟨⟨rule, hit⟩, hfirst, rfl⟩ := Option.map_eq_some_iff.1 h
  have hfound : (front.findSome? fun r => (r.matchAt p.rest).map (r, ·)).isSome := by
    rw [List.isSome_findSome?, List.any_eq_true]
    exact ⟨r, hr, by simpa using hm⟩
  obtain ⟨found, hfound⟩ := Option.isSome_iff_exists.1 hfound
  rw [firstMatch?, hrules, List.findSome?_append, hfound, Option.some_or] at hfirst
  obtain rfl := Option.some.inj hfirst
  obtain ⟨r', hr', hmap⟩ := List.exists_of_findSome?_eq_some hfound
  obtain ⟨m', -, heq⟩ := Option.map_eq_some_iff.1 hmap
  obtain ⟨rfl, -⟩ := Prod.mk.inj heq
  exact hr'

end Table

end LineLexer
