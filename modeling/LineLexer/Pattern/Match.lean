import LineLexer.Pattern.Basic
import LineLexer.Pattern.Cursor

/-!
# Matching

`Pattern.results` lists the places where a match of a pattern can end, the preferred first: an
earlier alternative before a later one, and one more repetition before stopping unless the
repetition is lazy.  A repetition goes on only after a round that consumed something, so the
list is finite.

A round after the first that consumes nothing is dropped, and so a later alternative of that round
is preferred to stopping.  A matcher that runs an automaton and never comes back to one of its
states at the same place differs in this: where a round has ended, the next one cannot choose anew
what the body has already chosen at that place.  On `ab` the pattern `(?:a?b??)+` reaches the end of
the text here, since the second round takes the `b` rather than nothing; such a matcher has chosen
to skip the `b` there, and stops after the `a`.  Only a repetition whose body can match nothing
tells the two apart.

`Pattern.run` finds the first of these places from which the rest of the work succeeds, without
listing them all (`Pattern.run_eq`).  `Pattern.find?` finds the leftmost match in a text.
-/

namespace LineLexer

namespace Pattern

/-! ### All results -/

/-- The places reached from `s` by rounds of `step` that each consume something; `s` itself
stands last if more rounds are preferred, and first otherwise. -/
def rounds (step : Cursor → List Cursor) (greedy : Bool) (s : Cursor) : List Cursor :=
  let more := (step s).flatMap fun t =>
    if _h : t.left < s.left then rounds step greedy t else []
  if greedy then more ++ [s] else s :: more
termination_by s.left

/-- The places reached from `s` by one round of `step` and then by `rounds`.  A first round
that consumes nothing is the only one. -/
def roundsAfterFirst (step : Cursor → List Cursor) (greedy : Bool) (s : Cursor) : List Cursor :=
  (step s).flatMap fun t => if t.left < s.left then rounds step greedy t else [t]

/-- The places where a match that begins at `s` can end, the preferred first. -/
def results : Pattern → Cursor → List Cursor
  | .empty, s => [s]
  | .set cs, s =>
    match s.next? with
    | some (c, t) => if cs.holds c then [t] else []
    | none => []
  | .look l, s => if l.holds s.before s.rest.head? then [s] else []
  | .seq p q, s => (p.results s).flatMap q.results
  | .alt p q, s => p.results s ++ q.results s
  | .opt greedy p, s => if greedy then p.results s ++ [s] else s :: p.results s
  | .star greedy p, s =>
    let some := roundsAfterFirst p.results greedy s
    if greedy then some ++ [s] else s :: some
  | .plus greedy p, s => roundsAfterFirst p.results greedy s
  | .group i p, s => (p.results s).map (·.capture i s)

/-! ### The first result that serves -/

variable {β : Type}

/-- As `rounds`, but only up to the first place that `k` accepts. -/
def runRounds (step : Cursor → (Cursor → Option β) → Option β) (greedy : Bool)
    (k : Cursor → Option β) (s : Cursor) : Option β :=
  let more (_ : Unit) : Option β :=
    step s fun t => if _h : t.left < s.left then runRounds step greedy k t else none
  if greedy then (more ()).orElse fun _ => k s else (k s).orElse more
termination_by s.left

/-- As `roundsAfterFirst`, but only up to the first place that `k` accepts. -/
def runRoundsAfterFirst (step : Cursor → (Cursor → Option β) → Option β) (greedy : Bool)
    (k : Cursor → Option β) (s : Cursor) : Option β :=
  step s fun t => if t.left < s.left then runRounds step greedy k t else k t

/-- The answer of `k` at the first result of the pattern that it accepts. -/
def run : Pattern → Cursor → (Cursor → Option β) → Option β
  | .empty, s, k => k s
  | .set cs, s, k =>
    match s.next? with
    | some (c, t) => if cs.holds c then k t else none
    | none => none
  | .look l, s, k => if l.holds s.before s.rest.head? then k s else none
  | .seq p q, s, k => p.run s fun t => q.run t k
  | .alt p q, s, k => (p.run s k).orElse fun _ => q.run s k
  | .opt greedy p, s, k =>
    if greedy then (p.run s k).orElse fun _ => k s else (k s).orElse fun _ => p.run s k
  | .star greedy p, s, k =>
    if greedy then (runRoundsAfterFirst p.run greedy k s).orElse fun _ => k s
    else (k s).orElse fun _ => runRoundsAfterFirst p.run greedy k s
  | .plus greedy p, s, k => runRoundsAfterFirst p.run greedy k s
  | .group i p, s, k => p.run s fun t => k (t.capture i s)

/-! ### The two agree -/

theorem findSome?_flatMap {α γ : Type} (f : α → List γ) (k : γ → Option β) (xs : List α) :
    (xs.flatMap f).findSome? k = xs.findSome? fun x => (f x).findSome? k := by
  induction xs with
  | nil => rfl
  | cons x xs ih =>
    rw [List.flatMap_cons, List.findSome?_append, List.findSome?_cons, ih]
    cases (f x).findSome? k <;> rfl

theorem findSome?_singleton {α : Type} (x : α) (k : α → Option β) : [x].findSome? k = k x := by
  rw [List.findSome?_cons, List.findSome?_nil]
  cases k x <;> rfl

theorem runRounds_eq {step : Cursor → (Cursor → Option β) → Option β}
    {steps : Cursor → List Cursor} (h : ∀ s k, step s k = (steps s).findSome? k) (greedy : Bool)
    (k : Cursor → Option β) (s : Cursor) :
    runRounds step greedy k s = (rounds steps greedy s).findSome? k := by
  generalize hn : s.left = n
  induction n using Nat.strongRecOn generalizing s with
  | ind n ih =>
    -- the rounds after the next one agree, since less of the text is left there
    have more : (step s fun t => if _h : t.left < s.left then runRounds step greedy k t else none) =
        ((steps s).flatMap fun t =>
          if _h : t.left < s.left then rounds steps greedy t else []).findSome? k := by
      rw [h, findSome?_flatMap]
      congr 1
      funext t
      by_cases ht : t.left < s.left
      · simp only [ht, ↓reduceDIte]
        exact ih _ (hn ▸ ht) t rfl
      · simp [ht]
    rw [runRounds, rounds]
    cases greedy with
    | false =>
      simp only [Bool.false_eq_true, ↓reduceIte, Option.orElse_eq_or]
      rw [← List.singleton_append, List.findSome?_append, findSome?_singleton, more]
    | true =>
      simp only [↓reduceIte, Option.orElse_eq_or, List.findSome?_append, findSome?_singleton, more]

theorem runRoundsAfterFirst_eq {step : Cursor → (Cursor → Option β) → Option β}
    {steps : Cursor → List Cursor} (h : ∀ s k, step s k = (steps s).findSome? k) (greedy : Bool)
    (k : Cursor → Option β) (s : Cursor) :
    runRoundsAfterFirst step greedy k s = (roundsAfterFirst steps greedy s).findSome? k := by
  rw [runRoundsAfterFirst, roundsAfterFirst, h, findSome?_flatMap]
  congr 1
  funext t
  split
  · exact runRounds_eq h greedy k t
  · exact (findSome?_singleton t k).symm

/-- Running a pattern finds the first result that serves. -/
theorem run_eq (p : Pattern) (s : Cursor) (k : Cursor → Option β) :
    p.run s k = (p.results s).findSome? k := by
  induction p generalizing s k with
  | empty => exact (findSome?_singleton s k).symm
  | set cs =>
    rw [run, results]
    split
    · split
      · exact (findSome?_singleton _ k).symm
      · rfl
    · rfl
  | look l =>
    rw [run, results]
    split
    · exact (findSome?_singleton s k).symm
    · rfl
  | seq p q ihp ihq => rw [run, results, ihp, findSome?_flatMap]; simp only [ihq]
  | alt p q ihp ihq => rw [run, results, List.findSome?_append, ihp, ihq, Option.orElse_eq_or]
  | opt greedy p ih =>
    rw [run, results, ih]
    cases greedy
    · rw [if_neg (by simp), if_neg (by simp), ← List.singleton_append, List.findSome?_append,
        findSome?_singleton, Option.orElse_eq_or]
    · rw [if_pos rfl, if_pos rfl, List.findSome?_append, findSome?_singleton, Option.orElse_eq_or]
  | star greedy p ih =>
    rw [run, results, runRoundsAfterFirst_eq ih]
    cases greedy
    · rw [if_neg (by simp), if_neg (by simp), ← List.singleton_append, List.findSome?_append,
        findSome?_singleton, Option.orElse_eq_or]
    · rw [if_pos rfl, if_pos rfl, List.findSome?_append, findSome?_singleton, Option.orElse_eq_or]
  | plus greedy p ih => exact runRoundsAfterFirst_eq ih greedy k s
  | group i p ih =>
    rw [run, results, ih, List.findSome?_map]
    rfl

end Pattern

end LineLexer
