import LineLexer.Proofs.Scan.Progress
import LineLexer.Proofs.Table.Build

/-!
# Where no rule matches

A scan fails for want of a rule exactly if it comes to a place where no rule of the state matches
(`Table.scanLine_eq_noRule_iff`).  In a table that was built this is never the end of the line,
but it can be any other place: the draft is checked on one character only.  Scans of a built
table never fail in this way exactly if every state covers every text that is not empty
(`TableDraft.covered_iff`).
-/

namespace LineLexer

namespace Table

open Relation (ReflTransGen)

variable {t : Table} {line : String} {p q : Place}

theorem exists_uncheckedFrom_of_reaches (line : String) (h : ReflTransGen t.Steps p q)
    (hq : t.application? q = none) :
    ∃ rounds applications, t.uncheckedFrom line rounds p =
      some ⟨applications, .error (.noRule q.state q.offset line)⟩ := by
  induction h using ReflTransGen.head_induction_on with
  | refl => exact ⟨1, [], by simp [uncheckedFrom, hq]⟩
  | head hst _ ih =>
    obtain ⟨rounds, applications, hr⟩ := ih
    obtain ⟨a, ha⟩ := uncheckedFrom_succ_of_steps line hst rounds
    exact ⟨rounds + 1, a :: applications, by rw [ha, hr, Option.map_some]⟩

theorem exists_reaches_of_noRule {stalls : Nat} {state : State} {offset : Nat} {text : String}
    (h : (t.scanFrom line p stalls).outcome = .error (.noRule state offset text)) :
    ∃ q, ReflTransGen t.Steps p q ∧ q.state = state ∧ q.offset = offset ∧
      t.application? q = none := by
  fun_induction t.scanFrom line p stalls with
  | case1 p stalls ha =>
    obtain ⟨rfl, rfl, -⟩ := ScanFault.noRule.inj (Except.error.inj h)
    exact ⟨p, .refl, rfl, rfl, ha⟩
  | case2 => simp at h
  | case3 p stalls a ha hlast _ _ later ih | case5 p stalls a ha hlast _ later ih =>
    obtain ⟨q, hq, hplace⟩ := ih h
    exact ⟨q, .head ⟨a, ha, by simpa using hlast, rfl⟩ hq, hplace⟩
  | case4 => simp at h

/-- **A scan wants a rule exactly where no rule matches**: at the first such place that it comes
to, and only if it comes to one. -/
theorem scanLine_eq_noRule_iff {state s : State} {n : Nat} :
    t.scanLine line state = .error (.noRule s n line) ↔
      ∃ p, ReflTransGen t.Steps ⟨state, 0, line.toList⟩ p ∧ p.state = s ∧ p.offset = n ∧
        ∀ r ∈ t.rules p.state, r.matchAt p.rest = none := by
  rw [scanLine_eq_error_iff]
  simp only [← application?_eq_none_iff]
  refine ⟨exists_reaches_of_noRule, ?_⟩
  rintro ⟨p, hp, rfl, rfl, hnone⟩
  obtain ⟨rounds, applications, hr⟩ := exists_uncheckedFrom_of_reaches line hp hnone
  -- the unchecked scan ends, so the scan makes progress and the two are the same
  obtain ⟨rounds', hr'⟩ := exists_uncheckedFrom_eq (p := ⟨state, 0, line.toList⟩)
    0 fun fault hf hfault => by
      have := endless_of_noProgress [] List.nodup_nil rfl (by simp) hf hfault rounds
      rw [this] at hr
      exact absurd hr (by simp)
  have hsame := uncheckedFrom_add hr rounds'
  rw [Nat.add_comm, uncheckedFrom_add hr' rounds] at hsame
  rw [Option.some.inj hsame]

end Table

namespace TableDraft

open Relation (ReflTransGen)

/-- **What a built table covers.**  Its scans never want a rule exactly if every state covers
every text that is not empty; and one scan wants a rule exactly if it comes, before the end of
the line, to a place where no rule of the state matches. -/
theorem covered_iff {d : TableDraft} {t : Table} (h : d.build = .ok t) :
    ((∀ line state s n, t.scanLine line state ≠ .error (.noRule s n line)) ↔
      ∀ state rest, rest ≠ [] → ∃ r ∈ t.rules state, (r.matchAt rest).isSome) ∧
    ∀ line state s n, t.scanLine line state = .error (.noRule s n line) ↔
      ∃ p, ReflTransGen t.Steps ⟨state, 0, line.toList⟩ p ∧ p.state = s ∧ p.offset = n ∧
        p.rest ≠ [] ∧ ∀ r ∈ t.rules p.state, r.matchAt p.rest = none := by
  have uncovered {state : State} {rest : List Char} :
      (¬ ∃ r ∈ t.rules state, (r.matchAt rest).isSome) ↔
        ∀ r ∈ t.rules state, r.matchAt rest = none := by
    simp
  have hend {p : Place} (hp : ∀ r ∈ t.rules p.state, r.matchAt p.rest = none) : p.rest ≠ [] := by
    intro hnil
    rw [hnil] at hp
    exact uncovered.2 hp (exists_matchAt_nil h p.state)
  refine ⟨⟨fun hscan state rest _ => ?_, fun hcover line state s n hscan => ?_⟩, ?_⟩
  · by_contra hrest
    -- a scan of the text itself begins at the place that is not covered
    refine hscan (String.ofList rest) state state 0 (Table.scanLine_eq_noRule_iff.2 ?_)
    rw [String.toList_ofList]
    exact ⟨_, .refl, rfl, rfl, uncovered.1 hrest⟩
  · obtain ⟨p, -, -, -, hp⟩ := Table.scanLine_eq_noRule_iff.1 hscan
    exact uncovered.2 hp (hcover p.state p.rest (hend hp))
  · intro line state s n
    rw [Table.scanLine_eq_noRule_iff]
    exact exists_congr fun p => and_congr_right fun _ => and_congr_right fun _ =>
      and_congr_right fun _ => ⟨fun hp => ⟨hend hp, hp⟩, And.right⟩

/-- Rules for the end of a line and for everything else. -/
def catchAll (pattern : String) : List RuleText :=
  [.single .empty "$", .asFallback (.single .text pattern)]

/-- A draft with a fallback that covers one character only. -/
def narrowDraft : TableDraft :=
  TableDraft.new .builtin
    |>.add .start (catchAll "\\x01")
    |>.add .doubleQuotedString (catchAll "(?s).")
    |>.add .quotedString (catchAll "(?s).")
    |>.add .functionArguments (catchAll "(?s).")

/-- The draft is built although a scan of its table wants a rule. -/
theorem narrowDraft_wants_rule :
    narrowDraft.build.map (·.scanLine "x" .start) = .ok (.error (.noRule .start 0 "x")) := by
  decide +kernel

theorem narrowDraft_not_covered : ∃ t, narrowDraft.build = .ok t ∧
    ¬ ∀ state rest, rest ≠ [] → ∃ r ∈ t.rules state, (r.matchAt rest).isSome := by
  have h : narrowDraft.build.map (·.scanLine "x" .start) =
      .ok (.error (.noRule .start 0 "x")) := by decide +kernel
  cases ht : narrowDraft.build with
  | error e => simp [ht, Except.map] at h
  | ok t =>
    rw [ht] at h
    exact ⟨t, rfl, fun hcover => (covered_iff ht).1.2 hcover _ _ _ _ (Except.ok.inj h)⟩

end TableDraft

end LineLexer
