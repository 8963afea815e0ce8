import LineLexer.Proofs.EncryScript.Table
import LineLexer.Proofs.Scan.Total

/-!
# Scans of EncryScript never fail

The table over a valid vocabulary is total (`EncryScript.total_tableOf`), so every line is
classified completely in every state (`EncryScript.exists_scanLine_partition`).  The one rule that
may consume nothing before the end of the line is the last one between the parentheses of a
function header; it leads out of them, and every other rule consumes something.
-/

namespace LineLexer

namespace EncryScript

/-- A state in which a rule may consume nothing before the end of the line ranks above the one
that the rule leads to. -/
def rank : State → Nat
  | .functionArguments => 1
  | _ => 0

theorem rank_le (state : State) : rank state ≤ Table.maxStalls := by cases state <;> decide

namespace Grammar

variable {v : Vocabulary} {state : State} {r : Rule}

/-! ### What the shapes of the rules show -/

theorem startsAtTextStart_of_mem (h : r ∈ rules v state) : r.pattern.startsAtTextStart := by
  obtain ⟨⟨text, p, ahead⟩, -, rfl⟩ := List.mem_map.1 h
  rfl

theorem advances_or_leaves (h : r ∈ rules v state) :
    r.pattern.advances ∨ state = .functionArguments ∧ r.text.next = some .start := by
  have hfixed : ∀ s ∈ State.all, ∀ r ∈ rules .builtin s,
      r.pattern.advances ∨ s = .functionArguments ∧ r.text.next = some .start := by
    decide +kernel
  rcases mem_rules h with h | ⟨-, rfl⟩
  · exact hfixed state state.mem_all r h
  · exact .inl rfl

theorem endsAtTextEnd_of_endsLine (h : r ∈ rules v state) (hends : r.text.endsLine) :
    r.pattern.endsAtTextEnd := by
  have hfixed : ∀ s ∈ State.all, ∀ r ∈ rules .builtin s, r.text.endsLine →
      r.pattern.endsAtTextEnd := by
    decide +kernel
  rcases mem_rules h with h | ⟨-, rfl⟩
  · exact hfixed state state.mem_all r h hends
  · simp [typedParameterRead, anchored, typedParameterRule, RuleText.perGroup] at hends

/-! ### Every text is matched -/

theorem isSome_matchAt_empty (hp : r.pattern = .seq (.look .textStart) .empty)
    (ha : r.ahead = none) (rest : List Char) : (r.matchAt rest).isSome := by
  rw [Rule.matchAt_eq_find? ha, hp]
  exact Pattern.find?_isSome_of_mem (t := .start rest) (by simp [Pattern.results, Look.holds,
    Cursor.start])

theorem isSome_matchAt_anyChar (hp : r.pattern = .seq (.look .textStart) anyChar)
    (ha : r.ahead = none) {rest : List Char} (hrest : rest ≠ []) : (r.matchAt rest).isSome := by
  obtain ⟨c, cs, rfl⟩ := List.exists_cons_of_ne_nil hrest
  rw [Rule.matchAt_eq_find? ha, hp]
  refine Pattern.find?_isSome_of_mem (t := ⟨some c, cs, cs.length, [], rfl⟩) ?_
  simp [Pattern.results, Look.holds, Cursor.start, anyChar, Cursor.next?, CharSet.holds,
    CharSet.all]

theorem exists_matchAt (v : Vocabulary) (state : State) (rest : List Char) :
    ∃ r ∈ rules v state, (r.matchAt rest).isSome := by
  by_cases hrest : rest = []
  · subst hrest
    exact (TableDraft.checkState_eq_ok_iff.1 (checkState_rules v state)).1
  by_cases hstate : state = .functionArguments
  · have hlast : ∃ r ∈ (rules .builtin .functionArguments).tail,
        r.pattern = .seq (.look .textStart) .empty ∧ r.ahead = none := by decide +kernel
    obtain ⟨r, hr, hp, ha⟩ := hlast
    subst hstate
    rw [rules_functionArguments]
    exact ⟨r, List.mem_cons_of_mem _ hr, isSome_matchAt_empty hp ha rest⟩
  · have hlast : ∀ s ∈ State.all, s ≠ .functionArguments → ∃ r ∈ rules .builtin s,
        r.pattern = .seq (.look .textStart) anyChar ∧ r.ahead = none := by decide +kernel
    obtain ⟨r, hr, hp, ha⟩ := hlast state state.mem_all hstate
    rw [rules_eq v hstate]
    exact ⟨r, hr, isSome_matchAt_anyChar hp ha hrest⟩

end Grammar

/-! ### The table -/

/-- **The table of EncryScript is total.** -/
theorem total_tableOf (v : Vocabulary) : (tableOf v).Total rank where
  anchored _ _ hr _ _ hm :=
    Pattern.find?_start_eq_zero (Grammar.startsAtTextStart_of_mem hr) (Rule.find?_of_matchAt hm)
  covers := Grammar.exists_matchAt v
  descends state r hr rest m hrest hm hstop := by
    rcases Grammar.advances_or_leaves hr with hadv | ⟨rfl, hnext⟩
    · have := Pattern.find?_stop_pos (Grammar.startsAtTextStart_of_mem hr) hadv
        (Rule.find?_of_matchAt hm) hrest
      omega
    · exact ⟨.start, hnext, by decide⟩
  rank_le := rank_le
  endsAtLineEnd _ _ hr hends _ _ hm :=
    Pattern.find?_stop_eq_length (Grammar.startsAtTextStart_of_mem hr)
      (Grammar.endsAtTextEnd_of_endsLine hr hends) (Rule.find?_of_matchAt hm)

/-- **Every line is classified completely**: over a valid vocabulary a scan never fails, and its
tokens are a partition of the line. -/
theorem exists_scanLine_partition {v : Vocabulary} (hv : v.Valid) :
    ∃ t, table v = .ok t ∧ ∀ line state, ∃ l, t.scanLine line state = .ok l ∧
      Token.Partition line line.utf8ByteSize l.tokens ∧ l.text = line :=
  ⟨tableOf v, table_eq hv, (total_tableOf v).exists_scanLine_eq_ok⟩

theorem exists_scanLine_partition_builtin : Vocabulary.builtin.Valid ∧
    ∃ t, table .builtin = .ok t ∧ ∀ line state, ∃ l, t.scanLine line state = .ok l ∧
      Token.Partition line line.utf8ByteSize l.tokens ∧ l.text = line :=
  ⟨Vocabulary.valid_builtin, exists_scanLine_partition Vocabulary.valid_builtin⟩

end EncryScript

end LineLexer
