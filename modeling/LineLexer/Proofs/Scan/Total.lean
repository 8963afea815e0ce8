import LineLexer.Proofs.Pattern.Shape
import LineLexer.Proofs.Scan.Partition

/-!
# Tables whose scans never fail

A scan of a table ends without a fault whatever the line is if three things hold of its rules:
every text is matched in every state, and a match that consumes nothing before the end of the
line leads to a state of lower rank (`Table.exists_outcome_eq_ok`).  If moreover every match
begins at its place, and no rule ends the line before its end, the tokens are a partition of the
whole line (`Table.Total.exists_scanLine_eq_ok`).
-/

namespace LineLexer

namespace Table

/-- In every state some rule matches, whatever is left of the line. -/
def Covers (t : Table) : Prop := ∀ state rest, ∃ r ∈ t.rules state, (r.matchAt rest).isSome

/-- Before the end of the line, a match that consumes nothing leads to a state of lower rank. -/
def Descends (t : Table) (rank : State → Nat) : Prop :=
  ∀ state, ∀ r ∈ t.rules state, ∀ rest m, rest ≠ [] → r.matchAt rest = some m → m.stop = 0 →
    ∃ next, r.text.next = some next ∧ rank next < rank state

/-- A rule that ends the line matches up to the end of it. -/
def EndsAtLineEnd (t : Table) : Prop :=
  ∀ state, ∀ r ∈ t.rules state, r.text.endsLine → ∀ rest m, r.matchAt rest = some m →
    m.stop = rest.length

/-- What a table needs for its scans to classify all of every line. -/
structure Total (t : Table) (rank : State → Nat) : Prop where
  anchored : t.Anchored
  covers : t.Covers
  descends : t.Descends rank
  rank_le : ∀ state, rank state ≤ maxStalls
  endsAtLineEnd : t.EndsAtLineEnd

variable {t : Table} {rank : State → Nat}

theorem Covers.exists_application (h : t.Covers) (p : Place) :
    ∃ a, t.application? p = some a := by
  rw [← Option.ne_none_iff_exists', ne_eq, application?_eq_none_iff]
  intro hnone
  obtain ⟨r, hr, hm⟩ := h p.state p.rest
  simp [hnone r hr] at hm

theorem Descends.next_eq_some {p : Place} {a : Application} (h : t.Descends rank)
    (ha : t.application? p = some a) (hlast : ¬ a.isLast) (hstill : a.hit.stop = 0) :
    ∃ next, a.rule.text.next = some next ∧ rank next < rank p.state := by
  obtain ⟨rfl, hr, hm⟩ := application?_eq_some ha
  have hrest : a.place.rest ≠ [] := fun he => hlast (by simp [Application.isLast, he])
  exact h _ _ hr _ _ hrest hm hstill

/-- **A scan of a covering table whose ranks descend ends without a fault.**  The invariant: the
stalls still allowed are at least as many as the rank of the state. -/
theorem exists_outcome_eq_ok (hc : t.Covers) (hd : t.Descends rank)
    (hle : ∀ state, rank state ≤ maxStalls) (line : String) {p : Place} {stalls : Nat}
    (h : stalls + rank p.state ≤ maxStalls) :
    ∃ state, (t.scanFrom line p stalls).outcome = .ok state := by
  fun_induction t.scanFrom line p stalls with
  | case1 p stalls ha =>
    obtain ⟨a, ha'⟩ := hc.exists_application p
    rw [ha] at ha'
    exact absurd ha' (by simp)
  | case2 p stalls a => exact ⟨a.after.state, rfl⟩
  | case3 p stalls a ha hlast hstill hmore later ih =>
    -- one stall more, but the next state ranks lower
    obtain ⟨next, hnext, hlt⟩ := hd.next_eq_some ha hlast hstill
    refine ih ?_
    have hstate : a.after.state = next := by rw [Application.after, hnext, Option.getD_some]
    rw [hstate]
    omega
  | case4 p stalls a ha hlast hstill hmore =>
    -- a state that is left without progress has a rank, so a stall is still allowed
    obtain ⟨next, hnext, hlt⟩ := hd.next_eq_some ha hlast hstill
    exact absurd ⟨by rw [hnext, Option.isSome_some], by omega⟩ hmore
  | case5 p stalls a ha hlast hstill later ih =>
    -- after progress all stalls are allowed again
    refine ih ?_
    rw [Nat.zero_add]
    exact hle a.after.state

theorem Total.after_rest_eq_nil {a : Application} (ht : t.Total rank)
    (ha : t.application? a.place = some a) (h : a.place.rest = [] ∨ a.rule.text.endsLine) :
    a.after.rest = [] := by
  rw [Application.after]
  rcases h with h | h
  · rw [h, List.drop_nil]
  · obtain ⟨-, hr, hm⟩ := application?_eq_some ha
    rw [ht.endsAtLineEnd _ _ hr h _ _ hm]
    exact List.drop_length

/-- **The scans of a total table never fail, and their tokens are a partition of the line.** -/
theorem Total.exists_scanLine_eq_ok (ht : t.Total rank) (line : String) (state : State) :
    ∃ l, t.scanLine line state = .ok l ∧
      Token.Partition line line.utf8ByteSize l.tokens ∧ l.text = line := by
  obtain ⟨endState, hout⟩ : ∃ endState, (t.scan line state).outcome = .ok endState :=
    exists_outcome_eq_ok ht.covers ht.descends ht.rank_le line (by simpa using ht.rank_le state)
  have hscan : t.scanLine line state = .ok ⟨Token.ofPieces
      ((t.scan line state).applications.flatMap (Application.pieces t.lexicon)), endState⟩ :=
    Outcome.map_eq_ok_iff.2 ⟨endState, hout, rfl⟩
  obtain ⟨a, hlast, hend, hpart, hsize, htext⟩ := ht.anchored.partition hscan
  have hrest := ht.after_rest_eq_nil (mem_applications (List.mem_of_getLast? hlast)) hend
  rw [hrest, List.append_nil, String.toList_inj] at htext
  rw [hsize, ← htext] at hpart
  exact ⟨_, hscan, hpart, htext.symm⟩

end Table

end LineLexer
