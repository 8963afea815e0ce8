import LineLexer.Proofs.Outcome
import LineLexer.Proofs.Pattern.Reading

/-!
# Groups and alternatives while a pattern is read

What an item can do to the open groups is said once (`PatternReader.moves_of_step`).  It follows
how the whole pattern grows: a bar outside of all groups ends one of its alternatives
(`PatternItem.outerBars` counts these bars), and nothing else does.  So a whole pattern that
begins with the condition for the start of the text keeps that condition at the front of its
first alternative, and of this alternative only (`PatternReader.Framed.foldlM`).
-/

namespace LineLexer

/-! ### Bars outside of all groups -/

namespace PatternItem

/-- The number of groups that are open after an item, if `depth` are open in front of it. -/
def depthAfter (depth : Nat) : PatternItem → Nat
  | .opening .. => depth + 1
  | .closing => depth - 1
  | _ => depth

/-- The number of bars that stand outside of all groups, if `depth` groups are open in front. -/
def outerBars (depth : Nat) : List PatternItem → Nat
  | [] => 0
  | i :: is => (if i = .bar ∧ depth = 0 then 1 else 0) + outerBars (i.depthAfter depth) is

end PatternItem

namespace OpenGroup

theorem exists_foldl_alt_eq_choice (alternatives : List Pattern) (p : Pattern)
    (qs : List Pattern) : ∃ first later, first :: later = alternatives.reverse ++ p :: qs ∧
      alternatives.foldl (fun later earlier => Pattern.alt earlier later) (Pattern.choice p qs) =
        Pattern.choice first later := by
  induction alternatives generalizing p qs with
  | nil => exact ⟨p, qs, rfl, rfl⟩
  | cons a alternatives ih =>
    obtain ⟨first, later, hlist, hfold⟩ := ih a (p :: qs)
    exact ⟨first, later, by simpa using hlist, hfold⟩

/-- **What a group has read is the choice between its alternatives.** -/
theorem exists_body_eq_choice (g : OpenGroup) : ∃ first later,
    first :: later = g.alternatives.reverse ++ [.concat g.parts.reverse] ∧
      g.body = .choice first later :=
  exists_foldl_alt_eq_choice g.alternatives (.concat g.parts.reverse) []

end OpenGroup

namespace PatternReader

/-! ### One item -/

/-- What an item does to the groups that are open. -/
inductive Moves (r r' : PatternReader) : PatternItem → Prop where
  | opening {capturing : Bool} {name : Option String} {settings : FlagSettings} :
      r'.outer = r.inner :: r.outer → Moves r r' (.opening capturing name settings)
  | closing {g : OpenGroup} : r.outer = g :: r'.outer → r'.inner = g.push r.inner.close →
      Moves r r' .closing
  | bar : r'.outer = r.outer → r'.inner = r.inner.nextAlternative → Moves r r' .bar
  /-- The item adds a part, changes the last one, or has no part: the first of several parts
  stays what it is. -/
  | other {i : PatternItem} : i ≠ .bar → (∀ depth, i.depthAfter depth = depth) →
      r'.outer = r.outer → r'.inner.alternatives = r.inner.alternatives →
      r.inner.parts.length ≤ r'.inner.parts.length →
      (2 ≤ r.inner.parts.length → r'.inner.parts.getLast? = r.inner.parts.getLast?) →
      Moves r r' i

theorem moves_push {r : PatternReader} {i : PatternItem} {p : Pattern} (hbar : i ≠ .bar)
    (hdepth : ∀ depth, i.depthAfter depth = depth) :
    Moves r { r with inner := r.inner.push p } i := by
  refine .other hbar hdepth rfl rfl (Nat.le_succ _) ?_
  intro hlen
  cases hparts : r.inner.parts with
  | nil => simp [hparts] at hlen
  | cons q ps => simp [OpenGroup.push, hparts]

theorem moves_repeatLast {r r' : PatternReader} {lo : Nat} {hi : Option Nat} {greedy : Bool}
    (h : r.repeatLast lo hi greedy = .ok r') : Moves r r' (.count lo hi greedy) := by
  unfold repeatLast at h
  split at h
  · rename_i p ps hrep hparts
    obtain rfl := Except.ok.inj h
    refine .other (by simp) (fun _ => rfl) rfl rfl (by simp [hparts]) ?_
    intro hlen
    cases ps with
    | nil => simp [hparts] at hlen
    | cons q ps => simp [hparts]
  · simp at h

theorem moves_part {r r' : PatternReader} {i : PatternItem} (hbar : i ≠ .bar)
    (hdepth : ∀ depth, i.depthAfter depth = depth)
    (h : (match part? r.flags i with
      | .error e => .error e
      | .ok (some p) => .ok { r with inner := r.inner.push p }
      | .ok none => .ok r : Except PatternFault PatternReader) = .ok r') : Moves r r' i := by
  split at h
  · simp at h
  · obtain rfl := Except.ok.inj h
    exact moves_push hbar hdepth
  · obtain rfl := Except.ok.inj h
    exact .other hbar hdepth rfl rfl (Nat.le_refl _) fun _ => rfl

/-- **What an item can do**, if it is read. -/
theorem moves_of_step {r r' : PatternReader} {i : PatternItem} (h : r.step i = .ok r') :
    Moves r r' i := by
  cases i with
  | opening capturing name settings =>
    rw [step, openGroup] at h
    split at h
    · simp at h
    · obtain rfl := Except.ok.inj h
      exact .opening rfl
  | closing =>
    rw [step, closeGroup] at h
    split at h
    · simp at h
    · rename_i g outer houter
      obtain rfl := Except.ok.inj h
      exact .closing houter rfl
  | bar =>
    obtain rfl := Except.ok.inj h
    exact .bar rfl rfl
  | flags settings =>
    obtain rfl := Except.ok.inj h
    exact .other (by simp) (fun _ => rfl) rfl rfl (Nat.le_refl _) fun _ => rfl
  | count lo hi greedy => exact moves_repeatLast h
  | _ => exact moves_part (by simp) (fun _ => rfl) h

/-- The depth of an item counts the groups that are open, however many more lie around them. -/
theorem depthAfter_of_step {r r' : PatternReader} {i : PatternItem} (h : r.step i = .ok r')
    (around : Nat) : i.depthAfter (r.outer.length + around) = r'.outer.length + around := by
  cases moves_of_step h with
  | opening houter =>
    rw [houter, List.length_cons, PatternItem.depthAfter]
    omega
  | closing houter =>
    rw [houter, List.length_cons, PatternItem.depthAfter]
    omega
  | bar houter =>
    rw [houter]
    rfl
  | other _ hdepth houter => rw [hdepth, houter]

/-- **Items that are read by themselves** have no bar outside of a group that is opened in front
of them. -/
theorem outerBars_succ_of_foldlM {r r' : PatternReader} {is : List PatternItem}
    (h : is.foldlM step r = .ok r') :
    PatternItem.outerBars (r.outer.length + 1) is = 0 := by
  induction is generalizing r with
  | nil => rfl
  | cons i is ih =>
    rw [List.foldlM_cons, Outcome.bind_eq_ok_iff] at h
    obtain ⟨s, hs, h⟩ := h
    rw [PatternItem.outerBars, depthAfter_of_step hs 1, ih h]
    simp

/-! ### The whole pattern -/

/-- The outermost of the groups `g :: outer`. -/
def outermost (g : OpenGroup) : List OpenGroup → OpenGroup
  | [] => g
  | g' :: outer => outermost g' outer

theorem outermost_of_ne_nil {outer : List OpenGroup} (h : outer ≠ []) (g g' : OpenGroup) :
    outermost g outer = outermost g' outer := by
  cases outer with
  | nil => exact absurd rfl h
  | cons _ _ => rfl

/-- The group that stands for the whole pattern. -/
def whole (r : PatternReader) : OpenGroup := outermost r.inner r.outer

variable {r r' : PatternReader} {bars : Nat}

theorem whole_of_outer_eq_nil (h : r.outer = []) : r.whole = r.inner := by
  rw [whole, h, outermost]

/-- Within a group, an item that opens and closes none does not change the whole pattern. -/
theorem whole_eq_of_outer_eq (houter : r'.outer = r.outer) (hne : r.outer ≠ []) :
    r'.whole = r.whole := by
  rw [whole, whole, houter]
  exact outermost_of_ne_nil hne _ _

/-- The whole pattern has `bars` finished alternatives, and its first alternative begins with the
condition for the start of the text; this part is never the last one where a repetition can
stand. -/
structure Framed (r : PatternReader) (bars : Nat) : Prop where
  length_eq : r.whole.alternatives.length = bars
  finished : ∀ p ∈ r.whole.alternatives.getLast?, p.startsAtTextStart
  begun : r.whole.alternatives = [] → r.whole.parts.getLast? = some (.look .textStart)
  more : r.whole.alternatives = [] → r.outer = [] → 2 ≤ r.whole.parts.length

theorem startsAtTextStart_concat {ps : List Pattern} (h : ps.head? = some (.look .textStart)) :
    (Pattern.concat ps).startsAtTextStart := by
  obtain ⟨ps, rfl⟩ := List.head?_eq_some_iff.1 h
  cases ps <;> rfl

/-- Within a group the whole pattern stays as it is. -/
theorem Framed.of_whole_eq (hr : r.Framed bars) (hwhole : r'.whole = r.whole)
    (houter : r'.outer ≠ []) : r'.Framed bars := by
  obtain ⟨hlen, hfin, hbegun, -⟩ := hr
  rw [← hwhole] at hlen hfin hbegun
  refine ⟨hlen, hfin, hbegun, ?_⟩
  intro _ hnil
  exact absurd hnil houter

/-- A bar outside of all groups ends an alternative of the whole pattern. -/
theorem Framed.nextAlternative (hr : r.Framed bars) (houter : r.outer = [])
    (houter' : r'.outer = []) (hinner : r'.inner = r.inner.nextAlternative) :
    r'.Framed (bars + 1) := by
  obtain ⟨hlen, hfin, hbegun, -⟩ := hr
  rw [whole_of_outer_eq_nil houter] at hlen hfin hbegun
  have hwhole' : r'.whole = r.inner.nextAlternative := by
    rw [whole_of_outer_eq_nil houter', hinner]
  refine ⟨?_, ?_, ?_, ?_⟩ <;> rw [hwhole']
  · simp [OpenGroup.nextAlternative, hlen]
  · by_cases hnil : r.inner.alternatives = []
    · -- it was the first alternative
      have hfirst : (Pattern.concat r.inner.parts.reverse).startsAtTextStart := by
        refine startsAtTextStart_concat ?_
        rw [List.head?_reverse]
        exact hbegun hnil
      simpa [OpenGroup.nextAlternative, hnil] using hfirst
    · obtain ⟨p, ps, hps⟩ := List.exists_cons_of_ne_nil hnil
      simpa [OpenGroup.nextAlternative, hps] using hfin
  · simp [OpenGroup.nextAlternative]
  · simp [OpenGroup.nextAlternative]

/-- The last open group is closed: it is one more part of the whole pattern. -/
theorem Framed.closeGroup {g : OpenGroup} (hr : r.Framed bars) (houter : r.outer = [g])
    (houter' : r'.outer = []) (hinner : r'.inner = g.push r.inner.close) : r'.Framed bars := by
  have hwhole : r.whole = g := by rw [whole, houter, outermost, outermost]
  have hwhole' : r'.whole = g.push r.inner.close := by rw [whole_of_outer_eq_nil houter', hinner]
  obtain ⟨hlen, hfin, hbegun, -⟩ := hr
  rw [hwhole] at hlen hfin hbegun
  refine ⟨?_, ?_, ?_, ?_⟩ <;> rw [hwhole']
  · exact hlen
  · exact hfin
  · intro hnone
    rw [OpenGroup.push, List.getLast?_cons, hbegun hnone]
    rfl
  · intro hnone _
    have hparts : g.parts ≠ [] := by
      intro hnil
      simpa [hnil] using hbegun hnone
    have hpos := List.length_pos_iff.2 hparts
    simp only [OpenGroup.push, List.length_cons]
    omega

/-- An item outside of all groups that is no bar leaves the first part alone. -/
theorem Framed.of_getLast?_eq (hr : r.Framed bars) (houter : r.outer = [])
    (houter' : r'.outer = []) (halt : r'.inner.alternatives = r.inner.alternatives)
    (hlen : r.inner.parts.length ≤ r'.inner.parts.length)
    (hlast : 2 ≤ r.inner.parts.length → r'.inner.parts.getLast? = r.inner.parts.getLast?) :
    r'.Framed bars := by
  obtain ⟨hcount, hfin, hbegun, hmore⟩ := hr
  rw [whole_of_outer_eq_nil houter] at hcount hfin hbegun hmore
  refine ⟨?_, ?_, ?_, ?_⟩ <;> rw [whole_of_outer_eq_nil houter', halt]
  · exact hcount
  · exact hfin
  · intro hnone
    rw [hlast (hmore hnone houter), hbegun hnone]
  · intro hnone _
    exact Nat.le_trans (hmore hnone houter) hlen

/-- **One item keeps the first alternative bound**, and finishes an alternative only if it is a
bar outside of all groups. -/
theorem Framed.step {i : PatternItem} (hr : r.Framed bars) (h : r.step i = .ok r') :
    r'.Framed (bars + if i = .bar ∧ r.outer.length = 0 then 1 else 0) := by
  cases moves_of_step h with
  | opening houter =>
    have hwhole : r'.whole = r.whole := by rw [whole, houter]; rfl
    simpa using hr.of_whole_eq hwhole (by simp [houter])
  | closing houter hinner =>
    by_cases hnil : r'.outer = []
    · rw [hnil] at houter
      simpa using hr.closeGroup houter hnil hinner
    · have hwhole : r'.whole = r.whole := by
        rw [whole, whole, houter]
        exact outermost_of_ne_nil hnil _ _
      simpa using hr.of_whole_eq hwhole hnil
  | bar houter hinner =>
    by_cases hnil : r.outer = []
    · simpa [hnil] using hr.nextAlternative hnil (houter.trans hnil) hinner
    · simpa [hnil] using hr.of_whole_eq (whole_eq_of_outer_eq houter hnil) (houter ▸ hnil)
  | other hbar _ houter halt hlen hlast =>
    by_cases hnil : r.outer = []
    · simpa [hbar] using hr.of_getLast?_eq hnil (houter.trans hnil) halt hlen hlast
    · simpa [hbar] using hr.of_whole_eq (whole_eq_of_outer_eq houter hnil) (houter ▸ hnil)

/-- **Items keep the first alternative bound**: each bar outside of all groups begins one more. -/
theorem Framed.foldlM {is : List PatternItem} (hr : r.Framed bars)
    (h : is.foldlM PatternReader.step r = .ok r') :
    r'.Framed (bars + PatternItem.outerBars r.outer.length is) := by
  induction is generalizing r bars with
  | nil =>
    obtain rfl := Except.ok.inj h
    exact hr
  | cons i is ih =>
    rw [List.foldlM_cons, Outcome.bind_eq_ok_iff] at h
    obtain ⟨s, hs, h⟩ := h
    have hdepth : i.depthAfter r.outer.length = s.outer.length := depthAfter_of_step hs 0
    have hnext := ih (hr.step hs) h
    rwa [PatternItem.outerBars, hdepth, ← Nat.add_assoc]

/-- **The whole pattern is a choice** whose first alternative is bound to the start of the text,
with one more alternative for each bar outside of all groups. -/
theorem Framed.exists_choice (hr : r.Framed bars) (houter : r.outer = []) : ∃ first later,
    r.inner.body = .choice first later ∧ first.startsAtTextStart ∧ later.length = bars := by
  obtain ⟨hlen, hfin, hbegun, -⟩ := hr
  rw [whole_of_outer_eq_nil houter] at hlen hfin hbegun
  obtain ⟨first, later, hlist, hbody⟩ := r.inner.exists_body_eq_choice
  refine ⟨first, later, hbody, ?_, ?_⟩
  · by_cases hnil : r.inner.alternatives = []
    · -- the alternative is not finished before the text ends
      rw [hnil] at hlist
      obtain ⟨rfl, -⟩ := List.cons.inj hlist
      refine startsAtTextStart_concat ?_
      rw [List.head?_reverse]
      exact hbegun hnil
    · obtain ⟨front, p, hp⟩ := (List.eq_nil_or_concat r.inner.alternatives).resolve_left hnil
      rw [List.concat_eq_append] at hp
      rw [hp, List.reverse_concat, List.cons_append] at hlist
      obtain ⟨rfl, -⟩ := List.cons.inj hlist
      refine hfin _ ?_
      rw [hp, List.getLast?_concat]
      rfl
  · have hsum := congrArg List.length hlist
    simp only [List.length_cons, List.length_append, List.length_reverse, List.length_nil] at hsum
    omega

end PatternReader

theorem Pattern.ofText_eq_ok_iff {text : List Char} {p : Pattern} :
    Pattern.ofText text = .ok p ↔ ∃ is r, PatternItem.items text = .ok is ∧
      is.foldlM PatternReader.step .initial = .ok r ∧ r.outer = [] ∧ p = r.inner.body := by
  rw [Pattern.ofText, Outcome.bind_eq_ok_iff]
  refine exists_congr ?_
  intro is
  rw [Outcome.bind_eq_ok_iff, ← exists_and_left]
  refine exists_congr ?_
  intro r
  refine and_congr_right fun _ => and_congr_right fun _ => ?_
  rw [PatternReader.finish]
  by_cases houter : r.outer = []
  · simp [houter, eq_comm]
  · simp [houter]

end LineLexer
