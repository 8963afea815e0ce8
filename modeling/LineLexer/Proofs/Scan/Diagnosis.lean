import LineLexer.Proofs.Scan.Coverage
import LineLexer.Proofs.Scan.Tiling

/-!
# What a fault says

A fault of a scan names a state, a byte of the line and, for a lack of progress, the pattern of a
rule.  `Table.Confirms` says when what it tells of them is true.  A fault for want of a rule is
always true (`Table.confirms_of_noRule`).  A fault for lack of progress names the rule that was
applied last, but the state that this rule leads to, and in that state another rule may come first
(`Table.scanLine_noProgress`).
-/

namespace LineLexer

/-- A prefix of a text is known by its size. -/
theorem eq_of_append_of_byteSize {xs xs' ys ys' : List Char} (h : xs ++ ys = xs' ++ ys')
    (hsize : byteSize xs = byteSize xs') : xs = xs' ∧ ys = ys' := by
  have hnil {zs : List Char} (hzs : byteSize zs = 0) : zs = [] := by
    cases zs with
    | nil => rfl
    | cons c cs =>
      have := c.utf8Size_pos
      rw [byteSize_cons] at hzs
      omega
  rcases List.append_eq_append_iff.1 h with ⟨zs, rfl, rfl⟩ | ⟨zs, rfl, rfl⟩
  · rw [byteSize_append] at hsize
    obtain rfl : zs = [] := hnil (by omega)
    simp
  · rw [byteSize_append] at hsize
    obtain rfl : zs = [] := hnil (by omega)
    simp

namespace Table

open Relation (ReflTransGen TransGen)

variable {t : Table} {line : String} {state : State} {rest : List Char} {p q : Place} {r r' : Rule}

/-! ### Rules that take nothing -/

/-- The rule is the first of the state to match in `rest`, and its match is empty. -/
def TakesNothing (t : Table) (state : State) (rest : List Char) (r : Rule) : Prop :=
  ∃ front back m, t.rules state = front ++ r :: back ∧ (∀ r' ∈ front, r'.matchAt rest = none) ∧
    r.matchAt rest = some m ∧ m.start = 0 ∧ m.stop = 0

theorem TakesNothing.unique (h : t.TakesNothing state rest r) (h' : t.TakesNothing state rest r') :
    r = r' := by
  obtain ⟨front, back, m, hrules, hfront, hm, -⟩ := h
  obtain ⟨front', back', m', hrules', hfront', hm', -⟩ := h'
  have hfirst := firstMatch?_eq_some_iff.2 ⟨front, back, hrules, hfront, hm⟩
  rw [firstMatch?_eq_some_iff.2 ⟨front', back', hrules', hfront', hm'⟩] at hfirst
  exact (Prod.mk.inj (Option.some.inj hfirst)).1.symm

theorem takesNothing_of_application? {a : Application} (h : t.application? p = some a)
    (hstill : a.hit.stop = 0) : t.TakesNothing p.state p.rest a.rule := by
  have hstart : a.hit.start = 0 := by
    have hle := (inText_of_application? h).start_le
    omega
  obtain ⟨⟨rule, hit⟩, hfirst, rfl⟩ := Option.map_eq_some_iff.1 h
  obtain ⟨front, back, hrules, hfront, hm⟩ := firstMatch?_eq_some_iff.1 hfirst
  exact ⟨front, back, hit, hrules, hfront, hm, hstart, hstill⟩

/-- What is applied on a cycle of steps that consume nothing takes nothing. -/
theorem stop_eq_zero_of_cycle {a : Application} (ha : t.application? a.place = some a)
    (h : TransGen t.Stalls a.place a.place) : a.hit.stop = 0 ∧ t.Stalls a.place a.after := by
  obtain ⟨q, ⟨b, hb, hlast, hstill, rfl⟩, -⟩ := TransGen.head'_iff.1 h
  obtain rfl : a = b := Option.some.inj (ha.symm.trans hb)
  exact ⟨hstill, a, ha, hlast, hstill, rfl⟩

/-- The first rule of a state that a cycle leads to takes nothing. -/
theorem Stalls.exists_takesNothing (hst : t.Stalls p q) (h : TransGen t.Stalls p p) :
    ∃ r, t.TakesNothing q.state p.rest r := by
  obtain ⟨-, ⟨a, ha, -, hstill, -⟩, -⟩ := TransGen.head'_iff.1 (hst.cycle_next h)
  have hrest : q.rest = p.rest := by rw [hst.eq_withState]
  rw [← hrest]
  exact ⟨a.rule, takesNothing_of_application? ha hstill⟩

/-! ### Places in a line -/

/-- What a scan has passed on the way to a place lies in front of it in the line. -/
theorem exists_passed_of_reaches (h : ReflTransGen t.Steps p q) :
    ∃ passed, p.rest = passed ++ q.rest ∧ q.offset = p.offset + byteSize passed := by
  induction h with
  | refl => exact ⟨[], by simp⟩
  | @tail b _ _ hst ih =>
    obtain ⟨passed, hrest, hoffset⟩ := ih
    obtain ⟨a, ha, -, rfl⟩ := hst
    refine ⟨passed ++ b.rest.take a.hit.stop, ?_, ?_⟩
    · rw [List.append_assoc, ← rest_eq_of_application? ha, hrest]
    · rw [offset_after ha, hoffset, byteSize_append, Nat.add_assoc]

theorem exists_passed_of_line (h : ReflTransGen t.Steps ⟨state, 0, line.toList⟩ p) :
    ∃ passed, line.toList = passed ++ p.rest ∧ byteSize passed = p.offset := by
  obtain ⟨passed, hline, hoffset⟩ := exists_passed_of_reaches h
  exact ⟨passed, hline, by rw [hoffset, Nat.zero_add]⟩

/-! ### Faults -/

/-- What the fault tells of its line is true: no rule of the state matches the line from the byte
on, or the first rule of the state that does has the pattern and takes nothing. -/
def Confirms (t : Table) : ScanFault → Prop
  | .noRule state offset line => ∃ passed rest, line.toList = passed ++ rest ∧
      byteSize passed = offset ∧ ∀ r ∈ t.rules state, r.matchAt rest = none
  | .noProgress pattern state offset line => ∃ passed rest r, line.toList = passed ++ rest ∧
      byteSize passed = offset ∧ r.text.pattern = pattern ∧ t.TakesNothing state rest r

/-- **A fault for want of a rule is true** of the state that it names. -/
theorem confirms_of_noRule {s : State} {n : Nat}
    (h : t.scanLine line state = .error (.noRule s n line)) : t.Confirms (.noRule s n line) := by
  obtain ⟨p, hreach, rfl, rfl, hnone⟩ := scanLine_eq_noRule_iff.1 h
  obtain ⟨passed, hline, hoffset⟩ := exists_passed_of_line hreach
  exact ⟨passed, p.rest, hline, hoffset, hnone⟩

theorem confirms_noProgress_iff {passed : List Char} {pattern : String}
    (hline : line.toList = passed ++ rest) (hr : t.TakesNothing state rest r) :
    t.Confirms (.noProgress pattern state (byteSize passed) line) ↔ r.text.pattern = pattern := by
  constructor
  · rintro ⟨passed', rest', r', hline', hsize, hpattern, hr'⟩
    obtain ⟨-, rfl⟩ := eq_of_append_of_byteSize (hline'.symm.trans hline) hsize
    rw [hr.unique hr', hpattern]
  · intro hpattern
    exact ⟨passed, rest, r, hline, rfl, hpattern, hr⟩

/-- **What a fault for lack of progress tells.**  It names a rule that was the first to match in the
state `tried` and took nothing, the byte where it did, and the state `s` that it leads to.  There
the first rule takes nothing either, so the fault is true exactly if that rule has the same
pattern; it is the same rule if `s` is `tried`. -/
theorem scanLine_noProgress {pattern : String} {s : State} {n : Nat} {text : String}
    (h : t.scanLine line state = .error (.noProgress pattern s n text)) :
    text = line ∧ ∃ tried passed rest r r', line.toList = passed ++ rest ∧ byteSize passed = n ∧
      t.TakesNothing tried rest r ∧ r.text.pattern = pattern ∧ r.text.next.getD tried = s ∧
      t.TakesNothing s rest r' ∧ (s = tried → r' = r) ∧
      (t.Confirms (.noProgress pattern s n text) ↔ r'.text.pattern = pattern) := by
  obtain ⟨a, ha, hreach, hcycle, hfault⟩ :=
    exists_cycle_of_noProgress (t.stalled_zero _) (scanLine_eq_error_iff.1 h) rfl
  obtain ⟨rfl, rfl, rfl, rfl⟩ := ScanFault.noProgress.inj hfault
  obtain ⟨hstill, hst⟩ := stop_eq_zero_of_cycle ha hcycle
  obtain ⟨r', hnamed⟩ := hst.exists_takesNothing hcycle
  have htried := takesNothing_of_application? ha hstill
  obtain ⟨passed, hline, hoffset⟩ := exists_passed_of_line hreach
  have hafter : a.after.offset = a.place.offset := by rw [Application.after_of_stop_eq_zero hstill]
  rw [hafter, ← hoffset]
  refine ⟨rfl, a.place.state, passed, a.place.rest, a.rule, r', hline, rfl, htried, rfl, rfl, hnamed,
    ?_, confirms_noProgress_iff hline hnamed⟩
  intro hsame
  rw [hsame] at hnamed
  exact hnamed.unique htried

end Table

namespace TableDraft

/-- A draft in which two states leave a line to each other by rules of different patterns. -/
def crossedDraft : TableDraft :=
  TableDraft.new .builtin
    |>.add .start [.single .empty "$", .asFallback (.goto (.single .text "x*") .quotedString)]
    |>.add .quotedString [.single .empty "$", .asFallback (.goto (.single .text "y*") .start)]
    |>.add .doubleQuotedString (catchAll "(?s).")
    |>.add .functionArguments (catchAll "(?s).")

theorem exists_fault_crossedDraft : ∃ t, crossedDraft.build = .ok t ∧
    t.scanLine "z" .start = .error (.noProgress "x*" .quotedString 0 "z") ∧
    (t.rules .quotedString).map (·.text.pattern) = ["$", "y*"] := by
  have h : crossedDraft.build.map (fun t => (t.scanLine "z" .start,
      (t.rules .quotedString).map (·.text.pattern))) =
      .ok (.error (.noProgress "x*" .quotedString 0 "z"), ["$", "y*"]) := by
    decide +kernel
  obtain ⟨t, ht, heq⟩ := Outcome.map_eq_ok_iff.1 h
  obtain ⟨hscan, hpatterns⟩ := Prod.mk.inj heq
  exact ⟨t, ht, hscan, hpatterns⟩

theorem crossedDraft_names_next : ∃ t, crossedDraft.build = .ok t ∧
    t.scanLine "z" .start = .error (.noProgress "x*" .quotedString 0 "z") ∧
    ∃ tried passed rest r r', "z".toList = passed ++ rest ∧ byteSize passed = 0 ∧
      t.TakesNothing tried rest r ∧ r.text.pattern = "x*" ∧
      r.text.next.getD tried = .quotedString ∧ t.TakesNothing .quotedString rest r' ∧
      (.quotedString = tried → r' = r) ∧
      (t.Confirms (.noProgress "x*" .quotedString 0 "z") ↔ r'.text.pattern = "x*") := by
  obtain ⟨t, ht, hscan, -⟩ := exists_fault_crossedDraft
  exact ⟨t, ht, hscan, (Table.scanLine_noProgress hscan).2⟩

/-- The fault tells of a state that has no rule with the pattern that it names. -/
theorem crossedDraft_misnames : ∃ t, crossedDraft.build = .ok t ∧
    t.scanLine "z" .start = .error (.noProgress "x*" .quotedString 0 "z") ∧
    (ScanFault.noProgress "x*" .quotedString 0 "z").message =
      "rule /x*/ in state 'quoted-string' matched without progress at byte 0 of \"z\"" ∧
    (∀ r ∈ t.rules .quotedString, r.text.pattern ≠ "x*") ∧
    ¬ t.Confirms (.noProgress "x*" .quotedString 0 "z") := by
  obtain ⟨t, ht, hscan, hpatterns⟩ := exists_fault_crossedDraft
  have hnone : ∀ r ∈ t.rules .quotedString, r.text.pattern ≠ "x*" := by
    intro r hr hpattern
    have hmem := List.mem_map_of_mem (f := (·.text.pattern)) hr
    rw [hpatterns, hpattern] at hmem
    exact absurd hmem (by decide)
  refine ⟨t, ht, hscan, by decide +kernel, hnone, ?_⟩
  rintro ⟨passed, rest, r, -, -, hpattern, front, back, m, hrules, -⟩
  exact hnone r (by rw [hrules]; simp) hpattern

end TableDraft

end LineLexer
