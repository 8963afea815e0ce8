import LineLexer.Proofs.Pattern.Closing
import LineLexer.Proofs.Pattern.Leftmost
import LineLexer.Proofs.Scan.Coverage
import LineLexer.Proofs.Scan.Tiling

/-!
# Where the matches of a rule begin

The frame `\A(?:…)` around the pattern of a rule binds its matches to the start of the text, if
the pattern is one by itself.  A pattern that closes the frame and opens another group can have
bars outside of both (`Rule.looseBars` counts them), and each of them begins an alternative that
is bound to nothing and matches wherever it can (`TableDraft.matchAt_start_of_build`).
-/

namespace LineLexer

namespace Rule

open PatternItem PatternReader

/-! ### The frame -/

/-- The text is a pattern by itself. -/
def standsAlone (pattern : String) : Bool := (Pattern.ofText pattern.toList).isOk

/-- The number of bars in a pattern that stand outside of its frame. -/
def looseBars (pattern : String) : Nat :=
  match items (framed pattern) with
  | .ok is => outerBars 0 is
  | .error _ => 0

/-- The reader behind the opening of the frame. -/
def framedReader : PatternReader where
  flags := {}
  groupCount := 0
  names := []
  inner := { index := none, outerFlags := {} }
  outer := [{ index := none, outerFlags := {}, parts := [.look .textStart], repeatable := true }]

theorem begins_framed (pattern : String) :
    Begins (framed pattern) [.look .textStart, .opening false none []]
      (pattern.toList ++ [')']) := by
  have hframed : framed pattern = '\\' :: 'A' :: '(' :: '?' :: ':' :: (pattern.toList ++ [')']) :=
    rfl
  rw [hframed]
  exact .cons rfl (.cons rfl (.refl _))

theorem framed_framedReader : framedReader.Framed 0 := by
  refine ⟨rfl, ?_, ?_, ?_⟩
  · simp [framedReader, whole, outermost]
  · intro _
    rfl
  · intro _ hnil
    simp [framedReader] at hnil

/-- The items behind the opening of the frame hold all the loose bars. -/
theorem looseBars_eq_outerBars {pattern : String} {is : List PatternItem}
    (h : items (pattern.toList ++ [')']) = .ok is) : looseBars pattern = outerBars 1 is := by
  have hitems := (begins_framed pattern).items_eq h
  rw [looseBars, hitems]
  simp [outerBars, depthAfter]

/-- **A pattern in its frame** is a choice whose first alternative is bound to the start of the
text; there is one more for each loose bar. -/
theorem exists_choice_of_ofText_framed {pattern : String} {p : Pattern}
    (h : Pattern.ofText (framed pattern) = .ok p) : ∃ first later, p = .choice first later ∧
      first.startsAtTextStart ∧ later.length = looseBars pattern := by
  obtain ⟨is, r, his, hr, houter, rfl⟩ := Pattern.ofText_eq_ok_iff.1 h
  rw [begins_framed pattern] at his
  obtain ⟨js, hjs, rfl⟩ := Outcome.map_eq_ok_iff.1 his
  have hframed : r.Framed (0 + outerBars 1 js) := framed_framedReader.foldlM hr
  rw [Nat.zero_add, ← looseBars_eq_outerBars hjs] at hframed
  exact hframed.exists_choice houter

theorem outerBars_append_closing (depth : Nat) (is : List PatternItem) :
    outerBars depth (is ++ [.closing]) = outerBars depth is := by
  induction is generalizing depth with
  | nil => simp [outerBars]
  | cons i is ih => rw [List.cons_append, outerBars, outerBars, ih]

/-- **A pattern by itself has no loose bars.** -/
theorem looseBars_eq_zero {pattern : String} (h : standsAlone pattern) :
    looseBars pattern = 0 := by
  obtain ⟨p, hp⟩ := Outcome.isOk_iff.1 h
  obtain ⟨is, r, his, hr, -, -⟩ := Pattern.ofText_eq_ok_iff.1 hp
  have hbars : outerBars 1 is = 0 := outerBars_succ_of_foldlM hr
  rw [looseBars_eq_outerBars (items_close his), outerBars_append_closing, hbars]

theorem leftmost_of_matchAt {r : Rule} {rest : List Char} {m : Match}
    (h : r.matchAt rest = some m) : r.pattern.Leftmost rest 0 m.start :=
  Pattern.leftmost_of_find? (find?_of_matchAt h)

end Rule

/-! ### Choices -/

namespace Pattern

theorem results_choice (p : Pattern) (qs : List Pattern) (s : Cursor) :
    (choice p qs).results s = (p :: qs).flatMap (·.results s) := by
  induction qs generalizing p with
  | nil => simp [choice]
  | cons q qs ih => simp [choice, results, ih]

theorem results_choice_eq_nil_iff {p : Pattern} {qs : List Pattern} {s : Cursor} :
    (choice p qs).results s = [] ↔ ∀ q ∈ p :: qs, q.results s = [] := by
  rw [results_choice, List.flatMap_eq_nil_iff]

theorem Leftmost.exists_found {first : Pattern} {later : List Pattern} {text : List Char}
    {n k : Nat} (h : (choice first later).Leftmost text n k) :
    ∃ q ∈ first :: later, q.results (.place text k) ≠ [] := by
  have hfound := h.found
  rw [ne_eq, results_choice_eq_nil_iff] at hfound
  push Not at hfound
  exact hfound

/-- A match of a choice that begins later is a match of an alternative that is not bound to the
start of the text. -/
theorem Leftmost.exists_later {first : Pattern} {later : List Pattern} {text : List Char} {k : Nat}
    (h : (choice first later).Leftmost text 0 k) (hfirst : first.startsAtTextStart) (hk : k ≠ 0) :
    ∃ q ∈ later, q.results (.place text k) ≠ [] := by
  obtain ⟨q, hq, hresults⟩ := h.exists_found
  rcases List.mem_cons.1 hq with rfl | hq
  · obtain ⟨c, hc⟩ := Cursor.exists_before_place (Nat.pos_of_ne_zero hk) h.le_length
    exact absurd (results_eq_nil hfirst c hc) hresults
  · exact ⟨q, hq, hresults⟩

end Pattern

/-! ### The rules of a built table -/

namespace TableDraft

variable {d : TableDraft} {t : Table} {state : State} {r : Rule}

theorem exists_choice_of_mem_rules (h : d.build = .ok t) (hr : r ∈ t.rules state) :
    ∃ first later, r.pattern = .choice first later ∧ first.startsAtTextStart ∧
      later.length = Rule.looseBars r.text.pattern := by
  obtain ⟨texts, -, -, htext⟩ := exists_entry_of_mem_rules h hr
  obtain ⟨-, hpattern, -, -⟩ := Rule.ofText_eq_ok_iff.1 htext
  exact Rule.exists_choice_of_ofText_framed (Rule.readPattern_eq_ok_iff.1 hpattern)

theorem start_eq_zero_of_looseBars (h : d.build = .ok t) (hr : r ∈ t.rules state)
    (hbars : Rule.looseBars r.text.pattern = 0) {rest : List Char} {m : Match}
    (hm : r.matchAt rest = some m) : m.start = 0 := by
  obtain ⟨first, later, hchoice, hfirst, hlater⟩ := exists_choice_of_mem_rules h hr
  rw [hbars, List.length_eq_zero_iff] at hlater
  by_contra hstart
  have hmost := Rule.leftmost_of_matchAt hm
  rw [hchoice] at hmost
  obtain ⟨q, hq, -⟩ := hmost.exists_later hfirst hstart
  rw [hlater] at hq
  exact List.not_mem_nil hq

/-- **A draft of patterns that stand alone** gives an anchored table. -/
theorem anchored_of_standsAlone (h : d.build = .ok t)
    (hd : ∀ entry ∈ d.entries, ∀ text ∈ entry.2, Rule.standsAlone text.pattern) :
    t.Anchored := by
  intro state r hr rest m hm
  obtain ⟨texts, hentry, htext, -⟩ := exists_entry_of_mem_rules h hr
  have hbars := Rule.looseBars_eq_zero (hd _ hentry _ htext)
  exact start_eq_zero_of_looseBars h hr hbars hm

/-- **Where the matches of a rule of a built table begin.**  They begin at the start of the text
if the pattern has no loose bar, and it has none if it stands alone.  Each loose bar adds an
alternative to the bound one, and a match that begins later comes from one of those, at the
first place where the rule has a result. -/
theorem matchAt_start_of_build (h : d.build = .ok t) (hr : r ∈ t.rules state) :
    (Rule.standsAlone r.text.pattern → Rule.looseBars r.text.pattern = 0) ∧
    (Rule.looseBars r.text.pattern = 0 → ∀ rest m, r.matchAt rest = some m → m.start = 0) ∧
    ∃ first later, r.pattern = .choice first later ∧ first.startsAtTextStart ∧
      later.length = Rule.looseBars r.text.pattern ∧
      ∀ rest m, r.matchAt rest = some m →
        (m.start = 0 ↔ ∃ q ∈ first :: later, q.results (.start rest) ≠ []) ∧
        (m.start ≠ 0 → ∃ q ∈ later, q.results (.place rest m.start) ≠ []) ∧
        ∀ k < m.start, ∀ q ∈ first :: later, q.results (.place rest k) = [] := by
  obtain ⟨first, later, hchoice, hfirst, hlater⟩ := exists_choice_of_mem_rules h hr
  refine ⟨Rule.looseBars_eq_zero, ?_, first, later, hchoice, hfirst, hlater, ?_⟩
  · intro hbars rest m hm
    exact start_eq_zero_of_looseBars h hr hbars hm
  · intro rest m hm
    have hmost := Rule.leftmost_of_matchAt hm
    rw [hchoice] at hmost
    refine ⟨⟨?_, ?_⟩, hmost.exists_later hfirst, ?_⟩
    · intro hstart
      have hfound := hmost.exists_found
      rwa [hstart] at hfound
    · rintro ⟨q, hq, hresults⟩
      by_contra hstart
      have hskipped := hmost.skipped 0 (Nat.le_refl 0) (Nat.pos_of_ne_zero hstart)
      exact hresults (Pattern.results_choice_eq_nil_iff.1 hskipped q hq)
    · intro k hk
      exact Pattern.results_choice_eq_nil_iff.1 (hmost.skipped k (Nat.zero_le k) hk)

/-- A draft with a pattern that closes its frame, has a loose bar and opens another group. -/
def looseDraft : TableDraft :=
  TableDraft.new .builtin
    |>.add .start (.single .keyword "x)|(?:y" :: catchAll "(?s).")
    |>.add .doubleQuotedString (catchAll "(?s).")
    |>.add .quotedString (catchAll "(?s).")
    |>.add .functionArguments (catchAll "(?s).")

theorem exists_rule_looseDraft : ∃ t r, looseDraft.build = .ok t ∧ r ∈ t.rules .start ∧
    r.text.pattern = "x)|(?:y" ∧ r.matchAt ['a', 'y'] = some ⟨1, 2, []⟩ ∧
    t.scanLine "ay" .start = .ok ⟨[⟨.keyword, "y", ⟨1, 2⟩⟩], .start⟩ := by
  have h : looseDraft.build.map (fun t => ((t.rules .start).head?.map fun r =>
      (r.text.pattern, r.matchAt ['a', 'y']), t.scanLine "ay" .start)) =
      .ok (some ("x)|(?:y", some ⟨1, 2, []⟩), .ok ⟨[⟨.keyword, "y", ⟨1, 2⟩⟩], .start⟩) := by
    decide +kernel
  obtain ⟨t, ht, heq⟩ := Outcome.map_eq_ok_iff.1 h
  obtain ⟨hhead, hscan⟩ := Prod.mk.inj heq
  obtain ⟨r, hr, hrule⟩ := Option.map_eq_some_iff.1 hhead
  obtain ⟨hpattern, hmatch⟩ := Prod.mk.inj hrule
  exact ⟨t, r, ht, List.mem_of_head? hr, hpattern, hmatch, hscan⟩

theorem looseDraft_alternative : ∃ t r, looseDraft.build = .ok t ∧ r ∈ t.rules .start ∧
    ∃ first later, r.pattern = .choice first later ∧ first.startsAtTextStart ∧
      later.length = 1 ∧ ∃ q ∈ later, q.results (.place ['a', 'y'] 1) ≠ [] := by
  obtain ⟨t, r, ht, hr, hpattern, hmatch, -⟩ := exists_rule_looseDraft
  obtain ⟨-, -, first, later, hchoice, hfirst, hlater, hstarts⟩ := matchAt_start_of_build ht hr
  have hbars : Rule.looseBars "x)|(?:y" = 1 := by decide +kernel
  rw [hpattern, hbars] at hlater
  obtain ⟨-, hlate, -⟩ := hstarts _ _ hmatch
  exact ⟨t, r, ht, hr, first, later, hchoice, hfirst, hlater, hlate Nat.one_ne_zero⟩

/-- The draft is built although a rule of its table passes over the first character of a line. -/
theorem looseDraft_skips : ∃ t r m, looseDraft.build = .ok t ∧ r ∈ t.rules .start ∧
    r.matchAt ['a', 'y'] = some m ∧ m.start ≠ 0 ∧
    t.scanLine "ay" .start = .ok ⟨[⟨.keyword, "y", ⟨1, 2⟩⟩], .start⟩ := by
  obtain ⟨t, r, ht, hr, -, hmatch, hscan⟩ := exists_rule_looseDraft
  exact ⟨t, r, _, ht, hr, hmatch, Nat.one_ne_zero, hscan⟩

end TableDraft

end LineLexer
