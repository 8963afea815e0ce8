import Mathlib.Algebra.Ring.Parity
import LineLexer.Proofs.EncryScript.ParameterLists
import LineLexer.Proofs.EncryScript.Strings

/-!
# What crosses the end of a line

A line that leaves the next one in a string ends in an odd number of backslashes, and one that
leaves it within parameters ends in items of a list of parameters, in front of which the line begins
or a function header does (`EncryScript.scanLine_endState`).  Both are read off the last place of
the scan and carried back over the rules one by one (`Table.of_outcome`), so it does not matter how
often strings and lists are entered and left on the way.  What a single rule can do is said once
(`EncryScript.Leads`).
-/

namespace LineLexer

/-- **What holds where a scan ends holds where it begins** if every rule carries it back. -/
theorem Table.of_outcome {t : Table} {P : Place → State → Prop}
    (hlast : ∀ a, t.application? a.place = some a → a.isLast → P a.place a.after.state)
    (hstep : ∀ a state, t.application? a.place = some a → a.isLast = false → P a.after state →
      P a.place state)
    {line : String} {p : Place} {stalls : Nat} {state : State}
    (h : (t.scanFrom line p stalls).outcome = .ok state) : P p state := by
  have here {p : Place} {a : Application} (ha : t.application? p = some a) :
      p = a.place ∧ t.application? a.place = some a := by
    obtain rfl := application?_place ha
    exact ⟨rfl, ha⟩
  fun_induction t.scanFrom line p stalls with
  | case1 | case4 => simp at h
  | case2 p stalls a ha hends =>
    obtain ⟨rfl, ha⟩ := here ha
    obtain rfl := Except.ok.inj h
    exact hlast a ha hends
  | case3 p stalls a ha hends _ _ later ih | case5 p stalls a ha hends _ later ih =>
    obtain ⟨rfl, ha⟩ := here ha
    exact hstep a state ha (by simpa using hends) (ih h)

namespace EncryScript

open Pattern Grammar

variable {v : Vocabulary} {a : Application} {state : State} {quote : Char}

/-! ### What a rule can lead to -/

/-- Where a rule leads to: back to the start, into a string or into parameters, or on within them. -/
inductive Leads (types : List String) (a : Application) : Prop where
  | start : a.after.state = .start → Leads types a
  | opening {quote : Char} : a.place.state = .start → a.after.state.quote? = some quote →
      a.place.rest = quote :: a.after.rest → Leads types a
  | header {n : Nat} {name : List Char} : a.place.state = .start →
      a.after.state = .functionArguments → 1 ≤ n → isIdentifier (String.ofList name) →
      a.place.rest = (headerTexts n name).flatten ++ a.after.rest → Leads types a
  | escape {quote : Char} {w : List Char} : a.place.state.quote? = some quote →
      a.after.state = a.place.state → IsEscape w → a.place.rest = w ++ a.after.rest →
      Leads types a
  | lastBackslash {quote : Char} : a.place.state.quote? = some quote →
      a.after.state = a.place.state → a.place.rest = ['\\'] → a.after.rest = [] → Leads types a
  | content {quote c : Char} : a.place.state.quote? = some quote →
      a.after.state = a.place.state → a.place.rest = c :: a.after.rest → a.place.rest ≠ ['\\'] →
      (∀ cs, a.place.rest ≠ '\\' :: '\\' :: cs) → Leads types a
  | item : a.place.state = .functionArguments → a.after.state = .functionArguments →
      (∀ items rest, Taken types a.after.rest items rest →
        ∃ items, Taken types a.place.rest items rest) → Leads types a
  | listEnd : a.place.state = .functionArguments → a.after.state = .functionArguments →
      a.place.rest = [] → Leads types a

theorem after_state_of_rule {r : Rule} (hrule : a.rule = r) :
    a.after.state = r.text.next.getD a.place.state := by
  rw [Application.after, hrule]

/-- What a rule takes is spelled by its pattern. -/
theorem exists_spells_of_rule {text : RuleText} {p : Pattern} {ahead : Option Pattern}
    (h : (tableOf v).application? a.place = some a) (hrule : a.rule = anchored text p ahead) :
    ∃ w, p.Spells none w a.after.rest ∧ a.place.rest = w ++ a.after.rest := by
  obtain ⟨w, after, hrest, hspells, -, hstop, -⟩ :=
    exists_spells_of_matchAt (matchAt_of_application? h hrule)
  rw [Application.after_rest_eq hrest hstop]
  exact ⟨w, hspells, hrest⟩

/-- The rule of an opening quote. -/
def openQuoteRule (quote : Char) (state : State) : Rule :=
  anchored (.followedBy (.goto (.single .string (String.singleton quote)) state) ".") (.char quote)
    (some (.set .notLineFeed))

theorem leads_of_start (h : (tableOf v).application? a.place = some a)
    (hstate : a.place.state = .start) : Leads v.types a := by
  have hfixed : ∀ r ∈ rules .builtin .start,
      r = openQuoteRule '"' .doubleQuotedString ∨ r = openQuoteRule '\'' .quotedString ∨
      r = headerRule ∨ r.text.next = none := by
    decide +kernel
  obtain ⟨-, hr, -⟩ := Table.application?_eq_some h
  rw [hstate, rules_start] at hr
  have hquote {quote : Char} {state : State} (hquote : state.quote? = some quote)
      (hrule : a.rule = openQuoteRule quote state) : Leads v.types a := by
    obtain ⟨w, hspells, hrest⟩ := exists_spells_of_rule h hrule
    rw [spells_char.1 hspells] at hrest
    exact .opening hstate (by rw [after_state_of_rule hrule]; exact hquote) hrest
  rcases hfixed _ hr with hr | hr | hr | hr
  · exact hquote rfl hr
  · exact hquote rfl hr
  · obtain ⟨w, hspells, hrest⟩ := exists_spells_of_rule h hr
    rw [List.append_nil] at hspells
    obtain ⟨ws, rfl, hws⟩ := spells_concat_fields.1 hspells
    obtain ⟨n, name, rfl, hn, hname⟩ := spellEach_headerFields.1 hws
    exact .header hstate (by rw [after_state_of_rule hr]; rfl) hn hname hrest
  · refine .start ?_
    rw [Application.after, hr, hstate]
    rfl

theorem leads_of_string (h : (tableOf v).application? a.place = some a)
    (hquote : a.place.state.quote? = some quote) : Leads v.types a := by
  obtain ⟨-, hr, -⟩ := Table.application?_eq_some h
  rw [rules_string hquote] at hr
  simp only [List.mem_cons, List.not_mem_nil, or_false] at hr
  rcases hr with hr | hr | hr | hr
  · obtain ⟨w, hspells, hrest⟩ := exists_spells_of_rule h hr
    exact .escape hquote (by rw [after_state_of_rule hr]; rfl) (spells_escape.1 hspells) hrest
  · obtain ⟨w, hspells, hrest⟩ := exists_spells_of_rule h hr
    obtain ⟨_, rfl, rfl, hend⟩ := spells_concat_char_cons.1 hspells
    have hnil : a.after.rest = [] := by simpa [Look.holds] using hend
    rw [hnil] at hrest
    exact .lastBackslash hquote (by rw [after_state_of_rule hr]; rfl) hrest hnil
  · exact .start (by rw [after_state_of_rule hr]; rfl)
  · obtain ⟨w, ⟨c, -, rfl⟩, hrest⟩ := exists_spells_of_rule h hr
    -- where a rule in front of the last one matches, that one is not applied
    have hsplit : (tableOf v).rules a.place.state = [escapeRule, openEndRule a.place.state] ++
        [closingQuoteRule quote, contentRule] := rules_string hquote
    have hfront : ∀ r ∈ [escapeRule, openEndRule a.place.state],
        ¬ (r.matchAt a.place.rest).isSome := by
      intro r hmem hsome
      have hrule := Table.mem_front_of_matchAt h hsplit hmem hsome
      have hfallback : ∀ r ∈ [escapeRule, openEndRule a.place.state], r.text.fallback = false :=
        List.forall_mem_cons.2 ⟨rfl, List.forall_mem_singleton.2 rfl⟩
      have hnot := hfallback _ hrule
      rw [hr] at hnot
      exact Bool.noConfusion hnot
    refine .content hquote (by rw [after_state_of_rule hr]; rfl) hrest ?_ ?_
    · intro htext
      refine hfront (openEndRule a.place.state) (by simp) ?_
      rw [htext, matchAt_openEndRule]
      rfl
    · intro cs htext
      have hspells : Grammar.escape.Spells none ['\\', '\\'] cs :=
        spells_escape.2 (.char (by decide))
      obtain ⟨-, -, m, -, -, hm, -⟩ :=
        exists_matchAt_of_spells (.single .escape stringEscape) hspells
      refine hfront escapeRule (by simp) ?_
      rw [htext]
      exact Option.isSome_iff_exists.2 ⟨m, hm⟩

theorem leads_of_parameters (hv : v.Valid) (h : (tableOf v).application? a.place = some a)
    (hstate : a.place.state = .functionArguments) : Leads v.types a := by
  -- the rule is that of what is taken first
  have hsame {r : Rule} {m : Match}
      (happlied : (tableOf v).application? ⟨.functionArguments, a.place.offset, a.place.rest⟩ =
        some ⟨⟨.functionArguments, a.place.offset, a.place.rest⟩, r, m⟩) :
      a.rule = r ∧ a.hit = m := by
    rw [← hstate, h] at happlied
    have heq := Option.some.inj happlied
    exact ⟨congrArg Application.rule heq, congrArg Application.hit heq⟩
  obtain ⟨items, rest, htaken⟩ := exists_taken v.types a.place.rest
  cases htaken with
  | parameter hparameter _ =>
    obtain ⟨hrule, hhit⟩ := hsame (application?_parameterAt hv hparameter _)
    have hrest := Application.after_rest_eq hparameter.text_eq (by rw [hhit]; rfl)
    refine .item hstate (by rw [after_state_of_rule hrule]; exact hstate) ?_
    intro items rest htaken
    rw [hrest] at htaken
    exact ⟨_, .parameter hparameter htaken⟩
  | separator hnone htext hne hw hafter _ =>
    have happlied := application?_separators hv (htext ▸ hnone) hne hw hafter a.place.offset
    rw [← htext] at happlied
    obtain ⟨hrule, hhit⟩ := hsame happlied
    have hrest := Application.after_rest_eq htext (by rw [hhit])
    refine .item hstate (by rw [after_state_of_rule hrule]; exact hstate) ?_
    intro items rest htaken
    rw [hrest] at htaken
    exact ⟨_, .separator hnone htext hne hw hafter htaken⟩
  | stop hnone hhead =>
    by_cases hnil : a.place.rest = []
    · have happlied := application?_listEnd hv a.place.offset
      rw [← hnil] at happlied
      obtain ⟨hrule, -⟩ := hsame happlied
      exact .listEnd hstate (by rw [after_state_of_rule hrule]; exact hstate) hnil
    · obtain ⟨hrule, -⟩ := hsame (application?_leave hv hnone hnil hhead _)
      exact .start (by rw [after_state_of_rule hrule]; rfl)

/-- **Every rule leads to one of these.** -/
theorem leads (hv : v.Valid) (h : (tableOf v).application? a.place = some a) :
    Leads v.types a := by
  cases hstate : a.place.state with
  | start => exact leads_of_start h hstate
  | doubleQuotedString | quotedString => exact leads_of_string h (by rw [hstate]; rfl)
  | functionArguments => exact leads_of_parameters hv h hstate

/-! ### The last rule -/

/-- The last rule stands at the end of the line or takes a last backslash within a string. -/
theorem rest_of_isLast (h : (tableOf v).application? a.place = some a) (hlast : a.isLast) :
    a.place.rest = [] ∨ a.place.rest = ['\\'] ∧ a.place.state.quote?.isSome ∧
      a.after.state = a.place.state := by
  have hfixed : ∀ s ∈ State.all, ∀ r ∈ rules .builtin s, r.text.endsLine →
      r = openEndRule s ∧ s.quote?.isSome := by
    decide +kernel
  obtain ⟨-, hr, -⟩ := Table.application?_eq_some h
  rw [Application.isLast, Bool.or_eq_true, List.isEmpty_iff] at hlast
  rcases hlast with hnil | hends
  · exact .inl hnil
  rcases mem_rules hr with hr | ⟨-, hr⟩
  · obtain ⟨hrule, hstring⟩ := hfixed _ (State.mem_all _) _ hr hends
    obtain ⟨w, hspells, hrest⟩ := exists_spells_of_rule h hrule
    obtain ⟨_, rfl, rfl, hend⟩ := spells_concat_char_cons.1 hspells
    have hnil : a.after.rest = [] := by simpa [Look.holds] using hend
    rw [hnil] at hrest
    exact .inr ⟨hrest, hstring, by rw [after_state_of_rule hrule]; rfl⟩
  · rw [hr] at hends
    exact Bool.noConfusion hends

/-- At the end of the line a string is left, and parameters go on only where they were. -/
theorem after_state_of_nil (hv : v.Valid) (h : (tableOf v).application? a.place = some a)
    (hnil : a.place.rest = []) : a.after.state.quote? = none ∧
      (a.after.state = .functionArguments → a.place.state = .functionArguments) := by
  cases leads hv h with
  | start hstart => simp [hstart, State.quote?]
  | opening _ _ hrest => simp [hnil] at hrest
  | header _ _ _ _ hrest => simp [hnil, headerTexts] at hrest
  | escape _ _ hw hrest =>
    obtain ⟨c, ds, rfl, -⟩ := hw.exists_eq
    simp [hnil] at hrest
  | lastBackslash _ _ hrest => simp [hnil] at hrest
  | content _ _ hrest => simp [hnil] at hrest
  | item hstate hlist => simp [hlist, hstate, State.quote?]
  | listEnd hstate hlist => simp [hlist, hstate, State.quote?]

/-! ### Strings -/

/-- The rest of the line ends in an odd number of backslashes; outside of a string it is more than
that. -/
structure LeavesOpen (p : Place) : Prop where
  odd : ¬ Even (finalBackslashes p.rest)
  more : p.state.quote? = none → ∃ c ∈ p.rest, c ≠ '\\'

theorem even_finalBackslashes_escape {w : List Char} (hw : IsEscape w) :
    Even (finalBackslashes w) := by
  obtain ⟨c, ds, rfl, hds⟩ := hw.exists_eq
  have hplain : Even (finalBackslashes ds) := by
    refine even_finalBackslashes_of_forall fun d hd hslash => hds d hd ?_
    simp [hslash]
  exact (even_finalBackslashes_append (even_finalBackslashes_pair c)).2 hplain

/-- At the end of the line only a last backslash leaves a string open. -/
theorem leavesOpen_of_isLast (hv : v.Valid) (h : (tableOf v).application? a.place = some a)
    (hlast : a.isLast) (hopen : a.after.state.quote?.isSome) : LeavesOpen a.place := by
  rcases rest_of_isLast h hlast with hnil | ⟨hslash, hstring, -⟩
  · simp [(after_state_of_nil hv h hnil).1] at hopen
  · refine ⟨by rw [hslash]; decide, ?_⟩
    intro hnone
    simp [hnone] at hstring

/-- **A rule carries it back** that a string is left open. -/
theorem leavesOpen_of_after (hv : v.Valid) (h : (tableOf v).application? a.place = some a)
    (hafter : LeavesOpen a.after) : LeavesOpen a.place := by
  by_cases hmore : ∃ c ∈ a.after.rest, c ≠ '\\'
  · have hrest := Table.rest_eq_of_application? h
    refine ⟨?_, fun _ => ?_⟩
    · rw [hrest, finalBackslashes_append_of_exists _ hmore]
      exact hafter.odd
    · obtain ⟨c, hc, hne⟩ := hmore
      exact ⟨c, by rw [hrest]; exact List.mem_append_right _ hc, hne⟩
  -- only backslashes are left, so the scan is within a string
  have hstring : a.after.state.quote? ≠ none := fun hnone => hmore (hafter.more hnone)
  have hslashes : ∀ c ∈ a.after.rest, c = '\\' := by simpa using hmore
  have heven {w : List Char} (hw : Even (finalBackslashes w)) :
      ¬ Even (finalBackslashes (w ++ a.after.rest)) := by
    rw [even_finalBackslashes_append hw]
    exact hafter.odd
  cases leads hv h with
  | start hstart => simp [hstart, State.quote?] at hstring
  | @opening q _ hquote hrest =>
    have hne := quote_ne_backslash hquote
    refine ⟨?_, fun _ => ⟨q, by rw [hrest]; exact List.mem_cons_self, hne⟩⟩
    rw [hrest]
    exact heven (even_finalBackslashes_singleton hne)
  | escape hquote _ hw hrest =>
    refine ⟨?_, fun hnone => by simp [hnone] at hquote⟩
    rw [hrest]
    exact heven (even_finalBackslashes_escape hw)
  | lastBackslash _ _ _ hnil => exact absurd (hnil ▸ even_finalBackslashes_nil) hafter.odd
  | @content _ c hquote _ hrest hone htwo =>
    refine ⟨?_, fun hnone => by simp [hnone] at hquote⟩
    -- a backslash would have been taken by another rule
    have hc : c ≠ '\\' := by
      rintro rfl
      cases hnext : a.after.rest with
      | nil =>
        rw [hnext] at hrest
        exact hone hrest
      | cons d ds =>
        obtain rfl := hslashes d (by rw [hnext]; exact List.mem_cons_self)
        rw [hnext] at hrest
        exact htwo ds hrest
    rw [hrest]
    exact heven (even_finalBackslashes_singleton hc)
  | header _ hlist | item _ hlist | listEnd _ hlist => simp [hlist, State.quote?] at hstring

/-! ### Parameters -/

/-- The rest of the line consists of items within parameters, or it ends in the front of a header
and items behind it. -/
def LeavesList (types : List String) (p : Place) : Prop :=
  ∃ w items, Taken types w items [] ∧ (p.rest = w ∧ p.state = .functionArguments ∨
    ∃ front n name, 1 ≤ n ∧ isIdentifier (String.ofList name) ∧
      p.rest = front ++ ((headerTexts n name).flatten ++ w))

/-- At the end of the line only a list of parameters can go on. -/
theorem leavesList_of_isLast (hv : v.Valid) (h : (tableOf v).application? a.place = some a)
    (hlast : a.isLast) (hlist : a.after.state = .functionArguments) :
    LeavesList v.types a.place := by
  rcases rest_of_isLast h hlast with hnil | ⟨-, hstring, hstate⟩
  · have hempty : Taken v.types [] [] [] := .stop (noParameter_of_head? (by simp)) (by simp)
    exact ⟨[], [], hempty, .inl ⟨hnil, (after_state_of_nil hv h hnil).2 hlist⟩⟩
  · rw [← hstate, hlist] at hstring
    simp [State.quote?] at hstring

/-- **A rule carries it back** that a list of parameters goes on. -/
theorem leavesList_of_after (hv : v.Valid) (h : (tableOf v).application? a.place = some a)
    (hlast : a.isLast = false) (hafter : LeavesList v.types a.after) :
    LeavesList v.types a.place := by
  obtain ⟨w, items, htaken, ⟨rfl, hlist⟩ | ⟨front, n, name, hn, hname, hsplit⟩⟩ := hafter
  · -- the rule takes an item, or it is the front of the header
    cases leads hv h with
    | start hstart =>
      rw [hstart] at hlist
      cases hlist
    | opening _ hquote => simp [hlist, State.quote?] at hquote
    | header _ _ hn hname hrest => exact ⟨_, items, htaken, .inr ⟨[], _, _, hn, hname, hrest⟩⟩
    | escape hquote hstate | lastBackslash hquote hstate | content hquote hstate =>
      rw [← hstate, hlist] at hquote
      simp [State.quote?] at hquote
    | item hstate _ hitem =>
      obtain ⟨items, htaken⟩ := hitem _ _ htaken
      exact ⟨_, items, htaken, .inl ⟨rfl, hstate⟩⟩
    | listEnd _ _ hnil => simp [Application.isLast, hnil] at hlast
  · have hrest := Table.rest_eq_of_application? h
    rw [hsplit, ← List.append_assoc] at hrest
    exact ⟨w, items, htaken, .inr ⟨_, _, _, hn, hname, hrest⟩⟩

/-! ### Whole lines -/

/-- **What crosses the end of a line**, over a valid vocabulary, whatever the state that the line
begins in.  A line that ends in a string ends in an odd number of backslashes.  A line that ends
within parameters consists of items of their list if it begins there, or it ends in the front of a
header with items behind it. -/
theorem scanLine_endState {v : Vocabulary} (hv : v.Valid) :
    ∃ t, table v = .ok t ∧ ∀ (line : String) (state : State), ∃ l, t.scanLine line state = .ok l ∧
      (l.endState.quote?.isSome → Odd (finalBackslashes line.toList)) ∧
      (l.endState = .functionArguments → ∃ items,
        Taken v.types (ListItem.writtenAll items).toList items [] ∧
        (line = ListItem.writtenAll items ∧ state = .functionArguments ∨
          ∃ front n name, 1 ≤ n ∧ isIdentifier name ∧
            line = front ++ ("def" ++ spaces n ++ name ++ "(") ++ ListItem.writtenAll items)) := by
  refine ⟨tableOf v, table_eq hv, ?_⟩
  intro line state
  obtain ⟨l, hl, -⟩ := (total_tableOf v).exists_scanLine_eq_ok line state
  obtain ⟨endState, hout, rfl⟩ := Outcome.map_eq_ok_iff.1 hl
  refine ⟨_, hl, ?_, ?_⟩
  · intro hopen
    have hleaves := Table.of_outcome
      (P := fun p endState => endState.quote?.isSome → LeavesOpen p)
      (fun a ha hlast => leavesOpen_of_isLast hv ha hlast)
      (fun a _ ha _ hafter hopen => leavesOpen_of_after hv ha (hafter hopen)) hout hopen
    exact Nat.not_even_iff_odd.1 hleaves.odd
  · intro hlist
    obtain ⟨w, items, htaken, hleaves⟩ := Table.of_outcome
      (P := fun p endState => endState = .functionArguments → LeavesList v.types p)
      (fun a ha hlast => leavesList_of_isLast hv ha hlast)
      (fun a _ ha hlast hafter hlist => leavesList_of_after hv ha hlast (hafter hlist)) hout hlist
    have hw := htaken.text_eq
    rw [List.append_nil] at hw
    subst hw
    refine ⟨items, htaken, ?_⟩
    rcases hleaves with ⟨hline, hstate⟩ | ⟨front, n, name, hn, hname, hline⟩
    · exact .inl ⟨String.toList_inj.1 hline, hstate⟩
    · refine .inr ⟨String.ofList front, n, String.ofList name, hn, hname, ?_⟩
      rw [← String.toList_inj]
      simpa [headerTexts, spaces] using hline

/-- The first line is the end of a string that a backslash keeps open; the second one breaks off
within the parameters of a header. -/
theorem scanLine_endState_builtin : Vocabulary.builtin.Valid ∧ ∃ t, table .builtin = .ok t ∧
    (∃ l, t.scanLine "\\" .quotedString = .ok l ∧ l.endState = .quotedString ∧
      Odd (finalBackslashes "\\".toList)) ∧
    ∃ l items, t.scanLine "def f(n:Int," .start = .ok l ∧ l.endState = .functionArguments ∧
      Taken Vocabulary.builtin.types (ListItem.writtenAll items).toList items [] ∧
      ∃ front n name, 1 ≤ n ∧ isIdentifier name ∧
        "def f(n:Int," =
          front ++ ("def" ++ spaces n ++ name ++ "(") ++ ListItem.writtenAll items := by
  have hslash : (tableOf .builtin).Yields 0 ⟨.quotedString, 0, "\\".toList⟩
      [⟨.string, ['\\'], 0, true⟩] .quotedString := yields_backslash_end rfl 0
  have hname : isIdentifier (String.ofList ['f']) := by decide
  have hlist := taken_builtin.yields Vocabulary.valid_builtin (0 + 6)
    (yields_listEnd Vocabulary.valid_builtin _)
  obtain ⟨ps, hheader⟩ : ∃ ps, (tableOf .builtin).Yields 0 ⟨.start, 0, "def f(n:Int,".toList⟩ ps
      .functionArguments :=
    ⟨_, .step_groups (application?_header .builtin (Nat.le_refl 1) hname "n:Int,".toList)
      rfl rfl rfl (by decide) hlist⟩
  obtain ⟨t, ht, hscan⟩ := scanLine_endState Vocabulary.valid_builtin
  obtain rfl := Except.ok.inj (ht.symm.trans (table_eq Vocabulary.valid_builtin))
  obtain ⟨l, hl, hodd, -⟩ := hscan "\\" .quotedString
  obtain rfl := Except.ok.inj (hl.symm.trans hslash.scanLine_eq)
  obtain ⟨m, hm, -, hitems⟩ := hscan "def f(n:Int," .start
  obtain rfl := Except.ok.inj (hm.symm.trans hheader.scanLine_eq)
  obtain ⟨items, htaken, ⟨-, hstart⟩ | hfront⟩ := hitems rfl
  · cases hstart
  · exact ⟨Vocabulary.valid_builtin, _, ht, ⟨_, hl, rfl, hodd rfl⟩, _, items, hm, rfl, htaken,
      hfront⟩

end EncryScript

end LineLexer
