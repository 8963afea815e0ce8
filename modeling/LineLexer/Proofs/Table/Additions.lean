import Mathlib.Data.List.Nodup
import LineLexer.Proofs.Scan.Coverage

/-!
# Drafts made by additions

A draft is made by adding rules to one state after the other, and a state may get its rules in
several parts.  All that counts is what each state is given in the end (`TableDraft.given`): how the
additions for different states are mixed, and how they are split, makes no difference to the table
(`TableDraft.build_ofAdditions_congr`).  It can make one to the error, but only to the choice between
rules that are refused; what a draft lacks is found in the order of the states.
-/

namespace LineLexer

namespace TableDraft

variable {α : Type} {v : Vocabulary} {d : TableDraft}

/-- The draft with more additions, one after the other. -/
def addAll (d : TableDraft) (additions : List (State × List RuleText)) : TableDraft :=
  additions.foldl (fun d a => d.add a.1 a.2) d

/-- The draft that is made of additions only. -/
def ofAdditions (v : Vocabulary) (additions : List (State × List RuleText)) : TableDraft :=
  (new v).addAll additions

/-- The rules that additions give to a state, one addition after the other. -/
def given (additions : List (State × List RuleText)) (state : State) : List RuleText :=
  (additions.filter fun a => a.1 = state).flatMap (·.2)

theorem given_cons (a : State × List RuleText) (additions : List (State × List RuleText))
    (state : State) :
    given (a :: additions) state = (if a.1 = state then a.2 else []) ++ given additions state := by
  by_cases h : a.1 = state
  · simp [given, h]
  · simp [given, h]

/-! ### The rules of a state in a draft -/

theorem rulesOf_cons (entry : State × List α) (entries : List (State × List α)) (state : State) :
    rulesOf (entry :: entries) state =
      if entry.1 = state then entry.2 else rulesOf entries state := by
  obtain ⟨s, xs⟩ := entry
  by_cases h : s = state
  · simp [rulesOf, h]
  · have hne : (state == s) = false := beq_eq_false_iff_ne.2 (Ne.symm h)
    simp [rulesOf, List.lookup_cons, h, hne]

theorem rulesOf_addTo (state : State) (rules : List RuleText)
    (entries : List (State × List RuleText)) (s : State) :
    rulesOf (addTo state rules entries) s =
      rulesOf entries s ++ if state = s then rules else [] := by
  induction entries with
  | nil =>
    rw [addTo, rulesOf_cons]
    rfl
  | cons entry entries ih =>
    by_cases hstate : entry.1 = state
    · rw [addTo, if_pos hstate, rulesOf_cons, rulesOf_cons, ← hstate]
      split <;> simp
    · rw [addTo, if_neg hstate, rulesOf_cons, rulesOf_cons, ih]
      split
      · rename_i hs
        rw [if_neg (by rw [← hs]; exact Ne.symm hstate), List.append_nil]
      · rfl

theorem rulesOf_addAll (d : TableDraft) (additions : List (State × List RuleText))
    (state : State) :
    rulesOf (d.addAll additions).entries state =
      rulesOf d.entries state ++ given additions state := by
  induction additions generalizing d with
  | nil => simp [addAll, given]
  | cons a additions ih =>
    have hadd : rulesOf (d.add a.1 a.2).entries state =
        rulesOf d.entries state ++ if a.1 = state then a.2 else [] :=
      rulesOf_addTo a.1 a.2 d.entries state
    rw [addAll, List.foldl_cons, ← addAll, ih, hadd, given_cons, List.append_assoc]

/-- The additions give a state what the draft has for it. -/
theorem rulesOf_ofAdditions (v : Vocabulary) (additions : List (State × List RuleText))
    (state : State) :
    rulesOf (ofAdditions v additions).entries state = given additions state := by
  rw [ofAdditions, rulesOf_addAll]
  rfl

theorem vocabulary_addAll (d : TableDraft) (additions : List (State × List RuleText)) :
    (d.addAll additions).vocabulary = d.vocabulary := by
  induction additions generalizing d with
  | nil => rfl
  | cons a additions ih => exact ih (d.add a.1 a.2)

/-! ### Every state is named once -/

/-- No state is named twice. -/
def NamesOnce (entries : List (State × List α)) : Prop := (entries.map (·.1)).Nodup

theorem map_addTo (state : State) (rules : List RuleText)
    (entries : List (State × List RuleText)) :
    (addTo state rules entries).map (·.1) = if state ∈ entries.map (·.1) then entries.map (·.1)
      else entries.map (·.1) ++ [state] := by
  induction entries with
  | nil => rfl
  | cons entry entries ih =>
    by_cases hstate : entry.1 = state
    · simp [addTo, hstate]
    · rw [addTo, if_neg hstate, List.map_cons, ih]
      simp only [List.map_cons, List.mem_cons, Ne.symm hstate, false_or]
      split <;> rfl

theorem NamesOnce.addTo {entries : List (State × List RuleText)} (h : NamesOnce entries)
    (state : State) (rules : List RuleText) : NamesOnce (addTo state rules entries) := by
  rw [NamesOnce, map_addTo]
  split
  · exact h
  · rename_i hnew
    exact List.Nodup.append h (List.nodup_singleton state) (List.disjoint_singleton.2 hnew)

theorem namesOnce_addAll (d : TableDraft) (h : NamesOnce d.entries)
    (additions : List (State × List RuleText)) : NamesOnce (d.addAll additions).entries := by
  induction additions generalizing d with
  | nil => exact h
  | cons a additions ih => exact ih (d.add a.1 a.2) (h.addTo a.1 a.2)

theorem NamesOnce.rulesOf_eq {entries : List (State × List α)} (h : NamesOnce entries)
    {entry : State × List α} (hmem : entry ∈ entries) : rulesOf entries entry.1 = entry.2 := by
  induction entries with
  | nil => exact absurd hmem List.not_mem_nil
  | cons first entries ih =>
    obtain ⟨hnew, hrest⟩ := List.nodup_cons.1 h
    rw [rulesOf_cons]
    rcases List.mem_cons.1 hmem with rfl | hmem
    · rw [if_pos rfl]
    · have hne : first.1 ≠ entry.1 := by
        intro heq
        exact hnew (List.mem_map.2 ⟨entry, hmem, heq.symm⟩)
      rw [if_neg hne, ih hrest hmem]

/-! ### Reading the rules of all states -/

theorem readEntry_eq_error_iff {entry : State × List RuleText} {e : TableError} :
    readEntry entry = .error e ↔ entry.2.mapM (Rule.ofText entry.1) = .error e := by
  rw [readEntry, Outcome.bind_eq_error_iff]
  simp [pure, Except.pure]

/-- The rules of every state are read by themselves. -/
theorem mapM_rulesOf {entries : List (State × List RuleText)} {read : List (State × List Rule)}
    (h : entries.mapM readEntry = .ok read) (state : State) :
    (rulesOf entries state).mapM (Rule.ofText state) = .ok (rulesOf read state) := by
  induction entries generalizing read with
  | nil =>
    obtain rfl := Except.ok.inj h
    rfl
  | cons entry entries ih =>
    rw [List.mapM_cons, Outcome.bind_eq_ok_iff] at h
    obtain ⟨first, hfirst, h⟩ := h
    obtain ⟨others, hothers, h⟩ := Outcome.bind_eq_ok_iff.1 h
    obtain rfl := Except.ok.inj h
    obtain ⟨hname, hrules⟩ := readEntry_eq_ok_iff.1 hfirst
    rw [rulesOf_cons, rulesOf_cons, ← hname]
    by_cases hstate : entry.1 = state
    · rw [if_pos hstate, if_pos hstate, ← hstate, hrules]
    · rw [if_neg hstate, if_neg hstate, ih hothers]

/-- The rules of all states are read, or one of them is refused. -/
theorem readEntries_cases (hn : NamesOnce d.entries) :
    (∃ read, d.entries.mapM readEntry = .ok read) ∨
      ∃ e state, d.entries.mapM readEntry = .error e ∧
        ∃ text ∈ rulesOf d.entries state, Rule.ofText state text = .error e := by
  cases hread : d.entries.mapM readEntry with
  | ok read => exact .inl ⟨read, rfl⟩
  | error e =>
    obtain ⟨entry, hmem, hentry⟩ := Outcome.exists_of_mapM_eq_error hread
    obtain ⟨text, htext, hrefused⟩ :=
      Outcome.exists_of_mapM_eq_error (readEntry_eq_error_iff.1 hentry)
    rw [← hn.rulesOf_eq hmem] at htext
    exact .inr ⟨e, entry.1, rfl, text, htext, hrefused⟩

/-! ### What is built -/

/-- What is left of building a table once the rules of every state are read. -/
def finish (v : Vocabulary) (rules : State → List Rule) : Except TableError Table := do
  let lexicon ← Lexicon.ofVocabulary v
  State.all.forM fun state => checkState state (rules state)
  return { lexicon := lexicon, rules := rules }

theorem rules_of_finish {rules : State → List Rule} {t : Table} (h : finish v rules = .ok t) :
    t.rules = rules := by
  obtain ⟨lexicon, -, h⟩ := Outcome.bind_eq_ok_iff.1 h
  obtain ⟨_, -, h⟩ := Outcome.bind_eq_ok_iff.1 h
  rw [← Except.ok.inj h]

/-- The rules of a draft are read and then checked, or one is refused; the vocabulary comes first. -/
theorem build_cases (hn : NamesOnce d.entries) :
    (∃ rules, (∀ state, (rulesOf d.entries state).mapM (Rule.ofText state) = .ok (rules state)) ∧
      d.build = finish d.vocabulary rules) ∨
    ∃ e state, (∃ text ∈ rulesOf d.entries state, Rule.ofText state text = .error e) ∧
      d.build = (Lexicon.ofVocabulary d.vocabulary >>= fun _ => .error e) := by
  have hbuild : d.build = do
      let lexicon ← Lexicon.ofVocabulary d.vocabulary
      let read ← d.entries.mapM readEntry
      State.all.forM fun state => checkState state (rulesOf read state)
      return { lexicon := lexicon, rules := rulesOf read } := rfl
  rcases readEntries_cases hn with ⟨read, hread⟩ | ⟨e, state, hread, hrefused⟩
  · refine .inl ⟨rulesOf read, mapM_rulesOf hread, ?_⟩
    rw [hbuild, hread]
    rfl
  · refine .inr ⟨e, state, hrefused, ?_⟩
    rw [hbuild, hread]
    rfl

/-- One of the rules that additions give to the states is refused for the cause `e`. -/
def Refuses (additions : List (State × List RuleText)) (e : TableError) : Prop :=
  ∃ state, ∃ text ∈ given additions state, Rule.ofText state text = .error e

theorem namesOnce_ofAdditions (v : Vocabulary) (additions : List (State × List RuleText)) :
    NamesOnce (ofAdditions v additions).entries :=
  namesOnce_addAll (new v) List.nodup_nil additions

/-- A draft of additions, and what is built from it. -/
theorem build_ofAdditions_cases (v : Vocabulary) (additions : List (State × List RuleText)) :
    (∃ rules, (∀ state, (given additions state).mapM (Rule.ofText state) = .ok (rules state)) ∧
      (ofAdditions v additions).build = finish v rules) ∨
    ∃ e, Refuses additions e ∧
      (ofAdditions v additions).build = (Lexicon.ofVocabulary v >>= fun _ => .error e) := by
  have hcases := build_cases (namesOnce_ofAdditions v additions)
  simp only [rulesOf_ofAdditions] at hcases
  have hv : (ofAdditions v additions).vocabulary = v := vocabulary_addAll (new v) additions
  rw [hv] at hcases
  rcases hcases with hread | ⟨e, state, hrefused, hbuild⟩
  · exact .inl hread
  · exact .inr ⟨e, ⟨state, hrefused⟩, hbuild⟩

theorem not_refuses {additions : List (State × List RuleText)} {rules : State → List Rule}
    (h : ∀ state, (given additions state).mapM (Rule.ofText state) = .ok (rules state))
    (e : TableError) : ¬ Refuses additions e := by
  rintro ⟨state, text, htext, hrefused⟩
  exact Outcome.ne_error_of_mem_mapM (h state) htext e hrefused

variable {xs ys : List (State × List RuleText)}

theorem Refuses.congr {e : TableError} (h : ∀ state, given xs state = given ys state)
    (hxs : Refuses xs e) : Refuses ys e := by
  obtain ⟨state, text, htext, hrefused⟩ := hxs
  exact ⟨state, text, h state ▸ htext, hrefused⟩

/-- **The order of additions for different states is irrelevant.**  Additions that give every state
the same rules make drafts from which one and the same table is built, with these rules in their
order, or from which none is.  The errors are the same if all rules are read, and each is that of a
refused rule if they differ. -/
theorem build_ofAdditions_congr (v : Vocabulary) (h : ∀ state, given xs state = given ys state) :
    (∃ t, (ofAdditions v xs).build = .ok t ∧ (ofAdditions v ys).build = .ok t ∧
      ∀ state, (given xs state).mapM (Rule.ofText state) = .ok (t.rules state)) ∨
    ∃ e e', (ofAdditions v xs).build = .error e ∧ (ofAdditions v ys).build = .error e' ∧
      ((∀ state, ∀ text ∈ given xs state, ∃ r, Rule.ofText state text = .ok r) → e = e') ∧
      (e ≠ e' → Refuses xs e ∧ Refuses ys e') := by
  rcases build_ofAdditions_cases v xs with ⟨rules, hread, hxs⟩ | ⟨e, hrefused, hxs⟩
  · rcases build_ofAdditions_cases v ys with ⟨rules', hread', hys⟩ | ⟨e', hrefused', -⟩
    · obtain rfl : rules = rules' := by
        funext state
        rw [← Except.ok.injEq (ε := TableError), ← hread, ← hread', h]
      rw [hxs, hys]
      cases hfinish : finish v rules with
      | ok t => exact .inl ⟨t, rfl, rfl, by rwa [rules_of_finish hfinish]⟩
      | error e => exact .inr ⟨e, e, rfl, rfl, fun _ => rfl, fun hne => absurd rfl hne⟩
    · exact absurd (hrefused'.congr fun state => (h state).symm) (not_refuses hread e')
  · rcases build_ofAdditions_cases v ys with ⟨rules', hread', -⟩ | ⟨e', hrefused', hys⟩
    · exact absurd (hrefused.congr h) (not_refuses hread' e)
    · right
      rw [hxs, hys]
      cases Lexicon.ofVocabulary v with
      | error e₀ => exact ⟨e₀, e₀, rfl, rfl, fun _ => rfl, fun hne => absurd rfl hne⟩
      | ok lexicon =>
        refine ⟨e, e', rfl, rfl, ?_, fun _ => ⟨hrefused, hrefused'⟩⟩
        intro hread
        obtain ⟨state, text, htext, herror⟩ := hrefused
        obtain ⟨r, hr⟩ := hread state text htext
        rw [hr] at herror
        exact nomatch herror

/-- Additions with the rules of a state in several parts, between those of other states. -/
def mixedAdditions (parameters : List RuleText) : List (State × List RuleText) := [
  (.start, [.single .empty "$"]),
  (.quotedString, catchAll "(?s)."),
  (.functionArguments, parameters),
  (.start, []),
  (.doubleQuotedString, catchAll "(?s)."),
  (.start, [.asFallback (.single .text "(?s).")])]

/-- The same rules, state by state. -/
def plainAdditions (parameters : List RuleText) : List (State × List RuleText) := [
  (.start, catchAll "(?s)."),
  (.doubleQuotedString, catchAll "(?s)."),
  (.quotedString, catchAll "(?s)."),
  (.functionArguments, parameters)]

theorem given_mixedAdditions (parameters : List RuleText) (state : State) :
    given (mixedAdditions parameters) state = given (plainAdditions parameters) state := by
  cases state <;> rfl

theorem build_mixedAdditions :
    (∃ t, (ofAdditions .builtin (mixedAdditions (catchAll "."))).build = .ok t ∧
      (ofAdditions .builtin (plainAdditions (catchAll "."))).build = .ok t) ∧
    ∃ e, (ofAdditions .builtin (mixedAdditions [])).build = .error e ∧
      (ofAdditions .builtin (plainAdditions [])).build = .error e := by
  constructor
  · have hok : (ofAdditions .builtin (mixedAdditions (catchAll "."))).build.isOk := by
      decide +kernel
    rcases build_ofAdditions_congr .builtin (given_mixedAdditions (catchAll ".")) with
      ⟨t, ht, ht', -⟩ | ⟨e, e', he, -⟩
    · exact ⟨t, ht, ht'⟩
    · simp [he, Except.isOk, Except.toBool] at hok
  · have hfails : (ofAdditions .builtin (mixedAdditions [])).build.isOk = false := by
      decide +kernel
    have hread : ∀ state ∈ State.all, ∀ text ∈ given (mixedAdditions []) state,
        (Rule.ofText state text).isOk := by
      decide +kernel
    rcases build_ofAdditions_congr .builtin (given_mixedAdditions []) with
      ⟨t, ht, -⟩ | ⟨e, e', he, he', hsame, -⟩
    · simp [ht, Except.isOk, Except.toBool] at hfails
    · obtain rfl := hsame fun state text htext =>
        Outcome.isOk_iff.1 (hread state state.mem_all text htext)
      exact ⟨e, he, he'⟩

/-- Of two rules that are refused, the one of the state named first is blamed. -/
example :
    (ofAdditions .builtin [(.start, [.perGroup [] "(a)"]), (.quotedString, [.perGroup [] "(b)"])]
      ).build.map (fun _ => ()) = .error (.groupCountMismatch .start "(a)" 1 0) ∧
    (ofAdditions .builtin [(.quotedString, [.perGroup [] "(b)"]), (.start, [.perGroup [] "(a)"])]
      ).build.map (fun _ => ()) = .error (.groupCountMismatch .quotedString "(b)" 1 0) := by
  decide +kernel

end TableDraft

end LineLexer
