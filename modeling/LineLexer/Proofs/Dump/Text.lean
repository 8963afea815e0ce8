import LineLexer.Dump
import LineLexer.Proofs.Text.Lines
import LineLexer.Proofs.Text.Quoted

/-!
# Dumps for people are unambiguous

A dump consists of rows: the heading of a line, one row for each of its tokens, and the state after
it (`dumpRows`).  No row holds a line feed, so the rows can be told from the dump
(`splitLineFeeds_dumpText`), and the row of a token shows its scope, its text and its span
(`Token.dump_eq_iff`).  Dumps are the same exactly if all that they show is
(`dumpText_eq_iff`).
-/

namespace LineLexer

/-! ### What a dump shows -/

/-- What a dump shows of a token: its scope, its text and its span. -/
def Token.shown (t : Token) : String × String × Span := (t.kind.scope, t.text, t.span)

/-- What a dump shows of a line: its tokens and the state after it. -/
def ScannedLine.shown (l : ScannedLine) : List (String × String × Span) × State :=
  (l.tokens.map Token.shown, l.endState)

namespace Kind

/-- Only white space and text share a scope. -/
theorem scope_eq_iff {k k' : Kind} : k.scope = k'.scope ↔
    k = k' ∨ k ∈ [whitespace, text] ∧ k' ∈ [whitespace, text] := by
  have hall : ∀ k ∈ all, ∀ k' ∈ all, k.scope = k'.scope ↔
      k = k' ∨ k ∈ [whitespace, text] ∧ k' ∈ [whitespace, text] := by
    decide +kernel
  exact hall k k.mem_all k' k'.mem_all

/-- Scopes are made of small letters and points. -/
theorem all_scope (k : Kind) : k.scope.toList.all fun c => c.isLower || c == '.' := by
  cases k <;> rfl

theorem notMem_scope (k : Kind) {c : Char} (hc : (c.isLower || c == '.') = false) :
    c ∉ k.scope.toList := by
  intro hmem
  have hscope := List.all_eq_true.1 k.all_scope c hmem
  rw [hc] at hscope
  exact Bool.false_ne_true hscope

end Kind

theorem State.name_inj {s s' : State} (h : s.name = s'.name) : s = s' := by
  have hread := ofName?_name s
  rw [h, ofName?_name] at hread
  exact (Option.some.inj hread).symm

theorem toDigits_inj {m n : Nat} (h : Nat.toDigits 10 m = Nat.toDigits 10 n) : m = n := by
  rw [← Nat.ofDigitChars_ten_toDigits (n := m), h, Nat.ofDigitChars_ten_toDigits]

theorem isDigit_of_mem_toDigits (n : Nat) : ∀ c ∈ Nat.toDigits 10 n, c.isDigit :=
  fun _ hc => Nat.isDigit_of_mem_toDigits (by decide) (by decide) hc

theorem feed_notMem_toDigits (n : Nat) : '\n' ∉ Nat.toDigits 10 n :=
  fun h => absurd (isDigit_of_mem_toDigits n _ h) (by decide)

/-! ### The row of a token -/

namespace Token

theorem toList_dump (t : Token) : t.dump.toList = t.kind.scope.toList ++ '(' ::
    (quoteChars t.text.toList ++ ')' :: ' ' :: '@' :: ' ' ::
      (Nat.toDigits 10 t.span.start ++ '.' :: '.' :: Nat.toDigits 10 t.span.stop)) := by
  simp [dump, quoted]

theorem shown_eq_iff {t u : Token} : t.shown = u.shown ↔ t.kind.scope = u.kind.scope ∧
    t.text = u.text ∧ t.span.start = u.span.start ∧ t.span.stop = u.span.stop := by
  obtain ⟨kind, text, start, stop⟩ := t
  obtain ⟨kind', text', start', stop'⟩ := u
  simp [shown]

/-- **The row of a token shows its scope, its text and its span**, and nothing else. -/
theorem dump_eq_iff {t u : Token} : t.dump = u.dump ↔ t.shown = u.shown := by
  rw [shown_eq_iff]
  constructor
  · intro h
    -- each part is followed by a character that it cannot hold, or ends where its text shows
    have hfront (k : Kind) : ∀ c ∈ k.scope.toList, (c != '(') = true := by
      intro c hc
      rw [bne_iff_ne]
      rintro rfl
      exact k.notMem_scope (by decide) hc
    have hparen (cs : List Char) : ∀ c ∈ ('(' :: cs).head?, (c != '(') = false := by simp
    have hdot (cs : List Char) : ∀ c ∈ ('.' :: cs).head?, c.isDigit = false := by simp
    have hrow := congrArg String.toList h
    rw [toList_dump, toList_dump] at hrow
    obtain ⟨hscope, hquoted⟩ := eq_of_run hrow (hfront t.kind) (hparen _) (hfront u.kind) (hparen _)
    obtain ⟨htext, hspan⟩ := eq_of_quoteChars_append (List.cons.inj hquoted).2
    simp only [List.cons.injEq, true_and] at hspan
    obtain ⟨hstart, hstop⟩ := eq_of_run hspan (isDigit_of_mem_toDigits t.span.start) (hdot _)
      (isDigit_of_mem_toDigits u.span.start) (hdot _)
    simp only [List.cons.injEq, true_and] at hstop
    exact ⟨String.toList_inj.1 hscope, String.toList_inj.1 htext, toDigits_inj hstart,
      toDigits_inj hstop⟩
  · rintro ⟨hscope, htext, hstart, hstop⟩
    rw [dump, dump, hscope, htext, hstart, hstop]

theorem feed_notMem_dump (t : Token) : '\n' ∉ t.dump.toList := by
  have hscope : '\n' ∉ t.kind.scope.toList := t.kind.notMem_scope (by decide)
  simp [toList_dump, hscope, feed_notMem_quoteChars, feed_notMem_toDigits]

theorem head?_dump_ne (t : Token) : t.dump.toList.head? ≠ some '=' := by
  have hscope : '=' ∉ t.kind.scope.toList := t.kind.notMem_scope (by decide)
  rw [toList_dump]
  generalize t.kind.scope.toList = scope at hscope
  cases scope with
  | nil => simp
  | cons c cs =>
    intro hhead
    obtain rfl : c = '=' := Option.some.inj hhead
    exact hscope List.mem_cons_self

end Token

/-! ### The rows of a line -/

/-- The row of a state. -/
def State.row (s : State) : String := "=> " ++ s.name

theorem State.row_inj {s s' : State} (h : s.row = s'.row) : s = s' :=
  name_inj ((String.append_right_inj "=> ").1 h)

namespace ScannedLine

/-- The rows of a line: one for each token, and one for the state after it. -/
def rows (l : ScannedLine) : List String := l.tokens.map Token.dump ++ [l.endState.row]

theorem feed_notMem_of_mem_rows {l : ScannedLine} : ∀ r ∈ l.rows, '\n' ∉ r.toList := by
  intro r hr
  rcases List.mem_append.1 hr with hr | hr
  · obtain ⟨t, -, rfl⟩ := List.mem_map.1 hr
    exact t.feed_notMem_dump
  · obtain rfl := List.mem_singleton.1 hr
    cases l.endState <;> decide

/-- **The rows of a line show it**, and where they end, whatever rows follow. -/
theorem eq_of_rows_append {l l' : ScannedLine} {xs ys : List String}
    (h : l.rows ++ xs = l'.rows ++ ys) : l.shown = l'.shown ∧ xs = ys := by
  have hne (t : Token) (s : State) : t.dump ≠ s.row := by
    intro heq
    refine t.head?_dump_ne ?_
    rw [heq, State.row, String.toList_append]
    rfl
  obtain ⟨ts, s⟩ := l
  obtain ⟨us, s'⟩ := l'
  simp only [rows, List.append_assoc, List.singleton_append] at h
  induction ts generalizing us with
  | nil =>
    cases us with
    | nil =>
      obtain ⟨hstate, hrest⟩ := List.cons.inj h
      obtain rfl := State.row_inj hstate
      exact ⟨rfl, hrest⟩
    | cons u us => exact absurd (List.cons.inj h).1.symm (hne u s)
  | cons t ts ih =>
    cases us with
    | nil => exact absurd (List.cons.inj h).1 (hne t s')
    | cons u us =>
      obtain ⟨hrow, hrows⟩ := List.cons.inj h
      obtain ⟨hshown, hrest⟩ := ih us hrows
      obtain ⟨hts, rfl⟩ := Prod.mk.inj hshown
      refine ⟨?_, hrest⟩
      simp only [shown, List.map_cons, Token.dump_eq_iff.1 hrow, hts]

end ScannedLine

/-! ### The rows of a dump -/

/-- The heading of the line with a number. -/
def heading (number : Nat) : String := "--- line " ++ toString number ++ " ---"

/-- The rows of lines that are numbered from `number` on. -/
def dumpRows (number : Nat) : List ScannedLine → List String
  | [] => []
  | l :: ls => heading number :: (l.rows ++ dumpRows (number + 1) ls)

theorem feed_notMem_heading (number : Nat) : '\n' ∉ (heading number).toList := by
  simp [heading, feed_notMem_toDigits]

theorem eq_of_dumpRows {number : Nat} {ls ls' : List ScannedLine}
    (h : dumpRows number ls = dumpRows number ls') :
    ls.map ScannedLine.shown = ls'.map ScannedLine.shown := by
  induction ls generalizing number ls' with
  | nil =>
    cases ls' with
    | nil => rfl
    | cons l' ls' => simp [dumpRows] at h
  | cons l ls ih =>
    cases ls' with
    | nil => simp [dumpRows] at h
    | cons l' ls' =>
      obtain ⟨hshown, hrest⟩ := ScannedLine.eq_of_rows_append (List.cons.inj h).2
      rw [List.map_cons, List.map_cons, hshown, ih hrest]

theorem splitLineFeeds_dump (l : ScannedLine) :
    splitLineFeeds l.dump.toList = l.rows.map String.toList := by
  have hdump : l.dump = String.intercalate "\n" l.rows := rfl
  have hrows : l.rows.map String.toList ≠ [] := by simp [ScannedLine.rows]
  rw [hdump, String.toList_intercalate]
  change splitLineFeeds (['\n'].intercalate _) = _
  rw [splitLineFeeds_intercalate hrows, List.flatMap_map, ← List.flatMap_pure_eq_map]
  refine List.flatMap_congr ?_
  intro r hr
  exact splitLineFeeds_of_notMem (ScannedLine.feed_notMem_of_mem_rows r hr)

/-- **The rows of a dump are what stands between its line feeds.** -/
theorem splitLineFeeds_dumpText {ls : List ScannedLine} (hne : ls ≠ []) :
    splitLineFeeds (dumpText ls).toList = (dumpRows 1 ls).map String.toList := by
  -- the dump of a line under its heading
  have hblock (number : Nat) (l : ScannedLine) :
      splitLineFeeds ("--- line " ++ toString number ++ " ---\n" ++ l.dump).toList =
        (heading number :: l.rows).map String.toList := by
    have htext : ("--- line " ++ toString number ++ " ---\n" ++ l.dump).toList =
        (heading number).toList ++ '\n' :: l.dump.toList := by
      simp [heading]
    rw [htext, splitLineFeeds_append (feed_notMem_heading number), splitLineFeeds_dump]
    rfl
  have hblocks (number : Nat) (ls : List ScannedLine) :
      ((ls.mapIdx fun i l => "--- line " ++ toString (i + number) ++ " ---\n" ++ l.dump).map
        String.toList).flatMap splitLineFeeds = (dumpRows number ls).map String.toList := by
    induction ls generalizing number with
    | nil => rfl
    | cons l ls ih =>
      rw [List.mapIdx_cons]
      simp only [List.map_cons, List.flatMap_cons, Nat.zero_add, Nat.add_right_comm _ 1 number,
        Nat.add_assoc _ number 1, ih, hblock, dumpRows, List.cons_append, List.map_append]
  rw [dumpText, String.toList_intercalate]
  change splitLineFeeds (['\n'].intercalate _) = _
  rw [splitLineFeeds_intercalate (by simpa using hne), hblocks]

/-- Lines that show the same have the same dump. -/
theorem dump_eq_of_shown_eq {l l' : ScannedLine} (h : l.shown = l'.shown) : l.dump = l'.dump := by
  -- the row of a token is a function of what it shows
  obtain ⟨row, hrow⟩ := (Function.factorsThrough_iff Token.dump).1
    fun _ _ (h : Token.shown _ = Token.shown _) => Token.dump_eq_iff.2 h
  obtain ⟨htokens, hstate⟩ := Prod.mk.inj h
  rw [ScannedLine.dump, ScannedLine.dump, hstate, hrow, ← List.map_map, htokens, List.map_map]

theorem dumpText_eq_of_shown_eq {ls ls' : List ScannedLine}
    (h : ls.map ScannedLine.shown = ls'.map ScannedLine.shown) : dumpText ls = dumpText ls' := by
  obtain ⟨dump, hdump⟩ := (Function.factorsThrough_iff ScannedLine.dump).1
    fun _ _ (h : ScannedLine.shown _ = ScannedLine.shown _) => dump_eq_of_shown_eq h
  have htext (ls : List ScannedLine) : dumpText ls = String.intercalate "\n"
      ((ls.map ScannedLine.shown).mapIdx fun i shown =>
        "--- line " ++ toString (i + 1) ++ " ---\n" ++ dump shown) := by
    rw [dumpText, hdump, List.mapIdx_eq_zipIdx_map, List.mapIdx_eq_zipIdx_map, List.zipIdx_map,
      List.map_map]
    rfl
  rw [htext, htext, h]

theorem dumpText_ne_empty {ls : List ScannedLine} (hne : ls ≠ []) : dumpText ls ≠ "" := by
  intro hempty
  have hrows := splitLineFeeds_dumpText hne
  obtain ⟨l, ls, rfl⟩ := List.exists_cons_of_ne_nil hne
  have hlength := congrArg List.length hrows
  rw [hempty] at hlength
  simp [dumpRows, ScannedLine.rows, splitLineFeeds] at hlength

/-- **Dumps are the same exactly if all that they show is**: as many lines, and line by line the
same state after it and the same scopes, texts and spans of as many tokens.  Scopes tell all kinds
apart but white space and text. -/
theorem dumpText_eq_iff (ls ls' : List ScannedLine) :
    (dumpText ls = dumpText ls' ↔ ls.map ScannedLine.shown = ls'.map ScannedLine.shown) ∧
    ∀ k k' : Kind, k.scope = k'.scope ↔
      k = k' ∨ k ∈ [.whitespace, .text] ∧ k' ∈ [.whitespace, .text] := by
  refine ⟨⟨?_, dumpText_eq_of_shown_eq⟩, fun k k' => Kind.scope_eq_iff⟩
  intro h
  cases ls with
  | nil =>
    cases ls' with
    | nil => rfl
    | cons l' ls' => exact absurd h.symm (dumpText_ne_empty (List.cons_ne_nil l' ls'))
  | cons l ls =>
    cases ls' with
    | nil => exact absurd h (dumpText_ne_empty (List.cons_ne_nil l ls))
    | cons l' ls' =>
      have hrows := splitLineFeeds_dumpText (List.cons_ne_nil l ls)
      rw [h, splitLineFeeds_dumpText (List.cons_ne_nil l' ls')] at hrows
      exact eq_of_dumpRows (List.map_injective_iff.2 (fun _ _ => String.toList_inj.1) hrows.symm)

end LineLexer
