import LineLexer.Proofs.EncryScript.Applied
import LineLexer.Proofs.EncryScript.Total
import LineLexer.Proofs.Scan.Shift
import LineLexer.Proofs.Text.Backslashes

/-!
# Strings

A string goes on to the first quote of its kind with an even number of backslashes in front of it,
whatever escapes stand on the way and whether they are valid (`EncryScript.scanLine_string`).  The
rules of a string take escapes of up to ten characters, but a backslash never lets go of the
character behind it if that is a quote or a backslash; so what they take is within the quotes
(`Within`), and a step leaves something that is within the quotes again
(`exists_application?_within`).
-/

namespace LineLexer

/-- The quote that closes a string, in the states of strings. -/
def State.quote? : State → Option Char
  | .doubleQuotedString => some '"'
  | .quotedString => some '\''
  | _ => none

/-- The kinds of the tokens that a string is made of. -/
def Kind.inString (k : Kind) : Prop := k = .string ∨ k = .escape

namespace EncryScript

open Pattern Grammar

/-! ### The rules of a string -/

/-- The rule of escapes. -/
def escapeRule : Rule := anchored (.single .escape stringEscape) Grammar.escape none

/-- The rule of a backslash at the end of the line. -/
def openEndRule (state : State) : Rule :=
  anchored (.endLine (.goto (.single .string "\\\\$") state)) (.concat [.char '\\', .look .textEnd])
    none

/-- The rule of the closing quote, and of the end of the line. -/
def closingQuoteRule (quote : Char) : Rule :=
  anchored (.goto (.single .string (String.ofList (Pattern.escape [quote]) ++ "|$")) .start)
    (.alt (.char quote) (.look .textEnd)) none

/-- The rule that takes one character as it is. -/
def contentRule : Rule := anchored (.asFallback (.single .string "(?s).")) anyChar none

variable {v : Vocabulary} {state : State} {quote : Char} {u w text tail rest : List Char}

theorem rules_string (hquote : state.quote? = some quote) : (tableOf v).rules state =
    [escapeRule, openEndRule state, closingQuoteRule quote, contentRule] := by
  cases state with
  | start | functionArguments => simp [State.quote?] at hquote
  | doubleQuotedString | quotedString =>
    obtain rfl := Option.some.inj hquote
    rfl

theorem quote_eq_or (hquote : state.quote? = some quote) : quote = '"' ∨ quote = '\'' := by
  cases state with
  | start | functionArguments => simp [State.quote?] at hquote
  | doubleQuotedString => exact .inl (Option.some.inj hquote).symm
  | quotedString => exact .inr (Option.some.inj hquote).symm

theorem quote_ne_backslash (hquote : state.quote? = some quote) : quote ≠ '\\' := by
  rcases quote_eq_or hquote with rfl | rfl <;> decide

theorem utf8Size_quote (hquote : state.quote? = some quote) : quote.utf8Size = 1 := by
  rcases quote_eq_or hquote with rfl | rfl <;> rfl

/-- Behind a backslash a quote makes an escape. -/
theorem isEscape_quote (hquote : state.quote? = some quote) : IsEscape ['\\', quote] := by
  rcases quote_eq_or hquote with rfl | rfl <;> exact .char (by decide)

/-! ### What the rules match -/

theorem isHexDigit_plain {c : Char} (h : isHexDigit c) : c ∉ ['\\', '"', '\''] := by
  intro hc
  simp only [List.mem_cons, List.not_mem_nil, or_false] at hc
  rcases hc with rfl | rfl | rfl <;> exact absurd h (by decide)

/-- An escape is a backslash with a character, and behind them neither quotes nor backslashes. -/
theorem IsEscape.exists_eq (h : IsEscape w) :
    ∃ c ds, w = '\\' :: c :: ds ∧ ∀ d ∈ ds, d ∉ ['\\', '"', '\''] := by
  cases h with
  | hex _ hds => exact ⟨_, _, rfl, fun d hd => isHexDigit_plain (hds d hd)⟩
  | @octal ds hlen hds =>
    obtain ⟨d, ds, rfl⟩ := List.exists_cons_of_length_eq_add_one hlen
    refine ⟨d, ds, rfl, ?_⟩
    intro e he hmem
    obtain ⟨hlo, hhi⟩ := hds e (List.mem_cons_of_mem d he)
    simp only [List.mem_cons, List.not_mem_nil, or_false] at hmem
    rcases hmem with rfl | rfl | rfl
    · exact absurd hhi (by decide)
    · exact absurd hlo (by decide)
    · exact absurd hlo (by decide)
  | char _ => exact ⟨_, [], rfl, by simp⟩
  | wide _ hds => exact ⟨_, _, rfl, fun d hd => isHexDigit_plain (hds d hd)⟩
  | unicode _ hds => exact ⟨_, _, rfl, fun d hd => isHexDigit_plain (hds d hd)⟩

theorem matchAt_escapeRule_eq_none (h : ∀ w after, text = w ++ after → ¬ IsEscape w) :
    escapeRule.matchAt text = none := by
  refine matchAt_eq_none ?_
  intro w after htext hspells
  exact h w after htext (spells_escape.1 hspells)

theorem matchAt_openEndRule (state : State) :
    (openEndRule state).matchAt ['\\'] = some ⟨0, 1, []⟩ := by
  cases state <;> rfl

theorem matchAt_openEndRule_eq_none (h : text ≠ ['\\']) :
    (openEndRule state).matchAt text = none := by
  refine matchAt_eq_none ?_
  intro w after htext hspells
  obtain ⟨_, rfl, rfl, hend⟩ := spells_concat_char_cons.1 hspells
  have hafter : after = [] := by simpa [Look.holds] using hend
  rw [hafter] at htext
  exact h htext

theorem matchAt_closingQuoteRule (quote : Char) (rest : List Char) :
    ∃ m, (closingQuoteRule quote).matchAt (quote :: rest) = some m ∧ m.start = 0 ∧ m.stop = 1 := by
  have hquote : (Pattern.alt (.char quote) (.look .textEnd)).Spells none [quote] rest :=
    .inl (spells_char.2 rfl)
  obtain ⟨u, after, m, htext, hspells, hm, hstart, hstop⟩ := exists_matchAt_of_spells _ hquote
  refine ⟨m, hm, hstart, ?_⟩
  rcases spells_alt.1 hspells with hu | ⟨rfl, hend⟩
  · rw [hstop, spells_char.1 hu, List.length_singleton]
  · -- the text does not end in front of the quote
    rw [List.nil_append] at htext
    simp [← htext, Look.holds] at hend

theorem matchAt_closingQuoteRule_eq_none {c : Char} (hc : c ≠ quote) (cs : List Char) :
    (closingQuoteRule quote).matchAt (c :: cs) = none := by
  refine matchAt_eq_none ?_
  intro w after htext hspells
  rcases spells_alt.1 hspells with hw | ⟨rfl, hend⟩
  · rw [spells_char.1 hw] at htext
    exact hc (List.cons.inj htext).1
  · rw [List.nil_append] at htext
    simp [← htext, Look.holds] at hend

/-! ### Which rule is applied -/

/-- In front of an escape within the quotes the rule of escapes is applied. -/
theorem exists_application?_escape (hquote : state.quote? = some quote) (hw : Within quote w)
    (hne : w ≠ []) (htail : ∀ c ∈ tail.head?, c = quote ∨ c = '\\') {after : List Char}
    (hu : IsEscape u) (htext : w ++ tail = u ++ after) (n : Nat) :
    ∃ u w' m, w = u ++ w' ∧ u ≠ [] ∧ Within quote w' ∧ m.start = 0 ∧ m.stop = u.length ∧
      (tableOf v).application? ⟨state, n, w ++ tail⟩ =
        some ⟨⟨state, n, w ++ tail⟩, escapeRule, m⟩ := by
  have hspells : Grammar.escape.Spells none u after := spells_escape.2 hu
  obtain ⟨u, after, m, htext', hspells', hm, hstart, hstop⟩ :=
    exists_matchAt_of_spells (.single .escape stringEscape) hspells
  rw [← htext] at htext' hm
  have hsplit : (tableOf v).rules state =
      [] ++ escapeRule :: [openEndRule state, closingQuoteRule quote, contentRule] :=
    rules_string hquote
  have happlied := Table.application?_of_front (p := ⟨state, n, w ++ tail⟩) hsplit (by simp) hm
  obtain ⟨c, ds, rfl, hds⟩ := (spells_escape.1 hspells').exists_eq
  cases hw with
  | nil => contradiction
  | plain _ hslash => exact absurd (List.cons.inj htext').1 hslash
  | @pair d cs hcs =>
    obtain ⟨rfl, hrest⟩ := List.cons.inj (List.cons.inj htext').2
    have hplain : ∀ d ∈ ds, d ≠ quote ∧ d ≠ '\\' := by
      intro d hd
      have hd := hds d hd
      simp only [List.mem_cons, List.not_mem_nil, or_false, not_or] at hd
      refine ⟨?_, hd.1⟩
      rcases quote_eq_or hquote with rfl | rfl
      · exact hd.2.1
      · exact hd.2.2
    obtain ⟨w', rfl, hw'⟩ := hcs.exists_append_of_plain htail hplain hrest
    exact ⟨_, w', m, rfl, by simp, hw', hstart, hstop, happlied⟩

/-- Where there is no escape within the quotes, the next character is taken as it is. -/
theorem exists_application?_content (hquote : state.quote? = some quote) (hw : Within quote w)
    (hne : w ≠ []) (hnone : ∀ u after, w ++ tail = u ++ after → ¬ IsEscape u) (n : Nat) :
    ∃ c w', w = c :: w' ∧ Within quote w' ∧ (tableOf v).application? ⟨state, n, w ++ tail⟩ =
      some ⟨⟨state, n, w ++ tail⟩, contentRule, ⟨0, 1, []⟩⟩ := by
  -- the character is not the quote, and it is no backslash at the end of the line
  obtain ⟨c, w', rfl, hc, hlone, hw'⟩ : ∃ c w', w = c :: w' ∧ c ≠ quote ∧
      c :: w' ++ tail ≠ ['\\'] ∧ Within quote w' := by
    cases hw with
    | nil => contradiction
    | @plain c cs hc hslash hcs => exact ⟨c, cs, rfl, hc, by simp [hslash], hcs⟩
    | @pair c cs hcs =>
      refine ⟨'\\', c :: cs, rfl, (quote_ne_backslash hquote).symm, by simp, .plain ?_ ?_ hcs⟩
      · rintro rfl
        exact hnone ['\\', c] (cs ++ tail) rfl (isEscape_quote hquote)
      · rintro rfl
        exact hnone ['\\', '\\'] (cs ++ tail) rfl (.char (by decide))
  have hsplit : (tableOf v).rules state =
      [escapeRule, openEndRule state, closingQuoteRule quote] ++ contentRule :: [] :=
    rules_string hquote
  refine ⟨c, w', rfl, hw', Table.application?_of_front hsplit ?_ (matchAt_anyChar c _)⟩
  simp only [List.forall_mem_cons, List.not_mem_nil, false_implies, implies_true, and_true]
  exact ⟨matchAt_escapeRule_eq_none hnone, matchAt_openEndRule_eq_none hlone,
    matchAt_closingQuoteRule_eq_none hc _⟩

/-- **A step within the quotes** takes an escape or one character as it is, and what it leaves is
within the quotes. -/
theorem exists_application?_within (hquote : state.quote? = some quote) (hw : Within quote w)
    (hne : w ≠ []) (htail : ∀ c ∈ tail.head?, c = quote ∨ c = '\\') (n : Nat) :
    ∃ u w' r m, w = u ++ w' ∧ u ≠ [] ∧ Within quote w' ∧ (r = escapeRule ∨ r = contentRule) ∧
      m.start = 0 ∧ m.stop = u.length ∧
      (tableOf v).application? ⟨state, n, w ++ tail⟩ = some ⟨⟨state, n, w ++ tail⟩, r, m⟩ := by
  by_cases hescape : ∃ u after, w ++ tail = u ++ after ∧ IsEscape u
  · obtain ⟨u, after, htext, hu⟩ := hescape
    obtain ⟨u, w', m, hsplit, hne', hw', hstart, hstop, happlied⟩ :=
      exists_application?_escape (v := v) hquote hw hne htail hu htext n
    exact ⟨u, w', _, m, hsplit, hne', hw', .inl rfl, hstart, hstop, happlied⟩
  · have hnone : ∀ u after, w ++ tail = u ++ after → ¬ IsEscape u :=
      fun u after htext hu => hescape ⟨u, after, htext, hu⟩
    obtain ⟨c, w', hsplit, hw', happlied⟩ :=
      exists_application?_content (v := v) hquote hw hne hnone n
    exact ⟨[c], w', _, _, hsplit, List.cons_ne_nil c [], hw', .inr rfl, rfl, rfl, happlied⟩

/-! ### What is yielded -/

/-- **What is within the quotes is string and escapes**, whatever comes behind it. -/
theorem exists_yields_within {qs : List Piece} {endState : State}
    (hquote : state.quote? = some quote) (hw : Within quote w)
    (htail : ∀ c ∈ tail.head?, c = quote ∨ c = '\\') {n : Nat}
    (hafter : (tableOf v).Yields 0 ⟨state, n + byteSize w, tail⟩ qs endState) :
    ∃ ps, Piece.Tile n w ps ∧ (∀ p ∈ ps, p.kind.inString) ∧
      (tableOf v).Yields 0 ⟨state, n, w ++ tail⟩ (ps ++ qs) endState := by
  generalize hlen : w.length = k
  induction k using Nat.strongRecOn generalizing w n with
  | ind k ih =>
    by_cases hne : w = []
    · subst hne
      exact ⟨[], .nil n, by simp, hafter⟩
    obtain ⟨u, w', r, m, rfl, hu, hw', hr, hstart, hstop, happlied⟩ :=
      exists_application?_within (v := v) hquote hw hne htail n
    have hlt : w'.length < k := by
      have := List.length_pos_iff.2 hu
      rw [List.length_append] at hlen
      omega
    rw [byteSize_append, ← Nat.add_assoc] at hafter
    obtain ⟨ps, htile, hkinds, hyields⟩ := ih _ hlt hw' hafter rfl
    obtain ⟨kind, hkind, hclass, hends, hnext⟩ : ∃ kind : Kind, kind.inString ∧
        r.text.classification = .single kind ∧ r.text.endsLine = false ∧ r.text.next = none := by
      rcases hr with rfl | rfl
      · exact ⟨.escape, .inr rfl, rfl, rfl, rfl⟩
      · exact ⟨.string, .inl rfl, rfl, rfl, rfl⟩
    have htile' : Piece.Tile n (u ++ w') (⟨kind, u, n, true⟩ :: ps) :=
      .cons (p := ⟨kind, u, n, true⟩) rfl htile
    refine ⟨_, htile', List.forall_mem_cons.2 ⟨hkind, hkinds⟩, ?_⟩
    rw [List.append_assoc] at happlied ⊢
    refine .step_single happlied hclass hends hstart hstop hu ?_
    rw [hnext]
    exact hyields

/-- The closing quote leads out of the string. -/
theorem yields_quote (hquote : state.quote? = some quote) {qs : List Piece} {endState : State}
    {n : Nat} (hafter : (tableOf v).Yields 0 ⟨.start, n + 1, rest⟩ qs endState) :
    (tableOf v).Yields 0 ⟨state, n, quote :: rest⟩ (⟨.string, [quote], n, true⟩ :: qs)
      endState := by
  obtain ⟨m, hm, hstart, hstop⟩ := matchAt_closingQuoteRule quote rest
  have hsplit : (tableOf v).rules state =
      [escapeRule, openEndRule state] ++ closingQuoteRule quote :: [contentRule] :=
    rules_string hquote
  have hnone : ∀ w after, quote :: rest = w ++ after → ¬ IsEscape w := by
    rintro w after htext hw
    obtain ⟨c, ds, rfl, -⟩ := hw.exists_eq
    exact quote_ne_backslash hquote (List.cons.inj htext).1
  have hlone : quote :: rest ≠ ['\\'] := by simp [quote_ne_backslash hquote]
  have happlied := Table.application?_of_front (p := ⟨state, n, quote :: rest⟩) hsplit
    (by simp [matchAt_escapeRule_eq_none hnone, matchAt_openEndRule_eq_none hlone]) hm
  have hone : byteSize [quote] = 1 := by simp [utf8Size_quote hquote]
  refine Table.Yields.step_single (w := [quote]) happlied rfl rfl hstart hstop
    (List.cons_ne_nil quote []) ?_
  rwa [hone]

/-- At the end of the line a string ends. -/
theorem yields_string_end (hquote : state.quote? = some quote) (n : Nat) :
    (tableOf v).Yields 0 ⟨state, n, []⟩ [] .start := by
  have hsplit : (tableOf v).rules state =
      [escapeRule, openEndRule state] ++ closingQuoteRule quote :: [contentRule] :=
    rules_string hquote
  have hlone : (openEndRule state).matchAt [] = none := matchAt_openEndRule_eq_none (by simp)
  have hfront : ∀ r ∈ [escapeRule, openEndRule state], r.matchAt [] = none :=
    List.forall_mem_cons.2 ⟨rfl, List.forall_mem_singleton.2 hlone⟩
  have hm : (closingQuoteRule quote).matchAt [] = some ⟨0, 0, []⟩ := by
    rcases quote_eq_or hquote with rfl | rfl <;> rfl
  exact Table.Yields.last (Table.application?_of_front (p := ⟨state, n, []⟩) hsplit hfront hm)
    rfl rfl

/-- A backslash at the end of the line keeps the string open. -/
theorem yields_backslash_end (hquote : state.quote? = some quote) (n : Nat) :
    (tableOf v).Yields 0 ⟨state, n, ['\\']⟩ [⟨.string, ['\\'], n, true⟩] state := by
  have hsplit : (tableOf v).rules state =
      [escapeRule] ++ openEndRule state :: [closingQuoteRule quote, contentRule] :=
    rules_string hquote
  have hfront : ∀ r ∈ [escapeRule], r.matchAt ['\\'] = none :=
    List.forall_mem_singleton.2 rfl
  exact Table.Yields.last (Table.application?_of_front (p := ⟨state, n, ['\\']⟩) hsplit hfront
    (matchAt_openEndRule state)) rfl rfl

/-! ### Lines that begin in a string -/

/-- **A string that is closed**: the bytes up to the closing quote are string and escapes, and what
comes behind it is scanned as it is at the start of a line. -/
theorem exists_scanLine_closed {line : String} {front : List Char}
    (hquote : state.quote? = some quote) (hclosed : ClosedBy quote line.toList front rest) :
    ∃ l l', (tableOf v).scanLine line state = .ok l ∧
      (tableOf v).scanLine (String.ofList rest) .start = .ok l' ∧ l.endState = l'.endState ∧
      (∀ n ≤ byteSize front, ∃ k, l.kindAt? n = some k ∧ k.inString) ∧
      (∀ token ∈ l.tokens, token.span.start ≤ byteSize front → token.kind.inString) ∧
      ∀ n, l.kindAt? (byteSize front + 1 + n) = l'.kindAt? n := by
  obtain ⟨hline, hfront⟩ := (closedBy_iff (quote_ne_backslash hquote)).1 hclosed
  -- what is behind the quote, at the start of a line and where it stands
  obtain ⟨qs, endState, hrest⟩ := (total_tableOf v).exists_yields ⟨.start, 0, rest⟩
  have hshift := hrest.shift (byteSize front + 1)
  have hbehind := yields_quote hquote hshift
  have htail : ∀ c ∈ (quote :: rest).head?, c = quote ∨ c = '\\' := by simp
  rw [← Nat.zero_add (byteSize front)] at hbehind
  obtain ⟨ps, htile, hkinds, hyields⟩ := exists_yields_within hquote hfront htail hbehind
  have hscan' : (tableOf v).scanLine (String.ofList rest) .start =
      .ok ⟨Token.ofPieces qs, endState⟩ := Table.Yields.scanLine_eq (by rwa [String.toList_ofList])
  -- the closing quote is the last piece of the string
  rw [← hline, List.append_cons, Nat.zero_add] at hyields
  have htile' : Piece.Tile 0 (front ++ [quote])
      (ps ++ [⟨.string, [quote], byteSize front, true⟩]) :=
    htile.append (.cons (p := ⟨.string, [quote], byteSize front, true⟩) (Nat.zero_add _).symm
      (.nil _))
  have hkinds' : ∀ p ∈ ps ++ [⟨.string, [quote], byteSize front, true⟩], p.kind.inString :=
    List.forall_mem_append.2 ⟨hkinds, List.forall_mem_singleton.2 (.inl rfl)⟩
  have hsize : byteSize (front ++ [quote]) = byteSize front + 1 := by
    simp [utf8Size_quote hquote]
  refine ⟨_, _, hyields.scanLine_eq, hscan', rfl, ?_, ?_, ?_⟩
  · intro n hn
    obtain ⟨p, hp, hkind⟩ := htile'.exists_kindAt? (Nat.zero_le n) (by omega)
    refine ⟨p.kind, ?_, hkinds' p hp⟩
    rw [ScannedLine.kindAt?_ofPieces, Piece.kindAt?_append, hkind, Option.some_or]
  · intro token htoken hstart
    obtain ⟨p, hp, hkind, hfirst⟩ := Token.exists_first_of_mem_ofPieces htoken
    rw [hkind]
    rcases List.mem_append.1 hp with hp | hp
    · exact hkinds' p hp
    · -- a piece behind the quote begins behind it
      obtain ⟨q, -, rfl⟩ := List.mem_map.1 hp
      have hshifted : (q.shift (byteSize front + 1)).start = byteSize front + 1 + q.start := rfl
      rw [hfirst, hshifted] at hstart
      omega
  · intro n
    rw [ScannedLine.kindAt?_ofPieces, ScannedLine.kindAt?_ofPieces, Piece.kindAt?_append,
      htile'.kindAt?_eq_none (by omega), Option.none_or, Piece.kindAt?_shift]

/-- **A string that is not closed** goes on to the end of the line, and beyond it if a backslash
there has no other one in front of it that takes it along. -/
theorem exists_scanLine_not_closed {line : String} (hquote : state.quote? = some quote)
    (hopen : ∀ front rest, ¬ ClosedBy quote line.toList front rest) :
    ∃ l, (tableOf v).scanLine line state = .ok l ∧ (∀ token ∈ l.tokens, token.kind.inString) ∧
      l.endState = if Even (finalBackslashes line.toList) then .start else state := by
  have htokens {ps : List Piece} (hkinds : ∀ p ∈ ps, p.kind.inString) :
      ∀ token ∈ Token.ofPieces ps, token.kind.inString := by
    intro token htoken
    obtain ⟨p, hp, hkind, -⟩ := Token.exists_first_of_mem_ofPieces htoken
    rw [hkind]
    exact hkinds p hp
  obtain ⟨w, hw, ⟨hline, heven⟩ | ⟨hline, hodd⟩⟩ :=
    exists_within_of_not_closedBy (quote_ne_backslash hquote) hopen
  · have htail : ∀ c ∈ ([] : List Char).head?, c = quote ∨ c = '\\' := by simp
    obtain ⟨ps, -, hkinds, hyields⟩ := exists_yields_within hquote hw htail
      (yields_string_end (v := v) hquote (0 + byteSize w))
    rw [List.append_nil, List.append_nil, ← hline] at hyields
    exact ⟨_, hyields.scanLine_eq, htokens hkinds, by rw [if_pos heven]⟩
  · have htail : ∀ c ∈ ['\\'].head?, c = quote ∨ c = '\\' := by simp
    obtain ⟨ps, -, hkinds, hyields⟩ := exists_yields_within hquote hw htail
      (yields_backslash_end (v := v) hquote (0 + byteSize w))
    rw [← hline] at hyields
    refine ⟨_, hyields.scanLine_eq, htokens ?_, by rw [if_neg hodd]⟩
    exact List.forall_mem_append.2 ⟨hkinds, List.forall_mem_singleton.2 (.inl rfl)⟩

/-- **Lines that begin in a string**, over a valid vocabulary.  If a quote closes the string, the
bytes up to it are string and escapes, and each byte behind it has the kind that it has where the
rest of the line is scanned by itself from the start.  If none does, all tokens are string and
escapes, and the string goes on exactly if the line ends in an odd number of backslashes. -/
theorem scanLine_string {v : Vocabulary} (hv : v.Valid) :
    ∃ t, table v = .ok t ∧ ∀ state quote, state.quote? = some quote → ∀ line : String,
      (∀ front rest, ClosedBy quote line.toList front rest →
        ∃ l l', t.scanLine line state = .ok l ∧
          t.scanLine (String.ofList rest) .start = .ok l' ∧ l.endState = l'.endState ∧
          (∀ n ≤ byteSize front, ∃ k, l.kindAt? n = some k ∧ k.inString) ∧
          (∀ token ∈ l.tokens, token.span.start ≤ byteSize front → token.kind.inString) ∧
          ∀ n, l.kindAt? (byteSize front + 1 + n) = l'.kindAt? n) ∧
      ((∀ front rest, ¬ ClosedBy quote line.toList front rest) →
        ∃ l, t.scanLine line state = .ok l ∧ (∀ token ∈ l.tokens, token.kind.inString) ∧
          l.endState = if Even (finalBackslashes line.toList) then .start else state) := by
  refine ⟨tableOf v, table_eq hv, ?_⟩
  intro state quote hquote line
  exact ⟨fun _ _ hclosed => exists_scanLine_closed hquote hclosed,
    fun hopen => exists_scanLine_not_closed hquote hopen⟩

/-- In the first line the second quote closes the string; the second line ends in a backslash. -/
theorem scanLine_string_builtin : Vocabulary.builtin.Valid ∧
    ClosedBy '"' "a\\\"b\" let x".toList "a\\\"b".toList " let x".toList ∧
    (∀ front rest, ¬ ClosedBy '\'' "don\\'t\\".toList front rest) ∧
    ∃ t, table .builtin = .ok t ∧
      (∃ l l', t.scanLine "a\\\"b\" let x" .doubleQuotedString = .ok l ∧
        t.scanLine " let x" .start = .ok l' ∧ l.endState = l'.endState ∧
        ∀ n, l.kindAt? (5 + n) = l'.kindAt? n) ∧
      ∃ l, t.scanLine "don\\'t\\" .quotedString = .ok l ∧
        (∀ token ∈ l.tokens, token.kind.inString) ∧ l.endState = .quotedString := by
  have hclosed : ClosedBy '"' "a\\\"b\" let x".toList "a\\\"b".toList " let x".toList := by
    refine (closedBy_iff (by decide)).2 ⟨by decide, ?_⟩
    exact .plain (by decide) (by decide) (.pair (.plain (by decide) (by decide) .nil))
  have hopen : ∀ front rest, ¬ ClosedBy '\'' "don\\'t\\".toList front rest := by
    rintro front rest ⟨htext, heven, -⟩
    have hwithin : Within '\'' "don\\'t".toList :=
      .plain (by decide) (by decide) (.plain (by decide) (by decide)
        (.plain (by decide) (by decide) (.pair (.plain (by decide) (by decide) .nil))))
    have hsplit : "don\\'t\\".toList = "don\\'t".toList ++ ['\\'] := by decide
    obtain ⟨u, -, hu⟩ := hwithin.exists_append (by decide) (hsplit.symm.trans htext) heven
    have hmem : '\'' ∈ ['\\'] := by simp [hu]
    simp at hmem
  obtain ⟨t, ht, hscan⟩ := scanLine_string Vocabulary.valid_builtin
  obtain ⟨l, l', hl, hl', hend, -, -, hbehind⟩ :=
    (hscan .doubleQuotedString '"' rfl _).1 _ _ hclosed
  obtain ⟨m, hm, htokens, hstate⟩ := (hscan .quotedString '\'' rfl _).2 hopen
  refine ⟨Vocabulary.valid_builtin, hclosed, hopen, t, ht, ⟨l, l', hl, ?_, hend, hbehind⟩, m, hm,
    htokens, ?_⟩
  · exact hl'
  · rw [hstate]
    decide

end EncryScript

end LineLexer
