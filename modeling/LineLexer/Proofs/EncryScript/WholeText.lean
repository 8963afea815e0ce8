import LineLexer.Proofs.EncryScript.Editing
import LineLexer.Proofs.Scan.Lines

/-!
# Documents and scans of a whole text

A text can be classified as a document and as a whole.  Both give the same lines with the same
tokens and states, the document one line more where the text ends no line, unless a carriage
return ends the text (`EncryScript.scannedLines_eq_scanText_iff`): a document drops it, and a
scan of the whole text takes it as part of the last line.
-/

namespace LineLexer

theorem Document.scannedLines_of_ofText {t : Table} {d : Document} {text : String}
    (h : ofText t text = .ok d) : ∃ ls, d.scannedLines t = .ok ls ∧
      t.scanLines .initial ((bufferLines text.toList).map String.ofList) = .ok ls := by
  obtain ⟨htexts, hch⟩ := ofText_eq_ok_iff.1 h
  obtain ⟨ls, hls, -, hscanned, -⟩ := (agrees_of_chained hch).scanned
  rw [htexts] at hls
  exact ⟨ls, hscanned, hls⟩

namespace EncryScript

open ScannedLine (stateAfter)

theorem exists_ofText_eq_ok (v : Vocabulary) (text : String) :
    ∃ d, Document.ofText (tableOf v) text = .ok d := by
  obtain ⟨lines, hlines⟩ := Table.exists_documentLines_eq_ok (exists_endState_eq_ok v) .initial
    ((bufferLines text.toList).map String.ofList)
  exact ⟨⟨lines⟩, Document.ofText_eq_ok_iff.2 (Table.documentLines_eq_ok_iff.1 hlines)⟩

theorem exists_scanText_eq_ok (v : Vocabulary) (text : String) (state : State) :
    ∃ ls, (tableOf v).scanText text state = .ok ls := by
  refine Table.exists_scanLines_eq_ok ?_ state _
  intro line state
  obtain ⟨l, hl, -⟩ := (total_tableOf v).exists_scanLine_eq_ok line state
  exact ⟨l, hl⟩

/-- The results for a text have the texts of its lines. -/
theorem map_text_of_scanText {v : Vocabulary} {text : String} {state : State}
    {ls : List ScannedLine} (h : (tableOf v).scanText text state = .ok ls) :
    ls.map (·.text) = lines text := by
  refine Table.map_text_of_scanLines ?_ h
  intro line state l hl
  obtain ⟨l', hl', -, htext⟩ := (total_tableOf v).exists_scanLine_eq_ok line state
  obtain rfl := Except.ok.inj (hl.symm.trans hl')
  exact htext

/-- A line is classified as another one where it has a carriage return more. -/
theorem scanLine_return_ne {v : Vocabulary} {line : String} {state : State} {x y : ScannedLine}
    (hx : (tableOf v).scanLine line state = .ok x)
    (hy : (tableOf v).scanLine (line ++ "\r") state = .ok y) : x ≠ y := by
  rintro rfl
  obtain ⟨x', hx', -, hxtext⟩ := (total_tableOf v).exists_scanLine_eq_ok line state
  obtain ⟨y', hy', -, hytext⟩ := (total_tableOf v).exists_scanLine_eq_ok (line ++ "\r") state
  obtain rfl := Except.ok.inj (hx'.symm.trans hx)
  obtain rfl := Except.ok.inj (hy'.symm.trans hy)
  have hlen := congrArg String.length (hxtext.symm.trans hytext)
  rw [String.length_append] at hlen
  have hone : String.length "\r" = 1 := rfl
  omega

/-- **A document and a scan of the whole text agree** exactly if no carriage return ends the
text; the document has one line more if the text is empty or a line feed ends it.  Where a
carriage return ends the text, only the last lines differ, by that character. -/
theorem scannedLines_eq_scanText_iff {v : Vocabulary} (hv : v.Valid) :
    ∃ t, table v = .ok t ∧ ∀ text : String, ∃ d ls ws final,
      Document.ofText t text = .ok d ∧ d.scannedLines t = .ok ls ∧
      t.scanText text .initial = .ok ws ∧ t.scanLine "" (stateAfter .initial ws) = .ok final ∧
      (ls = (if text.toList = [] ∨ text.toList.getLast? = some '\n' then ws ++ [final] else ws) ↔
        text.toList.getLast? ≠ some '\r') ∧
      (text.toList.getLast? = some '\r' → ∃ front line x y,
        ls = front ++ [x] ∧ ws = front ++ [y] ∧
        t.scanLine line (stateAfter .initial front) = .ok x ∧
        t.scanLine (line ++ "\r") (stateAfter .initial front) = .ok y) := by
  refine ⟨tableOf v, table_eq hv, ?_⟩
  intro text
  obtain ⟨d, hd⟩ := exists_ofText_eq_ok v text
  obtain ⟨ls, hls, hbuffer⟩ := Document.scannedLines_of_ofText hd
  obtain ⟨ws, hws⟩ := exists_scanText_eq_ok v text .initial
  obtain ⟨final, hfinal, -⟩ :=
    (total_tableOf v).exists_scanLine_eq_ok "" (stateAfter .initial ws)
  refine ⟨d, ls, ws, final, hd, hls, hws, hfinal, ⟨?_, ?_⟩, ?_⟩
  · intro heq hreturn
    obtain ⟨front, line, x, y, rfl, rfl, hx, hy⟩ :=
      Table.exists_scanLines_of_return hreturn hbuffer hws
    have hends : ¬ (text.toList = [] ∨ text.toList.getLast? = some '\n') := by
      rintro (hnil | hfeed)
      · simp [hnil] at hreturn
      · simp [hfeed] at hreturn
    rw [if_neg hends, List.append_cancel_left_eq] at heq
    exact scanLine_return_ne hx hy (List.cons.inj heq).1
  · intro hreturn
    exact Table.scanLines_bufferLines_eq hreturn hbuffer hws hfinal
  · intro hreturn
    exact Table.exists_scanLines_of_return hreturn hbuffer hws

theorem scannedLines_eq_scanText_builtin : Vocabulary.builtin.Valid ∧
    ∃ t, table .builtin = .ok t ∧ ∀ text : String, text.toList ≠ [] →
      text.toList.getLast? ≠ some '\n' → text.toList.getLast? ≠ some '\r' →
      ∃ d ls, Document.ofText t text = .ok d ∧ d.scannedLines t = .ok ls ∧
        t.scanText text .initial = .ok ls := by
  obtain ⟨t, ht, htext⟩ := scannedLines_eq_scanText_iff Vocabulary.valid_builtin
  refine ⟨Vocabulary.valid_builtin, t, ht, ?_⟩
  intro text hne hfeed hreturn
  obtain ⟨d, ls, ws, final, hd, hls, hws, -, hsame, -⟩ := htext text
  have heq := hsame.2 hreturn
  rw [if_neg (not_or.2 ⟨hne, hfeed⟩)] at heq
  exact ⟨d, ls, hd, hls, heq ▸ hws⟩

/-- After a quote and a backslash, the carriage return decides whether the string is open. -/
theorem scannedLines_ne_scanText_return : ∃ t d ls ws, table .builtin = .ok t ∧
    Document.ofText t "\"\\\r" = .ok d ∧ d.scannedLines t = .ok ls ∧
    t.scanText "\"\\\r" .initial = .ok ws ∧ ls ≠ ws ∧
    ls.map (·.endState) = [.doubleQuotedString] ∧ ws.map (·.endState) = [.start] := by
  refine ⟨tableOf .builtin, ⟨[⟨"\"\\", .doubleQuotedString⟩]⟩,
    [⟨[⟨.string, "\"\\", ⟨0, 2⟩⟩], .doubleQuotedString⟩],
    [⟨[⟨.string, "\"\\\r", ⟨0, 3⟩⟩], .start⟩], table_eq Vocabulary.valid_builtin, ?_⟩
  decide +kernel

/-! ### Texts in chunks -/

/-- The results for a text have the lines of the text as their texts. -/
theorem isLines_of_scanText {v : Vocabulary} {text : String} {state : State}
    {ls : List ScannedLine} (h : (tableOf v).scanText text state = .ok ls) :
    IsLines text.toList (ls.map (·.text.toList)) := by
  rw [isLines_iff]
  have htexts := congrArg (List.map String.toList) (map_text_of_scanText h)
  simpa [lines, Function.comp_def] using htexts

/-- **A text is scanned in chunks** as it is in one, if each chunk but the last is empty or ends a
line and each begins in the state that the one before it ended in; this holds of every table, and
of scans that fail as well.  Over a valid vocabulary the results are those of the lines of the text,
one for each. -/
theorem scanText_chunks :
    (∀ (t : Table) (state : State) (front back : String),
      (front = "" ∨ ∃ s, front = s ++ "\n") →
      t.scanText (front ++ back) state = do
        let xs ← t.scanText front state
        let ys ← t.scanText back ((xs.getLast?.map (·.endState)).getD state)
        return xs ++ ys) ∧
    ∀ v : Vocabulary, v.Valid → ∃ t, table v = .ok t ∧ ∀ text state, ∃ ls,
      t.scanText text state = .ok ls ∧ IsLines text.toList (ls.map (·.text.toList)) := by
  constructor
  · intro t state front back hends
    simpa only [ScannedLine.stateAfter_eq] using t.scanText_append state hends back
  · intro v hv
    refine ⟨tableOf v, table_eq hv, ?_⟩
    intro text state
    obtain ⟨ls, hls⟩ := exists_scanText_eq_ok v text state
    exact ⟨ls, hls, isLines_of_scanText hls⟩

/-- A string that is left open in one chunk is closed in the next one. -/
theorem scanText_chunks_openString : Vocabulary.builtin.Valid ∧ ∃ t xs ys,
    table .builtin = .ok t ∧ t.scanText "\"a\\\r\n" .start = .ok xs ∧
    xs.map (·.endState) = [.doubleQuotedString] ∧
    t.scanText "b\" 1\r\n\rx" .doubleQuotedString = .ok ys ∧
    t.scanText ("\"a\\\r\n" ++ "b\" 1\r\n\rx") .start = .ok (xs ++ ys) ∧
    (xs ++ ys).map (·.text.toList) = [['"', 'a', '\\'], ['b', '"', ' ', '1'], ['\r', 'x']] := by
  obtain ⟨happend, hlines⟩ := scanText_chunks
  obtain ⟨t, ht, htext⟩ := hlines .builtin Vocabulary.valid_builtin
  obtain rfl : tableOf .builtin = t :=
    Except.ok.inj ((table_eq Vocabulary.valid_builtin).symm.trans ht)
  obtain ⟨ys, hys, -⟩ := htext "b\" 1\r\n\rx" .doubleQuotedString
  have hxs : (tableOf .builtin).scanText "\"a\\\r\n" .start =
      .ok [⟨[⟨.string, "\"a\\", ⟨0, 3⟩⟩], .doubleQuotedString⟩] := by
    decide +kernel
  have hends : "\"a\\\r\n" = "" ∨ ∃ s, "\"a\\\r\n" = s ++ "\n" := .inr ⟨"\"a\\\r", by decide⟩
  have hall : (tableOf .builtin).scanText ("\"a\\\r\n" ++ "b\" 1\r\n\rx") .start =
      .ok ([⟨[⟨.string, "\"a\\", ⟨0, 3⟩⟩], .doubleQuotedString⟩] ++ ys) := by
    rw [happend _ _ _ _ hends, hxs]
    exact Outcome.bind_eq_ok_iff.2 ⟨_, rfl, Outcome.bind_eq_ok_iff.2 ⟨ys, hys, rfl⟩⟩
  refine ⟨Vocabulary.valid_builtin, _, _, ys, ht, hxs, rfl, hys, hall, ?_⟩
  obtain ⟨ls, hls, hlines⟩ := htext ("\"a\\\r\n" ++ "b\" 1\r\n\rx") .start
  obtain rfl := Except.ok.inj (hls.symm.trans hall)
  rw [isLines_iff.1 hlines]
  decide +kernel

end EncryScript

end LineLexer
