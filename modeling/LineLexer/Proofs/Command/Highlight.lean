import LineLexer.Command.Run
import LineLexer.Proofs.EncryScript.WholeText
import LineLexer.Proofs.Style
import LineLexer.Proofs.Vocabulary.Json

/-!
# Highlighting loses nothing

`highlight` prints every line of a file painted, and a line feed after it.  Without colors this is
the text of the lines, and with colors it is so again once the sequences are deleted that set the
colors (`EncryScript.run_highlight`).  The table is set up whenever the words that the arguments
ask for are accepted (`Invocation.table_of_usesWords`), and then no line fails.
-/

namespace LineLexer

/-! ### The words of a run -/

namespace Invocation

/-- The words that an invocation asks for are accepted: those that its vocabulary file writes, or
the built-in ones. -/
def UsesWords (files : Files) (i : Invocation) (v : Vocabulary) : Prop :=
  match i.vocabulary with
  | none => v = .builtin
  | some path => Vocabulary.ofFile files path = .ok v

variable {files : Files} {i : Invocation} {v : Vocabulary}

/-- **The table over the words is set up.** -/
theorem table_of_usesWords (h : i.UsesWords files v) :
    i.table files = .ok (EncryScript.tableOf v) := by
  rw [UsesWords] at h
  rw [table]
  cases hi : i.vocabulary with
  | none =>
    simp only [hi] at h ⊢
    rw [h, EncryScript.builtinTable, EncryScript.table_eq Vocabulary.valid_builtin]
    rfl
  | some path =>
    simp only [hi] at h ⊢
    rw [h]
    simp only [EncryScript.table_eq (Vocabulary.valid_of_ofFile h)]
    rfl

end Invocation

/-! ### What is printed -/

/-- The lines with a line feed after each. -/
def terminated (lines : List String) : String := String.join (lines.map (· ++ "\n"))

theorem highlightText_eq (colors : Bool) (ls : List ScannedLine) :
    highlightText colors false ls = terminated (ls.map (·.paint colors)) := by
  have hmap : ls.mapIdx (fun _ l => l.paint colors ++ "\n") =
      (ls.map (·.paint colors)).map (· ++ "\n") := by
    rw [List.map_map]
    induction ls with
    | nil => rfl
    | cons l ls ih => rw [List.mapIdx_cons, ih, List.map_cons, Function.comp_apply]
  rw [terminated, ← hmap]
  simp [highlightText]

/-- **Painted lines without their sequences are the texts of the lines.** -/
theorem unstyled_terminated (colors : Bool) {ls : List ScannedLine}
    (h : ∀ l ∈ ls, '\x1b' ∉ l.text.toList) :
    Style.unstyled (terminated (ls.map (·.paint colors))).toList =
      (terminated (ls.map (·.text))).toList := by
  induction ls with
  | nil => simp [terminated, Style.unstyled]
  | cons l ls ih =>
    obtain ⟨hl, hls⟩ := List.forall_mem_cons.1 h
    have hfeed (rest : List Char) : Style.unstyled ('\n' :: rest) = '\n' :: Style.unstyled rest :=
      Style.unstyled_cons_of_ne (by decide)
    have hrest := ih hls
    simp only [terminated, List.map_cons, String.join_cons, String.toList_append,
      List.append_assoc] at hrest ⊢
    rw [l.unstyled_paint colors hl]
    simp only [show "\n".toList = ['\n'] from rfl, List.singleton_append, hfeed, hrest]

namespace EncryScript

variable {files : Files} {args : List String} {i : Invocation} {v : Vocabulary}
  {path source : String}

/-- The lines of a source file are all classified and printed. -/
theorem exists_run_highlight (hargs : readArguments args = .ok i)
    (htask : i.task = .highlight path false) (hwords : i.UsesWords files v)
    (hsource : files path = .ok source) : ∃ ls : List ScannedLine,
      ls.map (·.text) = lines source ∧ ∀ input colors, run files input colors args =
        { code := 0, stdout := terminated (ls.map (·.paint colors)) } := by
  obtain ⟨ls, hls⟩ := exists_scanText_eq_ok v source i.state
  refine ⟨ls, map_text_of_scanText hls, ?_⟩
  intro input colors
  have hfile : scanFile files (tableOf v) i.state path = .ok ls := by
    simp [scanFile, hsource, hls, Except.mapError]
  rw [run, hargs]
  simp only [Invocation.run, i.table_of_usesWords hwords, htask, hfile, Except.map,
    highlightText_eq]

/-- **Highlighting loses nothing.**  For every file, state and accepted vocabulary `highlight` ends
well; what it prints without colors is the lines of the file, each with a line feed after it, and
what it prints in colors is that, too, without the sequences that set the colors, if the file has
no escape characters. -/
theorem run_highlight (hargs : readArguments args = .ok i)
    (htask : i.task = .highlight path false) (hwords : i.UsesWords files v)
    (hsource : files path = .ok source) (input : List (Except FileFault String)) :
    (∀ colors, (run files input colors args).code = 0) ∧
      (run files input false args).stdout = terminated (lines source) ∧
      ('\x1b' ∉ source.toList →
        Style.unstyled (run files input true args).stdout.toList =
          (terminated (lines source)).toList) := by
  obtain ⟨ls, htexts, hrun⟩ := exists_run_highlight hargs htask hwords hsource
  refine ⟨?_, ?_, ?_⟩
  · intro colors
    rw [hrun]
  · simp only [hrun, ScannedLine.paint_false, htexts]
  · intro hescape
    have hlines : ∀ l ∈ ls, '\x1b' ∉ l.text.toList := by
      intro l hl hmem
      have hline : l.text ∈ lines source := htexts ▸ List.mem_map_of_mem hl
      obtain ⟨line, hline, hline'⟩ := List.mem_map.1 hline
      rw [← hline', String.toList_ofList] at hmem
      exact hescape (mem_of_mem_lineTexts hline hmem)
    rw [hrun, unstyled_terminated true hlines, htexts]

/-- A source file whose lines end in different ways, and a file of words. -/
def coinFiles : Files
  | "wallet.es" => .ok "abc' def f(x: Coin$,\r\n  y: Coin) 'é\\\n\"\r"
  | "words.json" => .ok "\x7b\"builtin_types\": [\"Coin\", \"Coin$\"]\x7d"
  | _ => .error .notFound

/-- Arguments for the source file over the words, with a string open at its start. -/
def coinArguments : List String :=
  ["--state=quoted-string", "highlight", "wallet.es", "--vocabulary", "words.json"]

theorem run_highlight_coins : ∃ i v, readArguments coinArguments = .ok i ∧
    i.task = .highlight "wallet.es" false ∧ i.state = .quotedString ∧
    i.UsesWords coinFiles v ∧ v.types = ["Coin", "Coin$"] ∧
    (∀ colors, (run coinFiles [] colors coinArguments).code = 0) ∧
    (run coinFiles [] false coinArguments).stdout =
      "abc' def f(x: Coin$,\n  y: Coin) 'é\\\n\"\r\n" ∧
    Style.unstyled (run coinFiles [] true coinArguments).stdout.toList =
      "abc' def f(x: Coin$,\n  y: Coin) 'é\\\n\"\r\n".toList := by
  have hargs : readArguments coinArguments =
      .ok ⟨some "words.json", .quotedString, .highlight "wallet.es" false⟩ := by
    decide +kernel
  have hwords : Vocabulary.ofFile coinFiles "words.json" =
      .ok { Vocabulary.builtin with types := ["Coin", "Coin$"] } := by
    decide +kernel
  have hlines : terminated (lines "abc' def f(x: Coin$,\r\n  y: Coin) 'é\\\n\"\r") =
      "abc' def f(x: Coin$,\n  y: Coin) 'é\\\n\"\r\n" := by
    decide +kernel
  obtain ⟨hcode, hplain, hpainted⟩ := run_highlight hargs rfl hwords rfl []
  rw [hlines] at hplain hpainted
  exact ⟨_, _, hargs, rfl, rfl, hwords, rfl, hcode, hplain, hpainted (by decide +kernel)⟩

end EncryScript

end LineLexer
