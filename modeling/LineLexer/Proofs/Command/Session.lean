import Mathlib.Data.List.TakeWhile
import LineLexer.Proofs.Command.Highlight
import LineLexer.Proofs.Command.Prompt
import LineLexer.Proofs.EncryScript.Total
import LineLexer.Proofs.Text.Input

/-!
# Sessions scan blocks of lines

A session prompts with the state that the last line ended in and with the number of the next line
to be classified.  `:help` changes neither, `:reset` takes the state back, and `:quit` ends the
session whatever is still to come.  So the lines between two resets are a block that is scanned
like a text of its own (`EncryScript.run_session`).

`Session.log` is the course of a session exchange by exchange, and `Session.run` prints what the
exchanges print (`Session.run_map_ok`).  An exchange begins with a prompt (`Session.IsPrompt`); a
line gives a command if a name of the command stands in it alone
(`SessionCommand.isGivenBy_iff_standsAlone`).
-/

namespace LineLexer

namespace SessionCommand

/-- The typed line gives the command. -/
def isGivenBy (c : SessionCommand) (typed : String) : Bool :=
  ofLine? (trimLineEnd typed) == some c

variable {typed : String}

theorem isGivenBy_eq_true_iff {c : SessionCommand} :
    c.isGivenBy typed = true ↔ ofLine? (trimLineEnd typed) = some c := beq_iff_eq

theorem isGivenBy_of_some {c d : SessionCommand} (h : ofLine? (trimLineEnd typed) = some c) :
    d.isGivenBy typed = (c == d) := by
  rw [isGivenBy, h]
  rfl

theorem isGivenBy_of_none (h : ofLine? (trimLineEnd typed) = none) (d : SessionCommand) :
    d.isGivenBy typed = false := by
  rw [isGivenBy, h]
  rfl

/-- What a command is called, in full and for short. -/
def names : SessionCommand → List String
  | quit => [":quit", ":q"]
  | help => [":help", ":h"]
  | reset => [":reset", ":r"]

theorem ofLine?_eq_some_iff {c : SessionCommand} {line : String} :
    ofLine? line = some c ↔ trimBlanks line ∈ c.names := by
  rw [ofLine?]
  split <;> cases c <;> simp_all [names]

/-- **A line gives a command** if a name of the command stands in it alone, whatever white space is
around the name and however the line ends. -/
theorem isGivenBy_iff_standsAlone {c : SessionCommand} :
    c.isGivenBy typed = true ↔ ∃ name ∈ c.names, StandsAlone name typed := by
  have hnames : ∀ c : SessionCommand, ∀ name ∈ c.names,
      name.toList ≠ [] ∧ name.toList.all (fun ch => !isBlank ch) = true := by
    intro c
    cases c <;> decide
  have htrim {name : String} (hname : name ∈ c.names) :
      trimBlanks typed = name ↔ StandsAlone name typed := by
    obtain ⟨hne, hall⟩ := hnames c name hname
    exact trimBlanks_eq_iff hne (by simpa using hall)
  rw [isGivenBy_eq_true_iff, ofLine?_eq_some_iff, trimBlanks_trimLineEnd]
  constructor
  · intro hname
    exact ⟨_, hname, (htrim hname).1 rfl⟩
  · rintro ⟨name, hname, halone⟩
    rwa [(htrim hname).2 halone]

end SessionCommand

/-- Scanned lines with the state that each begins in, the first in `state`. -/
def ScannedLine.threaded (state : State) : List ScannedLine → List (State × ScannedLine)
  | [] => []
  | l :: ls => (state, l) :: threaded l.endState ls

namespace Session

open SessionCommand (quit help reset)

/-! ### The course of a session -/

/-- A typed line of a session, and what it is classified as unless it gives a command. -/
structure Exchange where
  /-- The session that the line is typed in. -/
  before : Session
  typed : String
  result : Option ScannedLine

namespace Exchange

/-- What is printed after the line is typed. -/
def answer (colors : Bool) (e : Exchange) : String :=
  match e.result with
  | some l => l.paint colors ++ "\n" ++ l.dump ++ "\n"
  | none => if help.isGivenBy e.typed then helpText else ""

/-- What is printed: the prompt and the answer. -/
def text (colors : Bool) (e : Exchange) : String := e.before.prompt ++ e.answer colors

/-- What is printed before the answer is a prompt. -/
theorem text_eq_iff (colors : Bool) (e : Exchange) {prompt : String} :
    e.text colors = prompt ++ e.answer colors ↔ e.before.IsPrompt prompt := by
  rw [text, String.append_left_inj, isPrompt_iff, eq_comm]

/-- The session that the next line is typed in. -/
def after (e : Exchange) : Session :=
  match e.result with
  | some l => { state := l.endState, number := e.before.number + 1 }
  | none => if reset.isGivenBy e.typed then { e.before with state := .initial } else e.before

/-- The session that a classified line was typed in, with what the line was classified as. -/
def scanned? (e : Exchange) : Option (Session × ScannedLine) := e.result.map (e.before, ·)

end Exchange

/-- The exchange on a typed line.  It is irreducible, since to unfold it is to try all commands. -/
@[irreducible] def exchange (t : Table) (s : Session) (typed : String) : Exchange :=
  { before := s
    typed := typed
    result :=
      match SessionCommand.ofLine? (trimLineEnd typed) with
      | some _ => none
      | none => (t.scanLine (trimLineEnd typed) s.state).toOption }

/-- The exchanges on typed lines, none of which ends the session. -/
def log (t : Table) (s : Session) : List String → List Exchange
  | [] => []
  | typed :: lines => s.exchange t typed :: (s.exchange t typed).after.log t lines

/-- The session after typed lines, none of which ends it. -/
def past (t : Table) (s : Session) : List String → Session
  | [] => s
  | typed :: lines => (s.exchange t typed).after.past t lines

/-- The typed lines before the one that ends the session. -/
def entered (lines : List String) : List String := lines.takeWhile fun l => !quit.isGivenBy l

/-- The typed lines that do not ask for help. -/
def withoutHelp (lines : List String) : List String := lines.filter fun l => !help.isGivenBy l

section

variable {t : Table} {s : Session} {typed : String}

theorem exchange_of_some {c : SessionCommand}
    (h : SessionCommand.ofLine? (trimLineEnd typed) = some c) :
    s.exchange t typed = ⟨s, typed, none⟩ := by
  rw [exchange, h]

theorem exchange_of_none {l : ScannedLine}
    (h : SessionCommand.ofLine? (trimLineEnd typed) = none)
    (hl : t.scanLine (trimLineEnd typed) s.state = .ok l) :
    s.exchange t typed = ⟨s, typed, some l⟩ := by
  rw [exchange, h, hl]
  rfl

@[simp] theorem exchange_before (t : Table) (s : Session) (typed : String) :
    (s.exchange t typed).before = s := by
  rw [exchange]

@[simp] theorem exchange_typed (t : Table) (s : Session) (typed : String) :
    (s.exchange t typed).typed = typed := by
  rw [exchange]

theorem log_cons (t : Table) (s : Session) (typed : String) (lines : List String) :
    s.log t (typed :: lines) = s.exchange t typed :: (s.exchange t typed).after.log t lines := rfl

theorem past_cons (t : Table) (s : Session) (typed : String) (lines : List String) :
    s.past t (typed :: lines) = (s.exchange t typed).after.past t lines := by
  rw [past]

theorem map_typed_log (t : Table) (s : Session) (lines : List String) :
    (s.log t lines).map (·.typed) = lines := by
  induction lines generalizing s with
  | nil => rfl
  | cons typed lines ih => rw [log_cons, List.map_cons, ih, exchange_typed]

/-! ### What is printed -/

section

variable (hok : ∀ line state, ∃ l, t.scanLine line state = .ok l)
include hok

/-- One step: a session answers as the exchange does. -/
theorem answer_eq (hquit : quit.isGivenBy typed = false) (s : Session) (colors : Bool) :
    s.answer t colors typed =
      .ok ((s.exchange t typed).answer colors, some (s.exchange t typed).after) := by
  cases hc : SessionCommand.ofLine? (trimLineEnd typed) with
  | none =>
    obtain ⟨l, hl⟩ := hok (trimLineEnd typed) s.state
    rw [exchange_of_none hc hl]
    simp only [answer, hc, hl, Exchange.answer, Exchange.after]
    rfl
  | some c =>
    rw [exchange_of_some hc]
    have hgiven (d : SessionCommand) := SessionCommand.isGivenBy_of_some (d := d) hc
    cases c with
    | quit => exact absurd (hgiven quit) (by rw [hquit]; decide)
    | help => simp [answer, hc, Exchange.answer, Exchange.after, hgiven]
    | reset => simp [answer, hc, Exchange.answer, Exchange.after, hgiven]

/-- **A session prints what its exchanges print**, and then the prompt that is answered by the end
of the session. -/
theorem run_map_ok (s : Session) (colors : Bool) (lines : List String) :
    s.run t colors (lines.map .ok) =
      (String.join ((s.log t (entered lines)).map (·.text colors)) ++
        (s.past t (entered lines)).prompt ++
          if lines.any quit.isGivenBy then "Goodbye!\n" else farewell, none) := by
  induction lines generalizing s with
  | nil =>
    simp only [List.map_nil, run, entered, List.takeWhile_nil, log, past, String.join_nil,
      String.empty_append, List.any_nil, Bool.false_eq_true, if_false]
  | cons typed lines ih =>
    cases hquit : quit.isGivenBy typed with
    | true =>
      have hc := SessionCommand.isGivenBy_eq_true_iff.1 hquit
      have hanswer : s.answer t colors typed = .ok ("Goodbye!\n", none) := by
        simp only [answer, hc]
      have hentered : entered (typed :: lines) = [] := by
        rw [entered, List.takeWhile_cons_of_neg (by simp [hquit])]
      rw [List.map_cons, run, hanswer, hentered, List.any_cons, hquit, Bool.true_or, if_pos rfl]
      simp [log, past]
    | false =>
      have hentered : entered (typed :: lines) = typed :: entered lines := by
        rw [entered, List.takeWhile_cons_of_pos (by rw [hquit]; rfl), entered]
      rw [List.map_cons, run, answer_eq hok hquit, hentered, log_cons, past_cons, List.map_cons,
        String.join_cons, Exchange.text, exchange_before, List.any_cons, hquit, Bool.false_or]
      simp only [ih, String.append_assoc]

end

/-! ### Asking for help -/

theorem after_exchange_of_help (s : Session) (h : help.isGivenBy typed = true) :
    (s.exchange t typed).after = s := by
  have hc := SessionCommand.isGivenBy_eq_true_iff.1 h
  rw [exchange_of_some hc]
  simp [Exchange.after, SessionCommand.isGivenBy_of_some hc]

theorem withoutHelp_cons_of_help (h : help.isGivenBy typed = true) (lines : List String) :
    withoutHelp (typed :: lines) = withoutHelp lines :=
  List.filter_cons_of_neg (by simp [h])

theorem withoutHelp_cons_of_not (h : help.isGivenBy typed = false) (lines : List String) :
    withoutHelp (typed :: lines) = typed :: withoutHelp lines :=
  List.filter_cons_of_pos (by simp [h])

/-- **Asking for help changes nothing**: the other exchanges are those of the session in which
help is never asked for. -/
theorem filter_log (t : Table) (s : Session) (lines : List String) :
    (s.log t lines).filter (fun e => !help.isGivenBy e.typed) = s.log t (withoutHelp lines) := by
  induction lines generalizing s with
  | nil => rfl
  | cons typed lines ih =>
    rw [log_cons]
    cases hhelp : help.isGivenBy typed with
    | true =>
      rw [List.filter_cons_of_neg (by simp [hhelp]), withoutHelp_cons_of_help hhelp, ih,
        after_exchange_of_help s hhelp]
    | false =>
      rw [List.filter_cons_of_pos (by simp [hhelp]), withoutHelp_cons_of_not hhelp, ih,
        log_cons]

theorem past_withoutHelp (t : Table) (s : Session) (lines : List String) :
    s.past t (withoutHelp lines) = s.past t lines := by
  induction lines generalizing s with
  | nil => rfl
  | cons typed lines ih =>
    rw [past_cons]
    cases hhelp : help.isGivenBy typed with
    | true => rw [withoutHelp_cons_of_help hhelp, ih, after_exchange_of_help s hhelp]
    | false => rw [withoutHelp_cons_of_not hhelp, past_cons, ih]

end

/-! ### Blocks -/

/-- What a list is cut into consists of elements of the list, in order. -/
theorem sublist_of_mem_splitOnP {α : Type} {p : α → Bool} {xs part : List α}
    (h : part ∈ xs.splitOnP p) : part.Sublist xs := by
  induction xs generalizing part with
  | nil =>
    rw [List.splitOnP_nil, List.mem_singleton] at h
    rw [h]
  | cons x xs ih =>
    rw [List.splitOnP_cons_eq_if_modifyHead] at h
    split_ifs at h
    · rcases List.mem_cons.1 h with rfl | h
      · exact List.nil_sublist _
      · exact (ih h).cons x
    · cases hparts : xs.splitOnP p with
      | nil => simp [hparts] at h
      | cons front parts =>
        rw [hparts, List.modifyHead_cons] at h
        rw [hparts] at ih
        rcases List.mem_cons.1 h with rfl | h
        · exact (ih List.mem_cons_self).cons_cons x
        · exact (ih (List.mem_cons_of_mem _ h)).cons x

/-- Lines typed in between two resets, and what they are classified as. -/
structure Block where
  state : State
  typed : List String
  results : List ScannedLine

/-- The lines are cut at the resets into `first` and the blocks of `later`; every block is scanned
by itself, the first from `state` on and the others from the initial state on. -/
structure CutInto (t : Table) (state : State) (lines : List String) (first : Block)
    (later : List Block) : Prop where
  map_typed : (first :: later).map (·.typed) = lines.splitOnP reset.isGivenBy
  state_first : first.state = state
  state_later : ∀ b ∈ later, b.state = .initial
  scanLines : ∀ b ∈ first :: later,
    t.scanLines b.state (b.typed.map trimLineEnd) = .ok b.results

/-- The lines of the blocks in order, each with the session that it is typed in when their numbers
go on from `number`. -/
def numbered (number : Nat) (bs : List Block) : List (Session × ScannedLine) :=
  ((bs.flatMap fun b => ScannedLine.threaded b.state b.results).zipIdx number).map
    fun ((state, l), k) => ({ state := state, number := k }, l)

theorem numbered_cons_nil (number : Nat) (state : State) (bs : List Block) :
    numbered number (⟨state, [], []⟩ :: bs) = numbered number bs := rfl

theorem numbered_cons_line {number : Nat} {state : State} {typed : String} {l : ScannedLine}
    {b : Block} {bs : List Block} (hstate : b.state = l.endState) :
    numbered number (⟨state, typed :: b.typed, l :: b.results⟩ :: bs) =
      (⟨state, number⟩, l) :: numbered (number + 1) (b :: bs) := by
  simp only [numbered, List.flatMap_cons, ScannedLine.threaded, hstate, List.cons_append,
    List.zipIdx_cons, List.map_cons]

namespace CutInto

variable {t : Table} {state : State} {lines : List String} {first : Block} {later : List Block}
  {typed : String}

theorem nil (t : Table) (state : State) : CutInto t state [] ⟨state, [], []⟩ [] where
  map_typed := by simp
  state_first := rfl
  state_later := by simp
  scanLines := by simp [Table.scanLines]

/-- A reset begins a new block. -/
theorem cons_of_reset (h : CutInto t .initial lines first later)
    (hreset : reset.isGivenBy typed = true) (state : State) :
    CutInto t state (typed :: lines) ⟨state, [], []⟩ (first :: later) where
  map_typed := by
    rw [List.splitOnP_cons_eq_if_modifyHead, if_pos hreset, ← h.map_typed]
    rfl
  state_first := rfl
  state_later := List.forall_mem_cons.2 ⟨h.state_first, h.state_later⟩
  scanLines := List.forall_mem_cons.2 ⟨rfl, h.scanLines⟩

/-- A line is classified in front of the first block. -/
theorem cons_of_line {l : ScannedLine} (h : CutInto t l.endState lines first later)
    (hreset : reset.isGivenBy typed = false) (hl : t.scanLine (trimLineEnd typed) state = .ok l) :
    CutInto t state (typed :: lines) ⟨state, typed :: first.typed, l :: first.results⟩ later where
  map_typed := by
    rw [List.splitOnP_cons_eq_if_modifyHead, if_neg (by simp [hreset]), ← h.map_typed]
    rfl
  state_first := rfl
  state_later := h.state_later
  scanLines := by
    obtain ⟨hfirst, hlater⟩ := List.forall_mem_cons.1 h.scanLines
    rw [h.state_first] at hfirst
    exact List.forall_mem_cons.2
      ⟨Table.scanLines_cons_eq_ok_iff.2 ⟨l, first.results, rfl, hl, hfirst⟩, hlater⟩

end CutInto

/-- **The lines that a session classifies are those of its blocks**, numbered throughout. -/
theorem exists_cutInto {t : Table} (hok : ∀ line state, ∃ l, t.scanLine line state = .ok l)
    (s : Session) {lines : List String} (hlines : ∀ l ∈ lines, quit.isGivenBy l = false) :
    ∃ first later, CutInto t s.state (withoutHelp lines) first later ∧
      (s.log t lines).filterMap (·.scanned?) = numbered s.number (first :: later) := by
  induction lines generalizing s with
  | nil => exact ⟨_, _, .nil t s.state, rfl⟩
  | cons typed lines ih =>
    obtain ⟨hquit, hlines⟩ := List.forall_mem_cons.1 hlines
    rw [log_cons]
    cases hc : SessionCommand.ofLine? (trimLineEnd typed) with
    | none =>
      have hgiven := SessionCommand.isGivenBy_of_none hc
      obtain ⟨l, hl⟩ := hok (trimLineEnd typed) s.state
      rw [exchange_of_none hc hl, withoutHelp_cons_of_not (hgiven help)]
      obtain ⟨first, later, hcut, hlog⟩ := ih ⟨l.endState, s.number + 1⟩ hlines
      refine ⟨_, later, hcut.cons_of_line (hgiven reset) hl, ?_⟩
      rw [numbered_cons_line hcut.state_first, ← hlog]
      rfl
    | some c =>
      have hgiven (d : SessionCommand) := SessionCommand.isGivenBy_of_some (d := d) hc
      have hscanned : (s.exchange t typed).scanned? = none := by
        rw [exchange_of_some hc]
        rfl
      rw [List.filterMap_cons_none hscanned]
      cases c with
      | quit => exact absurd (hgiven quit) (by rw [hquit]; decide)
      | help =>
        rw [after_exchange_of_help s (hgiven help), withoutHelp_cons_of_help (hgiven help)]
        exact ih s hlines
      | reset =>
        rw [exchange_of_some hc, withoutHelp_cons_of_not (hgiven help)]
        obtain ⟨first, later, hcut, hlog⟩ := ih { s with state := .initial } hlines
        refine ⟨_, first :: later, hcut.cons_of_reset (hgiven reset) s.state, ?_⟩
        rw [Exchange.after, numbered_cons_nil, ← hlog]
        simp [hgiven]

/-- A block in which no carriage return is typed is scanned like a text. -/
theorem CutInto.scanText {t : Table} {state : State} {lines : List String} {first : Block}
    {later : List Block} (h : CutInto t state lines first later) {text : String}
    (hlines : lines.Sublist (typedLines text)) {b : Block} (hb : b ∈ first :: later)
    (hreturn : ∀ l ∈ b.typed, '\r' ∉ l.toList) :
    t.scanText (String.join b.typed) b.state = .ok b.results := by
  have hmem : b.typed ∈ lines.splitOnP reset.isGivenBy := h.map_typed ▸ List.mem_map_of_mem hb
  have htyped := (sublist_of_mem_splitOnP hmem).trans hlines
  rw [Table.scanText, lines_join_of_sublist htyped hreturn]
  exact h.scanLines b hb

/-- Lines with one reset among them are cut into two blocks. -/
theorem CutInto.exists_pair {t : Table} {state : State} {lines front back : List String}
    {first : Block} {later : List Block} (h : CutInto t state lines first later)
    (hparts : lines.splitOnP reset.isGivenBy = [front, back]) :
    ∃ xs ys, first = ⟨state, front, xs⟩ ∧ later = [⟨.initial, back, ys⟩] := by
  have hmap := h.map_typed
  rw [hparts, List.map_cons, List.cons.injEq] at hmap
  obtain ⟨hfront, hback⟩ := hmap
  obtain ⟨b, rfl, rfl⟩ := List.map_eq_singleton_iff.1 hback
  refine ⟨first.results, b.results, ?_, ?_⟩
  · rw [← h.state_first, ← hfront]
  · rw [← h.state_later b List.mem_cons_self]

end Session

namespace EncryScript

open SessionCommand (quit help)

variable {files : Files} {args : List String} {i : Invocation} {v : Vocabulary}

/-- **Sessions scan blocks of lines.**  For every input that is text, every state and every
accepted vocabulary a session ends well.  It prints its exchanges on the lines up to the one that
gives `:quit`, and the prompt for that line or for the end of the input.  A line gives a command
just if a name of the command stands in it alone; any other line is stripped of the line feeds and
carriage returns at its end.

Every exchange begins with a prompt that says the state and the number of the line, and such a
prompt follows the last one.  Asking for help changes no other exchange.  The lines that are left
are cut into blocks at the resets; what is classified is the lines of the blocks, each scanned from
its own state on, with numbers that go on from one block to the next.  Where no carriage return is
typed, a block is scanned like a text. -/
theorem run_session (hargs : readArguments args = .ok i) (htask : i.task = .session)
    (hwords : i.UsesWords files v) :
    ∃ t, i.table files = .ok t ∧ ∀ (text : String) (colors : Bool),
      let s : Session := { state := i.state }
      let typed := Session.entered (typedLines text)
      run files (inputLines text.toUTF8) colors args =
          { code := 0
            stdout := Session.banner colors ++
              (String.join ((s.log t typed).map (·.text colors)) ++ (s.past t typed).prompt ++
                if (typedLines text).any quit.isGivenBy then "Goodbye!\n" else "\n") } ∧
        (∀ line ∈ typedLines text, IsStripped line (trimLineEnd line) ∧
          ∀ c : SessionCommand,
            c.isGivenBy line = true ↔ ∃ name ∈ c.names, StandsAlone name line) ∧
        (∀ e ∈ s.log t typed, ∀ prompt,
          e.text colors = prompt ++ e.answer colors ↔ e.before.IsPrompt prompt) ∧
        (s.past t typed).IsPrompt (s.past t typed).prompt ∧
        (s.log t typed).map (·.typed) = typed ∧
        (s.log t typed).filter (fun e => !help.isGivenBy e.typed) =
          s.log t (Session.withoutHelp typed) ∧
        s.past t typed = s.past t (Session.withoutHelp typed) ∧
        ∃ first later, Session.CutInto t i.state (Session.withoutHelp typed) first later ∧
          (s.log t typed).filterMap (·.scanned?) = Session.numbered 1 (first :: later) ∧
          ∀ b ∈ first :: later, (∀ l ∈ b.typed, '\r' ∉ l.toList) →
            t.scanText (String.join b.typed) b.state = .ok b.results := by
  have htable := i.table_of_usesWords hwords
  have hok (line : String) (state : State) : ∃ l, (tableOf v).scanLine line state = .ok l := by
    obtain ⟨l, hl, -⟩ := (total_tableOf v).exists_scanLine_eq_ok line state
    exact ⟨l, hl⟩
  refine ⟨tableOf v, htable, ?_⟩
  intro text colors s typed
  have hquit : ∀ l ∈ typed, quit.isGivenBy l = false := by
    intro l hl
    simpa using List.mem_takeWhile_imp hl
  have hkept : (Session.withoutHelp typed).Sublist (typedLines text) :=
    List.filter_sublist.trans (List.takeWhile_sublist _)
  obtain ⟨first, later, hcut, hlog⟩ := Session.exists_cutInto hok s hquit
  refine ⟨?_, ?_, ?_, Session.isPrompt_iff.2 rfl, Session.map_typed_log _ s typed,
    Session.filter_log _ s typed, (Session.past_withoutHelp _ s typed).symm, first, later, hcut,
    hlog, ?_⟩
  · rw [run, hargs]
    simp only [Invocation.run, htable, htask, inputLines_toUTF8, Session.run_map_ok hok]
    rfl
  · intro line _
    exact ⟨trimLineEnd_eq_iff.1 rfl, fun c => SessionCommand.isGivenBy_iff_standsAlone⟩
  · intro e _ prompt
    exact e.text_eq_iff colors
  · intro b hb hreturn
    exact hcut.scanText hkept hb hreturn

/-- Arguments for a session that begins inside a string. -/
def quotedArguments : List String := ["--state", "quoted-string", "repl"]

/-- What is typed in the session: three lines and three commands, and more that comes too late. -/
def quotedInput : String := "ab'\n:help\nc\n :r\n\td\r\n:q\n:help"

/-- The lines of the session before the one that ends it. -/
def quotedLines : List String := ["ab'\n", ":help\n", "c\n", " :r\n", "\td\r\n"]

/-- What is printed in the session, without colors. -/
def quotedOutput : String :=
  "EncryScript highlighter REPL\n" ++
  "Type ':quit' or ':q' to exit, ':help' for help\n\n" ++
  "quoted-string:001> ab'\n" ++
  "string(\"ab'\") @ 0..3\n" ++
  "=> start\n" ++
  "start:002> REPL commands:\n" ++
  "  :quit, :q    Exit the REPL\n" ++
  "  :help, :h    Show this help message\n" ++
  "  :reset, :r   Go back to the start state\n" ++
  "\nEvery other line is tokenized in the current state.\n" ++
  "start:002> c\n" ++
  "identifier(\"c\") @ 0..1\n" ++
  "=> start\n" ++
  "start:003> start:003> \td\n" ++
  "text(\"\\t\") @ 0..1\n" ++
  "identifier(\"d\") @ 1..2\n" ++
  "=> start\n" ++
  "start:004> Goodbye!\n"

theorem run_session_quoted : ∃ t xs ys,
    readArguments quotedArguments = .ok ⟨none, .quotedString, .session⟩ ∧
    Invocation.table (fun _ => .error .notFound) ⟨none, .quotedString, .session⟩ = .ok t ∧
    run (fun _ => .error .notFound) (inputLines quotedInput.toUTF8) false quotedArguments =
      { code := 0, stdout := quotedOutput } ∧
    t.scanText "ab'\nc\n" .quotedString = .ok xs ∧ t.scanLines .start ["\td"] = .ok ys ∧
    let log := Session.log t { state := .quotedString } quotedLines
    log.filterMap (·.scanned?) = Session.numbered 1
      [⟨.quotedString, ["ab'\n", "c\n"], xs⟩, ⟨.start, ["\td\r\n"], ys⟩] ∧
    log.map (·.before) = [⟨.quotedString, 1⟩, ⟨.start, 2⟩, ⟨.start, 2⟩, ⟨.start, 3⟩, ⟨.start, 3⟩] ∧
    (∀ e ∈ log, ∀ prompt,
      e.text false = prompt ++ e.answer false ↔ e.before.IsPrompt prompt) ∧
    ∃ last : Session, last.IsPrompt "start:004> " ∧
      quotedOutput = Session.banner false ++
        (String.join (log.map (·.text false)) ++ last.prompt ++ "Goodbye!\n") := by
  have hargs : readArguments quotedArguments = .ok ⟨none, .quotedString, .session⟩ := by
    decide +kernel
  have hwords : Invocation.UsesWords (fun _ => .error .notFound)
      ⟨none, .quotedString, .session⟩ .builtin := rfl
  obtain ⟨t, htable, hsession⟩ := run_session hargs rfl hwords
  obtain ⟨hrun, -, hprompts, hlast, -, -, -, first, later, hcut, hlog, htext⟩ :=
    hsession quotedInput false
  have hentered : Session.entered (typedLines quotedInput) = quotedLines := by decide +kernel
  have hkept : Session.withoutHelp quotedLines = ["ab'\n", "c\n", " :r\n", "\td\r\n"] := by
    decide +kernel
  have hquit : (typedLines quotedInput).any quit.isGivenBy = true := by decide +kernel
  rw [hentered, hkept] at hcut
  rw [hentered] at hlog hrun hprompts hlast
  rw [if_pos hquit] at hrun
  -- the blocks are the two that the reset makes of the lines
  have hparts : ["ab'\n", "c\n", " :r\n", "\td\r\n"].splitOnP SessionCommand.reset.isGivenBy =
      [["ab'\n", "c\n"], ["\td\r\n"]] := by
    decide +kernel
  obtain ⟨xs, ys, rfl, rfl⟩ := hcut.exists_pair hparts
  have hreturn : ∀ l ∈ ["ab'\n", "c\n"], '\r' ∉ l.toList := by decide +kernel
  have hjoin : String.join ["ab'\n", "c\n"] = "ab'\nc\n" := by decide +kernel
  have htrim : ["\td\r\n"].map trimLineEnd = ["\td"] := by decide +kernel
  have hxs : t.scanText (String.join ["ab'\n", "c\n"]) .quotedString = .ok xs :=
    htext _ List.mem_cons_self hreturn
  have hys : t.scanLines .start (["\td\r\n"].map trimLineEnd) = .ok ys :=
    hcut.scanLines _ (List.mem_cons_of_mem _ List.mem_cons_self)
  rw [hjoin] at hxs
  rw [htrim] at hys
  -- the table is the built-in one, so the exchanges can be run
  obtain rfl : tableOf .builtin = t :=
    Except.ok.inj ((Invocation.table_of_usesWords hwords).symm.trans htable)
  let s : Session := { state := .quotedString }
  have hbefore : (s.log (tableOf .builtin) quotedLines).map (·.before) =
      [⟨.quotedString, 1⟩, ⟨.start, 2⟩, ⟨.start, 2⟩, ⟨.start, 3⟩, ⟨.start, 3⟩] := by
    decide +kernel
  have hprompt : (s.past (tableOf .builtin) quotedLines).prompt = "start:004> " := by
    decide +kernel
  have houtput : quotedOutput = Session.banner false ++
      (String.join ((s.log (tableOf .builtin) quotedLines).map (·.text false)) ++
        (s.past (tableOf .builtin) quotedLines).prompt ++ "Goodbye!\n") := by
    decide +kernel
  rw [← houtput] at hrun
  rw [hprompt] at hlast
  exact ⟨_, xs, ys, hargs, htable, hrun, hxs, hys, hlog, hbefore, hprompts, _, hlast, houtput⟩

end EncryScript

end LineLexer
