import LineLexer.Lexicon
import LineLexer.Rule

/-!
# Rule tables

A table gives every state its rules, in the order in which they are tried.  It is built from a
draft, which collects the declared rules state by state; the draft is checked as a whole.
-/

namespace LineLexer

/-- The rules of every state, and the lexicon for words. -/
structure Table where
  lexicon : Lexicon
  rules : State → List Rule

/-- A table that is being put together. -/
structure TableDraft where
  vocabulary : Vocabulary
  /-- The states named so far with their rules, in the order in which they were first named. -/
  entries : List (State × List RuleText)

namespace TableDraft

/-- The draft without rules. -/
def new (v : Vocabulary) : TableDraft := ⟨v, []⟩

/-- `rules` after those that `state` already has. -/
def addTo (state : State) (rules : List RuleText) :
    List (State × List RuleText) → List (State × List RuleText)
  | [] => [(state, rules)]
  | (s, rs) :: entries =>
    if s = state then (s, rs ++ rules) :: entries else (s, rs) :: addTo state rules entries

/-- The draft with more rules for a state. -/
def add (d : TableDraft) (state : State) (rules : List RuleText) : TableDraft :=
  { d with entries := addTo state rules d.entries }

/-- The rules of a state in a list of states with their rules. -/
def rulesOf {α : Type} (entries : List (State × List α)) (state : State) : List α :=
  (entries.lookup state).getD []

/-- A rule of `state` that gets on with a text of one character which no pattern is likely to
name: it consumes it, or it leaves for another state. -/
def coversAnything (state : State) (r : Rule) : Bool :=
  match r.matchAt ['\x01'] with
  | some m => if m.stop = 0 then r.text.next.any fun s => s != state else true
  | none => false

/-- Checks the rules of one state: there are some, one of them matches at the end of a line,
and one of the fallbacks covers anything. -/
def checkState (state : State) (rules : List Rule) : Except TableError Unit :=
  if rules.isEmpty then .error (.noRules state)
  else if !rules.any fun r => (r.matchAt []).isSome then .error (.uncoveredLineEnd state)
  else if !rules.any fun r => r.text.fallback && coversAnything state r then
    .error (.noFallback state)
  else .ok ()

/-- The table of a draft.  Errors in the vocabulary come first, then errors in the rules of
each state as the states were named, then what a state lacks. -/
def build (d : TableDraft) : Except TableError Table := do
  let lexicon ← Lexicon.ofVocabulary d.vocabulary
  let entries ← d.entries.mapM fun (state, texts) => do
    return (state, ← texts.mapM (Rule.ofText state))
  State.all.forM fun state => checkState state (rulesOf entries state)
  return { lexicon := lexicon, rules := rulesOf entries }

end TableDraft

namespace Table

/-- The first rule of `state` that matches in `rest`, with its match. -/
def firstMatch? (t : Table) (state : State) (rest : List Char) : Option (Rule × Match) :=
  (t.rules state).findSome? fun r => (r.matchAt rest).map (r, ·)

end Table

end LineLexer
