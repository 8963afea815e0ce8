import Mathlib.Logic.Function.Defs
import LineLexer.Dump
import LineLexer.Proofs.Json.Pretty
import LineLexer.Proofs.Json.Reading

/-!
# Decoding dumps for programs

A dump is decoded by the names of the members alone: their order is free, a name must not stand
twice.  The dump of lines is a JSON text, and what it decodes to are the lines with their numbers
(`dumpJson_decodes`).  So different lines have different dumps.
-/

namespace LineLexer

namespace Json

/-! ### The decoder -/

/-- The value of the one member of an object with this name. -/
def member? (name : String) : Json → Option Json
  | .object members =>
    match members.filter fun m => m.1 == name with
    | [m] => some m.2
    | _ => none
  | _ => none

/-- The number that a value is. -/
def number? : Json → Option Nat
  | .number n => some n
  | _ => none

/-- The string that a value is. -/
def string? : Json → Option String
  | .string s => some s
  | _ => none

/-- The items of an array. -/
def items? : Json → Option (List Json)
  | .array items => some items
  | _ => none

end Json

/-- The span that a value writes. -/
def Span.ofJson? (j : Json) : Option Span := do
  let start ← (← j.member? "start").number?
  let stop ← (← j.member? "end").number?
  some ⟨start, stop⟩

/-- The token that a value writes. -/
def Token.ofJson? (j : Json) : Option Token := do
  let kind ← Kind.ofName? (← (← j.member? "kind").string?)
  let text ← (← j.member? "text").string?
  let span ← Span.ofJson? (← j.member? "span")
  some ⟨kind, text, span⟩

/-- The line that a value writes, with its number. -/
def ScannedLine.ofJson? (j : Json) : Option (Nat × ScannedLine) := do
  let number ← (← j.member? "line").number?
  let tokens ← (← (← j.member? "tokens").items?).mapM Token.ofJson?
  let endState ← State.ofName? (← (← j.member? "end_state").string?)
  some (number, ⟨tokens, endState⟩)

/-! ### What is written is decoded -/

theorem Kind.ofName?_name (k : Kind) : ofName? k.name = some k := by
  cases k <;> decide

theorem mapM_map_of_eq_some {α β γ : Type} {f : α → β} {g : β → Option γ} {k : α → γ}
    (h : ∀ a, g (f a) = some (k a)) (l : List α) : (l.map f).mapM g = some (l.map k) := by
  rw [List.mapM_map, show g ∘ f = fun a => pure (k a) from funext h, List.mapM_pure]
  rfl

theorem Span.ofJson?_toJson (s : Span) : ofJson? s.toJson = some s := rfl

theorem Token.ofJson?_toJson (t : Token) : ofJson? t.toJson = some t := by
  have hkind : t.toJson.member? "kind" = some (.string t.kind.name) := rfl
  have htext : t.toJson.member? "text" = some (.string t.text) := rfl
  have hspan : t.toJson.member? "span" = some t.span.toJson := rfl
  simp [ofJson?, hkind, htext, hspan, Json.string?, Kind.ofName?_name, Span.ofJson?_toJson]

namespace ScannedLine

theorem ofJson?_toJson (number : Nat) (l : ScannedLine) :
    ofJson? (l.toJson number) = some (number, l) := by
  have hline : (l.toJson number).member? "line" = some (.number number) := rfl
  have htokens : (l.toJson number).member? "tokens" = some (.array (l.tokens.map Token.toJson)) := rfl
  have hstate : (l.toJson number).member? "end_state" = some (.string l.endState.name) := rfl
  have hdecoded : (l.tokens.map Token.toJson).mapM Token.ofJson? = some l.tokens := by
    rw [mapM_map_of_eq_some Token.ofJson?_toJson, List.map_id']
  simp [ofJson?, hline, htokens, hstate, hdecoded, Json.number?, Json.string?, Json.items?,
    State.ofName?_name]

theorem mapM_ofJson?_mapIdx (ls : List ScannedLine) :
    (ls.mapIdx fun i l => l.toJson (i + 1)).mapM ofJson? = some (ls.mapIdx fun i l => (i + 1, l)) := by
  have hline (p : ScannedLine × Nat) : ofJson? (p.1.toJson (p.2 + 1)) = some (p.2 + 1, p.1) :=
    ofJson?_toJson _ _
  rw [List.mapIdx_eq_zipIdx_map, List.mapIdx_eq_zipIdx_map]
  exact mapM_map_of_eq_some hline ls.zipIdx

end ScannedLine

/-! ### Dumps -/

theorem ofText?_dumpJson (ls : List ScannedLine) :
    Json.ofText? (dumpJson ls) = some (.array (ls.mapIdx fun i l => l.toJson (i + 1))) :=
  Json.ofText?_of_isText (Json.isText_pretty _)

theorem map_snd_numbered (ls : List ScannedLine) :
    (ls.mapIdx fun i l => (i + 1, l)).map Prod.snd = ls := by
  rw [List.mapIdx_eq_zipIdx_map, List.map_map]
  exact List.zipIdx_map_fst 0 ls

theorem dumpJson_injective : Function.Injective dumpJson := by
  intro ls ls' h
  have hvalues := ofText?_dumpJson ls
  rw [h, ofText?_dumpJson ls'] at hvalues
  have hitems := Json.array.inj (Option.some.inj hvalues)
  have hlines := ScannedLine.mapM_ofJson?_mapIdx ls
  rw [← hitems, ScannedLine.mapM_ofJson?_mapIdx ls'] at hlines
  have hnumbered := Option.some.inj hlines
  rw [← map_snd_numbered ls, ← hnumbered, map_snd_numbered]

/-- **Dumps decode to the lines.**  A dump is the JSON text of an array, which is read back; its
items are decoded by the names of their members as the lines, numbered from one.  So different
lines have different dumps. -/
theorem dumpJson_decodes :
    (∀ ls, ∃ items, Json.IsText (.array items) (dumpJson ls).toList ∧
      Json.ofText? (dumpJson ls) = some (.array items) ∧
      items.mapM ScannedLine.ofJson? = some (ls.mapIdx fun i l => (i + 1, l))) ∧
    Function.Injective dumpJson := by
  refine ⟨fun ls => ?_, dumpJson_injective⟩
  exact ⟨_, Json.isText_pretty _, ofText?_dumpJson ls, ScannedLine.mapM_ofJson?_mapIdx ls⟩

end LineLexer
