import Mathlib.Data.List.Forall2
import LineLexer.Proofs.Lexicon
import LineLexer.Proofs.Scan.Kinds
import LineLexer.Proofs.Scan.Yields

/-!
# Tables that differ in words only

Tables whose rules match alike, and do the same with a match, apply the rules of the same places
(`Table.scanFrom_of_alike`).  If their lexica give every word one kind, they classify every line
alike (`Table.scanLine_of_alike`).  They are twins if their lexica tell words apart only from one
another: a line ends in the same state then, and every byte has the same kind in both, or two kinds
of words (`Table.Twins.scanLine`).  The tokens of twins may differ, since which pieces are joined
depends on their kinds.
-/

namespace LineLexer

/-- The kinds are the same, or both are kinds of words. -/
def Kind.Alike (k k' : Kind) : Prop := k = k' ∨ k.isVocabulary ∧ k'.isVocabulary

theorem Kind.Alike.refl (k : Kind) : k.Alike k := .inl rfl

/-- The rules match alike and do the same with a match. -/
structure Rule.Alike (r r' : Rule) : Prop where
  matchAt_eq : ∀ rest, r.matchAt rest = r'.matchAt rest
  classification_eq : r.text.classification = r'.text.classification
  next_eq : r.text.next = r'.text.next
  endsLine_eq : r.text.endsLine = r'.text.endsLine

theorem Rule.Alike.refl (r : Rule) : r.Alike r := ⟨fun _ => rfl, rfl, rfl, rfl⟩

/-- The pieces are the same stretch of a line, with kinds that are alike. -/
structure Piece.Alike (p p' : Piece) : Prop where
  kind : p.kind.Alike p'.kind
  text_eq : p.text = p'.text
  start_eq : p.start = p'.start

theorem Piece.Alike.refl (p : Piece) : p.Alike p := ⟨.refl _, rfl, rfl⟩

/-- The rules of the tables are alike one by one, and their lexica give words kinds that are
alike. -/
structure Table.Twins (t t' : Table) : Prop where
  rules : ∀ state, List.Forall₂ Rule.Alike (t.rules state) (t'.rules state)
  kindOf : ∀ word, (t.lexicon.kindOf word).Alike (t'.lexicon.kindOf word)

/-! ### One rule -/

theorem Rule.exists_alike {rs rs' : List Rule} (h : List.Forall₂ Rule.Alike rs rs')
    {rest : List Char} {r : Rule} {m : Match}
    (hfirst : (rs.findSome? fun r => (r.matchAt rest).map (r, ·)) = some (r, m)) :
    ∃ r', (rs'.findSome? fun r => (r.matchAt rest).map (r, ·)) = some (r', m) ∧ r.Alike r' := by
  induction h with
  | nil => simp at hfirst
  | @cons s s' rs rs' hs _ ih =>
    rw [List.findSome?_cons] at hfirst ⊢
    rw [← hs.matchAt_eq rest]
    cases hm : s.matchAt rest with
    | none =>
      rw [hm] at hfirst
      exact ih hfirst
    | some m' =>
      rw [hm] at hfirst
      obtain ⟨rfl, rfl⟩ := Prod.mk.inj (Option.some.inj hfirst)
      exact ⟨s', rfl, hs⟩

/-- The applications are at the same place, with the same match, of rules that are alike. -/
structure Application.Alike (a b : Application) : Prop where
  place_eq : a.place = b.place
  hit_eq : a.hit = b.hit
  rule : a.rule.Alike b.rule

namespace Application

variable {a b : Application}

theorem Alike.after_eq (h : a.Alike b) : a.after = b.after := by
  rw [Application.after, Application.after, h.place_eq, h.hit_eq, h.rule.next_eq]

theorem Alike.isLast_eq (h : a.Alike b) : a.isLast = b.isLast := by
  rw [isLast, isLast, h.place_eq, h.rule.endsLine_eq]

theorem Alike.slice_eq (h : a.Alike b) (lo hi : Nat) : a.slice lo hi = b.slice lo hi := by
  rw [slice, slice, h.place_eq]

theorem Alike.piece_eq (h : a.Alike b) (kind : Kind) (joins : Bool) (lo hi : Nat) :
    a.piece kind joins lo hi = b.piece kind joins lo hi := by
  rw [piece, piece, h.slice_eq, h.place_eq]

theorem Alike.groupPieces_eq (h : a.Alike b) (pos : Nat) (gs : List (Kind × Option (Nat × Nat))) :
    a.groupPieces pos gs = b.groupPieces pos gs := by
  induction gs generalizing pos with
  | nil => rw [groupPieces, groupPieces, h.piece_eq, h.hit_eq]
  | cons g gs ih =>
    obtain ⟨kind, span⟩ := g
    cases span with
    | none => exact ih pos
    | some span => rw [groupPieces, groupPieces, ih, ih, h.piece_eq, h.piece_eq]

/-- **Applications that are alike make pieces that are alike.** -/
theorem Alike.pieces {lexicon lexicon' : Lexicon} (h : a.Alike b)
    (hkinds : ∀ word, (lexicon.kindOf word).Alike (lexicon'.kindOf word)) :
    List.Forall₂ Piece.Alike (a.pieces lexicon) (b.pieces lexicon') := by
  rw [Application.pieces, Application.pieces, ← h.rule.classification_eq, ← h.hit_eq]
  split
  · rw [h.piece_eq]
    exact .cons (.refl _) .nil
  · simp only [h.slice_eq, h.piece_eq]
    exact .cons ⟨hkinds _, rfl, rfl⟩ .nil
  · rw [h.groupPieces_eq]
    exact List.forall₂_same.2 fun p _ => .refl p

/-- Applications that are alike make the same pieces if every word has one kind. -/
theorem Alike.pieces_eq {lexicon lexicon' : Lexicon} (h : a.Alike b)
    (hkinds : ∀ word, lexicon.kindOf word = lexicon'.kindOf word) :
    a.pieces lexicon = b.pieces lexicon' := by
  rw [Application.pieces, Application.pieces, ← h.rule.classification_eq, ← h.hit_eq]
  split
  · rw [h.piece_eq]
  · simp only [h.slice_eq, h.piece_eq, hkinds]
  · rw [h.groupPieces_eq]

end Application

/-! ### A whole scan -/

namespace Table

variable {t t' : Table} {p : Place} {a : Application}

theorem exists_application_of_alike
    (hrules : ∀ state, List.Forall₂ Rule.Alike (t.rules state) (t'.rules state))
    (ha : t.application? p = some a) : ∃ b, t'.application? p = some b ∧ a.Alike b := by
  obtain ⟨⟨r, m⟩, hfirst, rfl⟩ := Option.map_eq_some_iff.1 ha
  obtain ⟨r', hfirst', hr⟩ := Rule.exists_alike (hrules p.state) hfirst
  refine ⟨⟨p, r', m⟩, ?_, rfl, rfl, hr⟩
  rw [application?, firstMatch?, hfirst', Option.map_some]

/-- **Tables whose rules are alike take the same way through a line.** -/
theorem scanFrom_of_alike
    (hrules : ∀ state, List.Forall₂ Rule.Alike (t.rules state) (t'.rules state)) {line : String}
    {stalls : Nat} {state : State} (hok : (t.scanFrom line p stalls).outcome = .ok state) :
    (t'.scanFrom line p stalls).outcome = .ok state ∧
      List.Forall₂ Application.Alike (t.scanFrom line p stalls).applications
        (t'.scanFrom line p stalls).applications := by
  -- the other table's rule has the same match and leads to the same place, so its scan takes the
  -- same branch
  fun_induction t.scanFrom line p stalls with
  | case1 | case4 => simp at hok
  | case2 p stalls a ha hlast =>
    obtain ⟨b, hb, halike⟩ := exists_application_of_alike hrules ha
    rw [scanFrom_of_isLast hb (halike.isLast_eq ▸ hlast), ← halike.after_eq]
    exact ⟨hok, .cons halike .nil⟩
  | case3 p stalls a ha hlast hstill hmore later ih =>
    obtain ⟨b, hb, halike⟩ := exists_application_of_alike hrules ha
    have hlast' : b.isLast = false := by
      rw [← halike.isLast_eq]
      simpa using hlast
    have hstill' : b.hit.stop = 0 := by rw [← halike.hit_eq, hstill]
    have hnext : b.rule.text.next.isSome := by
      rw [← halike.rule.next_eq]
      exact hmore.1
    rw [scanFrom_of_stop_eq_zero hb hlast' hstill' hnext hmore.2, ← halike.after_eq]
    obtain ⟨hout, hrest⟩ := ih hok
    exact ⟨hout, .cons halike hrest⟩
  | case5 p stalls a ha hlast hstill later ih =>
    obtain ⟨b, hb, halike⟩ := exists_application_of_alike hrules ha
    have hlast' : b.isLast = false := by
      rw [← halike.isLast_eq]
      simpa using hlast
    have hmoves : b.hit.stop ≠ 0 := by rwa [← halike.hit_eq]
    rw [scanFrom_of_stop_ne_zero hb hlast' hmoves, ← halike.after_eq]
    obtain ⟨hout, hrest⟩ := ih hok
    exact ⟨hout, .cons halike hrest⟩

/-- Twins make pieces that are alike: only those of words may have another kind. -/
theorem Twins.scanFrom (h : t.Twins t') {line : String} {stalls : Nat} {state : State}
    (hok : (t.scanFrom line p stalls).outcome = .ok state) :
    (t'.scanFrom line p stalls).outcome = .ok state ∧
      List.Forall₂ Piece.Alike
        ((t.scanFrom line p stalls).applications.flatMap (Application.pieces t.lexicon))
        ((t'.scanFrom line p stalls).applications.flatMap (Application.pieces t'.lexicon)) := by
  obtain ⟨hout, happlications⟩ := scanFrom_of_alike h.rules hok
  exact ⟨hout, List.rel_flatMap happlications fun _ _ halike => halike.pieces h.kindOf⟩

/-- **Tables whose rules are alike classify a line alike** if their lexica give every word one
kind. -/
theorem scanLine_of_alike
    (hrules : ∀ state, List.Forall₂ Rule.Alike (t.rules state) (t'.rules state))
    (hkinds : ∀ word, t.lexicon.kindOf word = t'.lexicon.kindOf word) {line : String}
    {state : State} {l : ScannedLine} (hl : t.scanLine line state = .ok l) :
    t'.scanLine line state = .ok l := by
  rw [Table.scanLine] at hl
  obtain ⟨endState, hout, rfl⟩ := Outcome.map_eq_ok_iff.1 hl
  obtain ⟨hout', happlications⟩ := scanFrom_of_alike hrules hout
  refine Outcome.map_eq_ok_iff.2 ⟨endState, hout', ?_⟩
  have hpieces : List.Forall₂ Eq
      ((t'.scan line state).applications.flatMap (Application.pieces t'.lexicon))
      ((t.scan line state).applications.flatMap (Application.pieces t.lexicon)) := by
    refine List.rel_flatMap happlications.flip fun b a halike => ?_
    rw [List.forall₂_eq_eq_eq, halike.pieces_eq hkinds]
  rw [List.forall₂_eq_eq_eq] at hpieces
  rw [hpieces]

end Table

/-! ### The kinds of the bytes -/

/-- Pieces that are alike give every byte kinds that are alike. -/
theorem Piece.alike_kindAt? {ps ps' : List Piece} (h : List.Forall₂ Piece.Alike ps ps') (n : Nat) :
    Option.Rel Kind.Alike (kindAt? n ps) (kindAt? n ps') := by
  induction h with
  | nil => exact .none
  | @cons p p' ps ps' hp _ ih =>
    have hcovers : p.covers n = p'.covers n := by
      rw [covers, covers, stop, stop, hp.start_eq, hp.text_eq]
    rw [kindAt?_cons, kindAt?_cons, ← hcovers]
    split
    · exact .some hp.kind
    · exact ih

/-- The lines end in one state, and give every byte kinds that are alike. -/
structure ScannedLine.Alike (l l' : ScannedLine) : Prop where
  endState_eq : l.endState = l'.endState
  kindAt? : ∀ n, Option.Rel Kind.Alike (l.kindAt? n) (l'.kindAt? n)

namespace Table

variable {t t' : Table} {state : State}

/-- **Twins end a line in the same state and give its bytes kinds that are alike.** -/
theorem Twins.scanLine (h : t.Twins t') {line : String} {l : ScannedLine}
    (hl : t.scanLine line state = .ok l) : ∃ l', t'.scanLine line state = .ok l' ∧ l.Alike l' := by
  rw [Table.scanLine] at hl
  obtain ⟨endState, hout, rfl⟩ := Outcome.map_eq_ok_iff.1 hl
  obtain ⟨hout', hpieces⟩ := h.scanFrom hout
  refine ⟨_, Outcome.map_eq_ok_iff.2 ⟨endState, hout', rfl⟩, rfl, ?_⟩
  intro n
  rw [ScannedLine.kindAt?_ofPieces, ScannedLine.kindAt?_ofPieces]
  exact Piece.alike_kindAt? hpieces n

theorem Twins.scanLines (h : t.Twins t') {lines : List String} {ls : List ScannedLine}
    (hls : t.scanLines state lines = .ok ls) :
    ∃ ls', t'.scanLines state lines = .ok ls' ∧ List.Forall₂ ScannedLine.Alike ls ls' := by
  induction lines generalizing state ls with
  | nil =>
    obtain rfl := Except.ok.inj hls
    exact ⟨[], rfl, .nil⟩
  | cons line lines ih =>
    rw [Table.scanLines, Outcome.bind_eq_ok_iff] at hls
    obtain ⟨l, hl, hls⟩ := hls
    obtain ⟨rest, hrest, hls⟩ := Outcome.bind_eq_ok_iff.1 hls
    obtain rfl := Except.ok.inj hls
    obtain ⟨l', hl', halike⟩ := h.scanLine hl
    obtain ⟨rest', hrest', hrests⟩ := ih hrest
    refine ⟨l' :: rest', ?_, .cons halike hrests⟩
    rw [halike.endState_eq] at hrest'
    rw [Table.scanLines, Outcome.bind_eq_ok_iff]
    exact ⟨l', hl', Outcome.bind_eq_ok_iff.2 ⟨rest', hrest', rfl⟩⟩

end Table

end LineLexer
