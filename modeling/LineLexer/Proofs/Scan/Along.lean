import LineLexer.Proofs.Pattern.Fields
import LineLexer.Proofs.Scan.Coalescing
import LineLexer.Proofs.Scan.Tiling

/-!
# Pieces and the text behind them

Whether two pieces can stand next to each other depends on what a rule looks at behind its match.
`Piece.Along` says something of every piece together with the text behind it; it holds of a whole
scan if it holds of each rule that is applied (`Table.Anchored.along_scanFrom`), and then of the
run of pieces that a token is made of (`Piece.Along.exists_run`).

The pieces that a rule makes of a match are given here by the texts of the match:
`Application.pieces_of_single`, `Application.pieces_of_word` and
`Application.filled_pieces_of_perGroup`.
-/

namespace LineLexer

namespace Piece

variable {P : Piece → List Char → Prop} {ps qs : List Piece} {after : List Char}

/-- The text of a list of pieces. -/
def textOf (ps : List Piece) : List Char := ps.flatMap (·.text)

@[simp] theorem textOf_nil : textOf [] = [] := rfl

@[simp] theorem textOf_cons (p : Piece) (ps : List Piece) :
    textOf (p :: ps) = p.text ++ textOf ps := rfl

@[simp] theorem textOf_append (ps qs : List Piece) :
    textOf (ps ++ qs) = textOf ps ++ textOf qs := List.flatMap_append

theorem textOf_filled (ps : List Piece) : textOf (filled ps) = textOf ps := by
  induction ps with
  | nil => rfl
  | cons p ps ih =>
    by_cases hp : p.text = []
    · rw [filled_cons_of_nil hp, textOf_cons, hp, List.nil_append, ih]
    · rw [filled_cons_of_ne hp, textOf_cons, textOf_cons, ih]

theorem Tile.textOf_eq {n : Nat} {text : List Char} (h : Tile n text ps) : textOf ps = text := by
  induction h with
  | nil => rfl
  | cons _ _ ih => rw [textOf_cons, ih]

/-- Every piece satisfies `P` together with the text behind it; `after` is the text behind the
last one. -/
def Along (P : Piece → List Char → Prop) : List Piece → List Char → Prop
  | [], _ => True
  | p :: ps, after => P p (textOf ps ++ after) ∧ Along P ps after

theorem along_of_forall (h : ∀ p ∈ ps, ∀ after, P p after) (after : List Char) :
    Along P ps after := by
  induction ps with
  | nil => trivial
  | cons p ps ih =>
    obtain ⟨hp, hps⟩ := List.forall_mem_cons.1 h
    exact ⟨hp _, ih hps⟩

theorem along_append :
    Along P (ps ++ qs) after ↔ Along P ps (textOf qs ++ after) ∧ Along P qs after := by
  induction ps with
  | nil => simp [Along]
  | cons p ps ih => simp [Along, ih, and_assoc]

theorem Along.filled (h : Along P ps after) : Along P (filled ps) after := by
  induction ps with
  | nil => trivial
  | cons p ps ih =>
    by_cases hp : p.text = []
    · rw [filled_cons_of_nil hp]
      exact ih h.2
    · rw [filled_cons_of_ne hp]
      exact ⟨(textOf_filled ps).symm ▸ h.1, ih h.2⟩

/-- Empty pieces have no say in what holds along the pieces. -/
theorem along_of_filled (hP : ∀ p after, p.text = [] → P p after)
    (h : Along P (Piece.filled ps) after) : Along P ps after := by
  induction ps with
  | nil => trivial
  | cons p ps ih =>
    by_cases hp : p.text = []
    · rw [filled_cons_of_nil hp] at h
      exact ⟨hP p _ hp, ih h⟩
    · rw [filled_cons_of_ne hp] at h
      exact ⟨textOf_filled ps ▸ h.1, ih h.2⟩

/-- **A token is a run of pieces that can be joined**, none of them empty, and along it holds
what holds along all pieces. -/
theorem Along.exists_run (h : Along P ps after) {t : Token} (ht : t ∈ Token.ofPieces ps) :
    ∃ p run after', t = Token.ofPiece (p.longer run) ∧
      (p :: run).IsChain (fun p q => p.joinable q) ∧ (∀ q ∈ p :: run, q.text ≠ []) ∧
      Along P (p :: run) after' := by
  obtain ⟨front, p, run, back, hsplit, hchain, htoken⟩ := Token.exists_run_of_mem_ofPieces ht
  have hfilled : ∀ q ∈ p :: run, q ∈ Piece.filled ps := by
    intro q hq
    rw [hsplit]
    exact List.mem_append_left back (List.mem_append_right front hq)
  have halong := h.filled
  rw [hsplit, List.append_assoc, along_append, along_append] at halong
  refine ⟨p, run, _, htoken, hchain, ?_, halong.2.1⟩
  intro q hq
  simpa using (List.mem_filter.1 (hfilled q hq)).2

/-! ### Pieces in a row -/

/-- Pieces that are not joined and stand side by side from byte `n` on, with their kinds and
texts. -/
def row (n : Nat) : List (Kind × List Char) → List Piece
  | [] => []
  | (kind, w) :: fs => ⟨kind, w, n, false⟩ :: row (n + byteSize w) fs

theorem tile_row (n : Nat) (fs : List (Kind × List Char)) :
    Tile n (fs.flatMap (·.2)) (row n fs) := by
  induction fs generalizing n with
  | nil => exact .nil n
  | cons f fs ih =>
    rw [List.flatMap_cons, row]
    exact .cons (p := ⟨f.1, f.2, n, false⟩) rfl (ih _)

theorem joins_of_mem_row {p : Piece} {n : Nat} {fs : List (Kind × List Char)} (h : p ∈ row n fs) :
    p.joins = false := by
  induction fs generalizing n with
  | nil => simp [row] at h
  | cons f fs ih =>
    rcases List.mem_cons.1 h with rfl | h
    · rfl
    · exact ih h

theorem filled_cons_congr {p : Piece} (h : filled ps = filled qs) :
    filled (p :: ps) = filled (p :: qs) := by
  rw [← List.singleton_append, filled_append, h, ← filled_append, List.singleton_append]

/-- The kinds and the texts of the pieces that are not empty. -/
def pairs (ps : List Piece) : List (Kind × String) :=
  (filled ps).map fun p => (p.kind, String.ofList p.text)

theorem pairs_append (ps qs : List Piece) : pairs (ps ++ qs) = pairs ps ++ pairs qs := by
  rw [pairs, filled_append, List.map_append]
  rfl

theorem pairs_singleton {p : Piece} (hp : p.text ≠ []) :
    pairs [p] = [(p.kind, String.ofList p.text)] := by
  rw [pairs, filled_cons_of_ne hp]
  rfl

theorem pairs_row (n : Nat) (fs : List (Kind × List Char)) : pairs (row n fs) =
    (fs.filter fun f => !f.2.isEmpty).map fun f => (f.1, String.ofList f.2) := by
  induction fs generalizing n with
  | nil => rfl
  | cons f fs ih =>
    rw [row, ← List.singleton_append, pairs_append, ih]
    by_cases hf : f.2 = []
    · rw [List.filter_cons_of_neg (by simp [hf]), pairs, filled_cons_of_nil hf]
      rfl
    · rw [List.filter_cons_of_pos (by simp [hf]), pairs_singleton hf]
      rfl

/-- Pieces of which no two neighbours have one kind are tokens as they are. -/
theorem pairs_ofPieces {ps : List Piece} (h : (pairs ps).IsChain fun f g => f.1 ≠ g.1) :
    ((Token.ofPieces ps).map fun t => (t.kind, t.text)) = pairs ps := by
  rw [Token.ofPieces_of_isChain, List.map_map]
  · rfl
  · rw [pairs, List.isChain_map] at h
    refine h.imp ?_
    intro p q hkind
    rw [Bool.eq_false_iff]
    intro hjoin
    exact hkind (joinable_iff.1 hjoin).2.2.1

end Piece

/-! ### What a match is made into -/

namespace Application

variable {a : Application} {w after : List Char}

theorem piece_eq (lo : List Char) (hrest : a.place.rest = lo ++ (w ++ after)) (kind : Kind)
    (joins : Bool) : a.piece kind joins lo.length (lo.length + w.length) =
      ⟨kind, w, a.place.offset + byteSize lo, joins⟩ := by
  simp [piece, slice, hrest]

theorem after_eq (hrest : a.place.rest = w ++ after) (hstop : a.hit.stop = w.length) :
    a.after = ⟨a.rule.text.next.getD a.place.state, a.place.offset + byteSize w, after⟩ := by
  simp [Application.after, hrest, hstop]

theorem after_rest_eq (hrest : a.place.rest = w ++ after) (hstop : a.hit.stop = w.length) :
    a.after.rest = after := by
  rw [after_eq hrest hstop]

theorem piece_whole (hrest : a.place.rest = w ++ after) (hstart : a.hit.start = 0)
    (hstop : a.hit.stop = w.length) (kind : Kind) (joins : Bool) :
    a.piece kind joins a.hit.start a.hit.stop = ⟨kind, w, a.place.offset, joins⟩ := by
  simp [piece, slice, hrest, hstart, hstop]

theorem pieces_of_single {kind : Kind} (hrule : a.rule.text.classification = .single kind)
    (hrest : a.place.rest = w ++ after) (hstart : a.hit.start = 0) (hstop : a.hit.stop = w.length)
    (lexicon : Lexicon) : a.pieces lexicon = [⟨kind, w, a.place.offset, true⟩] := by
  rw [pieces, hrule]
  simp only [piece_whole hrest hstart hstop]

theorem pieces_of_word (hrule : a.rule.text.classification = .word)
    (hrest : a.place.rest = w ++ after) (hstart : a.hit.start = 0) (hstop : a.hit.stop = w.length)
    (lexicon : Lexicon) : a.pieces lexicon =
      [⟨lexicon.kindOf (String.ofList w), w, a.place.offset, true⟩] := by
  have hslice : a.slice a.hit.start a.hit.stop = w := by simp [slice, hrest, hstart, hstop]
  rw [pieces, hrule]
  simp only [piece_whole hrest hstart hstop, hslice]

/-- The pieces of groups are not joined. -/
theorem joins_of_mem_groupPieces {p : Piece} {pos : Nat}
    {gs : List (Kind × Option (Nat × Nat))} (h : p ∈ a.groupPieces pos gs) : p.joins = false := by
  induction gs generalizing pos with
  | nil =>
    obtain rfl := List.mem_singleton.1 h
    rfl
  | cons g gs ih =>
    obtain ⟨kind, none | ⟨lo, hi⟩⟩ := g
    · exact ih h
    · rw [groupPieces] at h
      split at h
      · exact ih h
      · rcases List.mem_cons.1 h with rfl | h
        · rfl
        rcases List.mem_cons.1 h with rfl | h
        · rfl
        · exact ih h

theorem filled_groupPieces {kinds : List Kind} {ws : List (List Char)} (lo : List Char)
    (hrest : a.place.rest = lo ++ (ws.flatten ++ after))
    (hstop : a.hit.stop = lo.length + ws.flatten.length) (hlen : kinds.length = ws.length) :
    Piece.filled (a.groupPieces lo.length (kinds.zip (Pattern.spans lo.length ws))) =
      Piece.filled (Piece.row (a.place.offset + byteSize lo) (kinds.zip ws)) := by
  have hgap (n : Nat) : (a.piece .text false n n).text = [] := by simp [piece, slice]
  induction ws generalizing kinds lo with
  | nil =>
    obtain rfl : kinds = [] := List.length_eq_zero_iff.1 hlen
    rw [List.zip_nil_left, groupPieces, hstop, List.flatten_nil, List.length_nil, Nat.add_zero]
    exact Piece.filled_cons_of_nil (hgap _) []
  | cons w ws ih =>
    obtain ⟨kind, kinds, rfl⟩ := List.exists_cons_of_length_eq_add_one hlen
    rw [List.flatten_cons, List.append_assoc] at hrest
    rw [List.flatten_cons, List.length_append] at hstop
    rw [Pattern.spans, List.zip_cons_cons, List.zip_cons_cons, groupPieces,
      if_neg (Nat.lt_irrefl _), Piece.filled_cons_of_nil (hgap _), Piece.row,
      piece_eq lo hrest]
    refine Piece.filled_cons_congr ?_
    have hnext := ih (lo ++ w) (by rw [hrest, List.append_assoc])
      (by rw [hstop, List.length_append, Nat.add_assoc]) (Nat.succ.inj hlen)
    rwa [List.length_append, byteSize_append, ← Nat.add_assoc] at hnext

/-- **The groups of a match that fill it are its pieces**, with their kinds. -/
theorem filled_pieces_of_perGroup {kinds : List Kind} {ws : List (List Char)}
    (hrule : a.rule.text.classification = .perGroup kinds)
    (hrest : a.place.rest = ws.flatten ++ after)
    (hhit : a.hit = ⟨0, ws.flatten.length, Pattern.spans 0 ws⟩) (hlen : kinds.length = ws.length)
    (lexicon : Lexicon) : Piece.filled (a.pieces lexicon) =
      Piece.filled (Piece.row a.place.offset (kinds.zip ws)) := by
  have hgroups := filled_groupPieces (a := a) [] hrest (by simp [hhit]) hlen
  rw [pieces, hrule]
  simpa [hhit] using hgroups

end Application

/-! ### Along a scan -/

namespace Table

variable {t : Table} {p : Place} {P : Piece → List Char → Prop}

/-- **What holds along the pieces of every rule that is applied holds along a whole scan.** -/
theorem Anchored.along_scanFrom (ht : t.Anchored)
    (hP : ∀ a, t.application? a.place = some a → Piece.Along P (a.pieces t.lexicon) a.after.rest)
    {line : String} {stalls : Nat} {state : State}
    (h : (t.scanFrom line p stalls).outcome = .ok state) : ∃ after,
      p.rest = Piece.textOf ((t.scanFrom line p stalls).applications.flatMap
        (Application.pieces t.lexicon)) ++ after ∧
      Piece.Along P ((t.scanFrom line p stalls).applications.flatMap
        (Application.pieces t.lexicon)) after := by
  -- a rule's pieces tile what it consumes, so what they hold along is the rest behind it
  have hone {p : Place} {a : Application} (ha : t.application? p = some a) :
      p.rest = Piece.textOf (a.pieces t.lexicon) ++ a.after.rest ∧
        Piece.Along P (a.pieces t.lexicon) a.after.rest := by
    rw [(ht.tile_pieces ha).textOf_eq, ← rest_eq_of_application? ha]
    obtain rfl := application?_place ha
    exact ⟨rfl, hP a ha⟩
  fun_induction t.scanFrom line p stalls with
  | case1 | case4 => simp at h
  | case2 p stalls a ha hlast =>
    refine ⟨a.after.rest, ?_⟩
    rw [List.flatMap_singleton]
    exact hone ha
  | case3 p stalls a ha _ _ _ later ih | case5 p stalls a ha _ _ later ih =>
    obtain ⟨after, hrest, halong⟩ := ih h
    obtain ⟨hrest', halong'⟩ := hone ha
    refine ⟨after, ?_, ?_⟩
    · rw [List.flatMap_cons, Piece.textOf_append, List.append_assoc, ← hrest, hrest']
    · rw [List.flatMap_cons]
      exact Piece.along_append.2 ⟨hrest ▸ halong', halong⟩

end Table

end LineLexer
