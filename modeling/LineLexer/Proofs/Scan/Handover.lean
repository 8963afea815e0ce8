import LineLexer.Proofs.Scan.Shift

/-!
# Lines in two parts

A scan that has passed over the front of a line may go on as a scan of the rest by itself would
begin.  Then the tokens of the line are those of the front and, moved by as many bytes as the front
has, those of the rest (`Table.Total.scanLine_append`).  For that no piece of the front may be
joined with the first piece of the rest, which stands at the head of the rest
(`Table.Anchored.head_of_yields`).
-/

namespace LineLexer

/-- The token `d` bytes further on. -/
def Token.shift (d : Nat) (t : Token) : Token :=
  { t with span := ⟨d + t.span.start, d + t.span.stop⟩ }

/-- Tokens side by side from byte `n` on, with their kinds and texts. -/
def Token.row (n : Nat) : List (Kind × String) → List Token
  | [] => []
  | (kind, w) :: fs => ⟨kind, w, ⟨n, n + w.utf8ByteSize⟩⟩ :: row (n + w.utf8ByteSize) fs

/-! ### Tokens further on -/

/-- The tokens taken so far, `d` bytes further on. -/
def TokenStack.shift (d : Nat) (s : TokenStack) : TokenStack :=
  { s with tokens := s.tokens.map (Token.shift d) }

theorem Token.shift_ofPiece (d : Nat) (p : Piece) :
    Token.ofPiece (p.shift d) = (Token.ofPiece p).shift d := by
  simp [ofPiece, shift, Piece.shift, Piece.stop, Nat.add_assoc]

theorem TokenStack.push_shift (d : Nat) (s : TokenStack) (p : Piece) :
    (s.shift d).push (p.shift d) = (s.push p).shift d := by
  obtain ⟨tokens, lastJoins⟩ := s
  by_cases hp : p.text = []
  · rw [push_of_empty _ hp, push_of_empty _ (p := p.shift d) hp]
  cases tokens with
  | nil => simp [push, shift, hp, Piece.shift, ← Token.shift_ofPiece]
  | cons t ts =>
    -- whether the piece lengthens the token does not depend on where the two are
    have hjoin : ((p.shift d).joins && lastJoins && (t.shift d).kind == (p.shift d).kind &&
        (t.shift d).span.stop == (p.shift d).start) =
        (p.joins && lastJoins && t.kind == p.kind && t.span.stop == p.start) := by
      rw [Bool.eq_iff_iff]
      simp [Token.shift, Piece.shift]
    rw [push, push, if_neg (by simpa [Piece.shift] using hp), if_neg (by simpa using hp)]
    simp only [shift, List.map_cons, hjoin]
    split
    · simp [Token.shift, Piece.shift, Piece.stop, Nat.add_assoc]
    · simp [← Token.shift_ofPiece, Piece.shift]

/-- **Pieces further on make the same tokens further on.** -/
theorem Token.ofPieces_shift (d : Nat) (ps : List Piece) :
    ofPieces (ps.map (Piece.shift d)) = (ofPieces ps).map (shift d) := by
  have hfold : ps.foldl (fun s p => s.push (p.shift d)) (TokenStack.shift d {}) =
      (ps.foldl TokenStack.push {}).shift d :=
    List.foldl_hom (TokenStack.shift d) (TokenStack.push_shift d)
  have hempty : TokenStack.shift d {} = {} := rfl
  rw [hempty] at hfold
  rw [ofPieces, ofPieces, List.foldl_map, hfold, TokenStack.shift, List.map_reverse]

/-! ### Pieces that are tokens as they are -/

/-- Pieces that make up a text and are not joined are tokens side by side. -/
theorem Piece.Tile.map_ofPiece {n : Nat} {text : List Char} {ps : List Piece}
    (h : Tile n text ps) : (filled ps).map Token.ofPiece = Token.row n (pairs ps) := by
  induction h with
  | nil => rfl
  | @cons n p text ps hstart _ ih =>
    by_cases hp : p.text = []
    · rw [hp, byteSize_nil, Nat.add_zero] at ih
      rw [pairs, filled_cons_of_nil hp]
      exact ih
    · have hsize : (String.ofList p.text).utf8ByteSize = byteSize p.text := by
        rw [← byteSize_toList, String.toList_ofList]
      have hone : filled [p] = [p] := filled_cons_of_ne hp []
      rw [← List.singleton_append, pairs_append, pairs_singleton hp, filled_append, List.map_append,
        ih, List.singleton_append, Token.row, hsize, hone, ← hstart]
      rfl

theorem Token.ofPieces_of_tile {n : Nat} {text : List Char} {ps : List Piece}
    (h : Piece.Tile n text ps) (hkinds : (Piece.pairs ps).IsChain fun f g => f.1 ≠ g.1) :
    ofPieces ps = row n (Piece.pairs ps) := by
  rw [ofPieces_of_isChain, h.map_ofPiece]
  rw [Piece.pairs, List.isChain_map] at hkinds
  refine hkinds.imp ?_
  intro p q hkind
  rw [Bool.eq_false_iff]
  intro hjoin
  exact hkind (Piece.joinable_iff.1 hjoin).2.2.1

/-! ### The first piece -/

namespace Table

variable {t : Table} {p : Place} {a : Application} {ps qs : List Piece} {stalls : Nat}
  {state : State}

/-- The first piece that is yielded stands at the head of what is left of the line, and what holds
along the pieces of every rule holds of it. -/
theorem Anchored.head_of_yields {P : Piece → List Char → Prop} (ht : t.Anchored)
    (hP : ∀ a, t.application? a.place = some a → Piece.Along P (a.pieces t.lexicon) a.after.rest)
    (h : t.Yields stalls p ps state) {q : Piece} (hq : q ∈ (Piece.filled ps).head?) :
    ∃ after, p.rest = q.text ++ after ∧ q.text ≠ [] ∧ P q after := by
  obtain ⟨after, hrest, halong⟩ := ht.along_scanFrom hP (h.outcome_eq "")
  have hfilled := halong.filled
  rw [← Piece.textOf_filled] at hrest
  rw [h.pieces_eq ""] at hrest hfilled
  obtain ⟨qs, hqs⟩ := List.head?_eq_some_iff.1 hq
  have hmem : q ∈ Piece.filled ps := List.mem_of_mem_head? hq
  rw [hqs] at hrest hfilled
  refine ⟨Piece.textOf qs ++ after, ?_, ?_, hfilled.1⟩
  · rw [hrest, Piece.textOf_cons, List.append_assoc]
  · simpa using (List.mem_filter.1 hmem).2

/-- How often nothing has been consumed has no say where something is consumed. -/
theorem Yields.of_stop_ne_zero (h : t.application? p = some a) (hstop : a.hit.stop ≠ 0)
    (hyields : t.Yields stalls p ps state) (stalls' : Nat) : t.Yields stalls' p ps state := by
  have hsame (line : String) : t.scanFrom line p stalls' = t.scanFrom line p stalls := by
    by_cases hlast : a.isLast
    · rw [scanFrom_of_isLast h hlast, scanFrom_of_isLast h hlast]
    · rw [Bool.not_eq_true] at hlast
      rw [scanFrom_of_stop_ne_zero h hlast hstop, scanFrom_of_stop_ne_zero h hlast hstop]
  refine ⟨fun line => ?_, fun line => ?_⟩
  · rw [hsame, hyields.outcome_eq]
  · rw [hsame, hyields.pieces_eq]

/-! ### The two parts -/

/-- **A line whose front is passed over** has the tokens of the front, and behind them those that
the rest of the line has by itself. -/
theorem Total.scanLine_append {rank : State → Nat} (ht : t.Total rank) {line rest : String}
    {front : List Char} {s s' : State}
    (hfront : ∀ qs state, t.Yields 0 ⟨s', byteSize front, rest.toList⟩ qs state →
      t.Yields 0 ⟨s, 0, line.toList⟩ (ps ++ qs) state)
    (hborder : ∀ qs state, t.Yields 0 ⟨s', 0, rest.toList⟩ qs state →
      ∀ p ∈ (Piece.filled ps).getLast?, ∀ q ∈ (Piece.filled qs).head?,
        p.joins → q.joins → p.kind ≠ q.kind) :
    ∃ l, t.scanLine rest s' = .ok l ∧ t.scanLine line s =
      .ok ⟨Token.ofPieces ps ++ l.tokens.map (Token.shift (byteSize front)), l.endState⟩ := by
  obtain ⟨qs, state, hqs⟩ := ht.exists_yields ⟨s', 0, rest.toList⟩
  have hshift := hqs.shift (byteSize front)
  rw [Place.shift, Nat.add_zero] at hshift
  have hline := (hfront _ _ hshift).scanLine_eq
  refine ⟨_, hqs.scanLine_eq, ?_⟩
  rw [hline, Token.ofPieces_append, Token.ofPieces_shift]
  intro p hp q hq
  rw [filled_map_shift, List.head?_map] at hq
  obtain ⟨r, hr, rfl⟩ := Option.map_eq_some_iff.1 hq
  rw [Bool.eq_false_iff]
  intro hjoin
  obtain ⟨hjoins, hjoins', hkind, -⟩ := Piece.joinable_iff.1 hjoin
  exact hborder qs state hqs p hp r hr hjoins' hjoins hkind

end Table

end LineLexer
