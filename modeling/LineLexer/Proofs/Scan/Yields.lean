import LineLexer.Proofs.Outcome
import LineLexer.Proofs.Scan.Along

/-!
# What a scan yields

`Table.Yields` says which pieces a scan gives from a place on and in which state it ends.  It is
put together rule by rule (`Table.Yields.step`, `Table.Yields.still` and `Table.Yields.last`), and
at the start of a line it gives the scanned line (`Table.Yields.scanLine_eq`).
-/

namespace LineLexer

namespace Table

variable {t : Table} {p : Place} {a : Application} {stalls : Nat} {line : String}

/-! ### One rule of a scan -/

theorem scanFrom_of_isLast (h : t.application? p = some a) (hlast : a.isLast) :
    t.scanFrom line p stalls = ⟨[a], .ok a.after.state⟩ := by
  rw [scanFrom]
  split
  · rename_i hnone
    rw [h] at hnone
    simp at hnone
  · rename_i b hb
    obtain rfl := Option.some.inj (h.symm.trans hb)
    rw [dif_pos hlast]

theorem scanFrom_of_stop_eq_zero (h : t.application? p = some a) (hlast : a.isLast = false)
    (hstop : a.hit.stop = 0) (hnext : a.rule.text.next.isSome) (hstalls : stalls < maxStalls) :
    t.scanFrom line p stalls = ⟨a :: (t.scanFrom line a.after (stalls + 1)).applications,
      (t.scanFrom line a.after (stalls + 1)).outcome⟩ := by
  rw [scanFrom]
  split
  · rename_i hnone
    rw [h] at hnone
    simp at hnone
  · rename_i b hb
    obtain rfl := Option.some.inj (h.symm.trans hb)
    rw [dif_neg (by simp [hlast]), dif_pos hstop, dif_pos ⟨hnext, hstalls⟩]

theorem scanFrom_of_stop_ne_zero (h : t.application? p = some a) (hlast : a.isLast = false)
    (hstop : a.hit.stop ≠ 0) :
    t.scanFrom line p stalls = ⟨a :: (t.scanFrom line a.after 0).applications,
      (t.scanFrom line a.after 0).outcome⟩ := by
  rw [scanFrom]
  split
  · rename_i hnone
    rw [h] at hnone
    simp at hnone
  · rename_i b hb
    obtain rfl := Option.some.inj (h.symm.trans hb)
    rw [dif_neg (by simp [hlast]), dif_neg hstop]

/-! ### Pieces from a place on -/

/-- Scanning from `p` on gives the pieces `ps`, empty ones apart, and ends in `state`. -/
structure Yields (t : Table) (stalls : Nat) (p : Place) (ps : List Piece) (state : State) :
    Prop where
  outcome_eq : ∀ line, (t.scanFrom line p stalls).outcome = .ok state
  pieces_eq : ∀ line, Piece.filled ((t.scanFrom line p stalls).applications.flatMap
    (Application.pieces t.lexicon)) = Piece.filled ps

variable {ps qs : List Piece} {state : State}

theorem Yields.congr (h : t.Yields stalls p ps state) (heq : Piece.filled ps = Piece.filled qs) :
    t.Yields stalls p qs state where
  outcome_eq := h.outcome_eq
  pieces_eq line := (h.pieces_eq line).trans heq

theorem Yields.last (h : t.application? p = some a) (hlast : a.isLast)
    (hpieces : Piece.filled (a.pieces t.lexicon) = Piece.filled ps) :
    t.Yields stalls p ps a.after.state where
  outcome_eq line := by rw [scanFrom_of_isLast h hlast]
  pieces_eq line := by rw [scanFrom_of_isLast h hlast, List.flatMap_singleton, hpieces]

theorem Yields.step (h : t.application? p = some a) (hlast : a.isLast = false)
    (hstop : a.hit.stop ≠ 0) (hpieces : Piece.filled (a.pieces t.lexicon) = Piece.filled ps)
    (hafter : t.Yields 0 a.after qs state) : t.Yields stalls p (ps ++ qs) state where
  outcome_eq line := by rw [scanFrom_of_stop_ne_zero h hlast hstop, hafter.outcome_eq]
  pieces_eq line := by
    rw [scanFrom_of_stop_ne_zero h hlast hstop, List.flatMap_cons, Piece.filled_append,
      hafter.pieces_eq, hpieces, ← Piece.filled_append]

/-- A rule that consumes nothing and leads to another state adds nothing. -/
theorem Yields.still (h : t.application? p = some a) (hlast : a.isLast = false)
    (hstop : a.hit.stop = 0) (hnext : a.rule.text.next.isSome) (hstalls : stalls < maxStalls)
    (hpieces : Piece.filled (a.pieces t.lexicon) = [])
    (hafter : t.Yields (stalls + 1) a.after ps state) : t.Yields stalls p ps state where
  outcome_eq line := by
    rw [scanFrom_of_stop_eq_zero h hlast hstop hnext hstalls, hafter.outcome_eq]
  pieces_eq line := by
    rw [scanFrom_of_stop_eq_zero h hlast hstop hnext hstalls, List.flatMap_cons,
      Piece.filled_append, hafter.pieces_eq, hpieces, List.nil_append]

/-- A rule for tokens of one kind yields its match. -/
theorem Yields.step_single {s : State} {n : Nat} {r : Rule} {m : Match} {kind : Kind}
    {w after : List Char} (h : t.application? ⟨s, n, w ++ after⟩ = some ⟨⟨s, n, w ++ after⟩, r, m⟩)
    (hrule : r.text.classification = .single kind) (hends : r.text.endsLine = false)
    (hstart : m.start = 0) (hstop : m.stop = w.length) (hne : w ≠ [])
    (hafter : t.Yields 0 ⟨r.text.next.getD s, n + byteSize w, after⟩ ps state) :
    t.Yields stalls ⟨s, n, w ++ after⟩ (⟨kind, w, n, true⟩ :: ps) state := by
  have hpieces := Application.pieces_of_single (a := ⟨⟨s, n, w ++ after⟩, r, m⟩) hrule rfl hstart
    hstop t.lexicon
  refine Yields.step h ?_ ?_ (congrArg Piece.filled hpieces) ?_
  · simp [Application.isLast, hne, hends]
  · simpa [hstop] using hne
  · rw [Application.after_eq rfl hstop]
    exact hafter

/-- A rule whose groups fill the match yields their texts. -/
theorem Yields.step_groups {s : State} {n : Nat} {r : Rule} {kinds : List Kind}
    {ws : List (List Char)} {after : List Char}
    (h : t.application? ⟨s, n, ws.flatten ++ after⟩ =
      some ⟨⟨s, n, ws.flatten ++ after⟩, r, ⟨0, ws.flatten.length, Pattern.spans 0 ws⟩⟩)
    (hrule : r.text.classification = .perGroup kinds) (hends : r.text.endsLine = false)
    (hlen : kinds.length = ws.length) (hne : ws.flatten ≠ [])
    (hafter : t.Yields 0 ⟨r.text.next.getD s, n + byteSize ws.flatten, after⟩ ps state) :
    t.Yields stalls ⟨s, n, ws.flatten ++ after⟩ (Piece.row n (kinds.zip ws) ++ ps) state := by
  have hnil : (ws.flatten ++ after).isEmpty = false := by simp [hne]
  refine Yields.step h ?_ ?_ (Application.filled_pieces_of_perGroup hrule rfl rfl hlen _) ?_
  · rw [Application.isLast, hnil, hends]
    rfl
  · exact fun hzero => hne (List.length_eq_zero_iff.1 hzero)
  · rw [Application.after_eq rfl rfl]
    exact hafter

/-- **What is yielded at the start of a line is the scanned line.** -/
theorem Yields.scanLine_eq {s : State} (h : t.Yields 0 ⟨s, 0, line.toList⟩ ps state) :
    t.scanLine line s = .ok ⟨Token.ofPieces ps, state⟩ := by
  rw [scanLine, Outcome.map_eq_ok_iff]
  refine ⟨state, h.outcome_eq line, ?_⟩
  have hpieces : Piece.filled ((t.scan line s).applications.flatMap
      (Application.pieces t.lexicon)) = Piece.filled ps := h.pieces_eq line
  rw [← Token.ofPieces_filled, hpieces, Token.ofPieces_filled]

theorem Yields.exists_pairs {s : State} (h : t.Yields 0 ⟨s, 0, line.toList⟩ ps state)
    (hkinds : (Piece.pairs ps).IsChain fun f g => f.1 ≠ g.1) :
    ∃ l, t.scanLine line s = .ok l ∧ l.pairs = Piece.pairs ps ∧ l.endState = state :=
  ⟨_, h.scanLine_eq, Piece.pairs_ofPieces hkinds, rfl⟩

end Table

end LineLexer
