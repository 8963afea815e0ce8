import LineLexer.Proofs.Scan.Coalescing
import LineLexer.Proofs.Scan.Partition

/-!
# The kinds of the bytes of a line

Every byte of a scanned line belongs to a token, which gives it a kind.  Joining pieces into tokens
does not change the kind of any byte (`ScannedLine.kindAt?_ofPieces`), so the kinds of the bytes
can be compared where the tokens cannot.
-/

namespace LineLexer

/-- The byte `n` lies in the range. -/
def Span.contains (s : Span) (n : Nat) : Bool := s.start ≤ n && n < s.stop

/-- The kind of the token that the byte `n` belongs to. -/
def ScannedLine.kindAt? (l : ScannedLine) (n : Nat) : Option Kind :=
  (l.tokens.find? fun t => t.span.contains n).map (·.kind)

namespace Piece

variable {n : Nat}

/-- The byte `n` lies in the piece. -/
def covers (n : Nat) (p : Piece) : Bool := p.start ≤ n && n < p.stop

/-- The kind of the piece that the byte `n` lies in. -/
def kindAt? (n : Nat) (ps : List Piece) : Option Kind := (ps.find? (covers n)).map (·.kind)

theorem covers_iff {p : Piece} : p.covers n ↔ p.start ≤ n ∧ n < p.stop := by
  rw [covers, Bool.and_eq_true, decide_eq_true_eq, decide_eq_true_eq]

theorem kindAt?_cons (p : Piece) (ps : List Piece) :
    kindAt? n (p :: ps) = if p.covers n then some p.kind else kindAt? n ps := by
  rw [kindAt?, List.find?_cons]
  cases p.covers n <;> rfl

theorem kindAt?_append (ps qs : List Piece) :
    kindAt? n (ps ++ qs) = (kindAt? n ps).or (kindAt? n qs) := by
  rw [kindAt?, List.find?_append, Option.map_or]
  rfl

/-- No byte lies in an empty piece. -/
theorem kindAt?_filled (ps : List Piece) : kindAt? n (filled ps) = kindAt? n ps := by
  have hcovers : (fun p : Piece => decide ((!p.text.isEmpty) = true ∧ p.covers n = true)) =
      covers n := by
    funext p
    by_cases hp : p.text = []
    · have hstop : p.stop = p.start := by simp [stop, hp]
      have hnot : p.covers n = false := by
        rw [Bool.eq_false_iff, ne_eq, covers_iff]
        omega
      simp [hnot]
    · simp [hp]
  rw [kindAt?, filled, List.find?_filter, hcovers]
  rfl

/-- A run of pieces that can be joined covers what the joined piece does, all of one kind. -/
theorem kindAt?_run {p : Piece} {ps : List Piece}
    (h : (p :: ps).IsChain fun p q => p.joinable q) :
    kindAt? n (p :: ps) = if (p.longer ps).covers n then some p.kind else none := by
  induction ps generalizing p with
  | nil => rw [longer_nil, kindAt?_cons, kindAt?, List.find?_nil, Option.map_none]
  | cons q qs ih =>
    obtain ⟨hjoin, hchain⟩ := List.isChain_cons_cons.1 h
    obtain ⟨-, -, hkind, hstop⟩ := joinable_iff.1 hjoin
    have hcovers : (p.longer (q :: qs)).covers n ↔ p.covers n ∨ (q.longer qs).covers n := by
      rw [covers_iff, covers_iff, covers_iff]
      simp only [stop, longer, List.flatMap_cons, byteSize_append] at hstop ⊢
      omega
    rw [kindAt?_cons, ih hchain, hkind]
    by_cases hp : p.covers n
    · rw [if_pos hp, if_pos (hcovers.2 (.inl hp))]
    · by_cases hq : (q.longer qs).covers n
      · rw [if_neg hp, if_pos hq, if_pos (hcovers.2 (.inr hq))]
      · rw [if_neg hp, if_neg hq, if_neg fun hboth => (hcovers.1 hboth).elim hp hq]

end Piece

/-- **The tokens give every byte the kind that its piece has.** -/
theorem ScannedLine.kindAt?_ofPieces (ps : List Piece) (state : State) (n : Nat) :
    (⟨Token.ofPieces ps, state⟩ : ScannedLine).kindAt? n = Piece.kindAt? n ps := by
  have hruns : ∀ runs : List (List Piece), (∀ run ∈ runs, run.IsChain fun p q => p.joinable q) →
      (((runs.filterMap Piece.merge?).map Token.ofPiece).find? fun t => t.span.contains n).map
        (·.kind) = Piece.kindAt? n runs.flatten := by
    intro runs hchains
    induction runs with
    | nil => rfl
    | cons run runs ih =>
      obtain ⟨hchain, hchains⟩ := List.forall_mem_cons.1 hchains
      rw [List.flatten_cons, Piece.kindAt?_append, ← ih hchains]
      cases run with
      | nil => rfl
      | cons p ps =>
        have hcovers : (Token.ofPiece (p.longer ps)).span.contains n = (p.longer ps).covers n := rfl
        have hmerge : Piece.merge? (p :: ps) = some (p.longer ps) := rfl
        rw [Piece.kindAt?_run hchain, List.filterMap_cons_some hmerge, List.map_cons,
          List.find?_cons, hcovers]
        cases (p.longer ps).covers n <;> rfl
  rw [kindAt?, Token.ofPieces_eq]
  calc _ = Piece.kindAt? n ((Piece.filled ps).splitBy Piece.joinable).flatten :=
        hruns _ fun run hrun => List.isChain_of_mem_splitBy hrun
    _ = Piece.kindAt? n (Piece.filled ps) := by rw [List.flatten_splitBy]
    _ = Piece.kindAt? n ps := Piece.kindAt?_filled ps

/-- **Every byte of a partition belongs to a token.** -/
theorem Token.Partition.exists_kindAt? {line : String} {stop : Nat} {l : ScannedLine}
    (h : Partition line stop l.tokens) {n : Nat} (hn : n < stop) : ∃ kind, l.kindAt? n = some kind := by
  obtain ⟨tokens, endState⟩ := l
  have hfound : ∀ ts : List Token, (ts.IsChain fun t u => t.span.stop = u.span.start) →
      (∀ t ∈ ts.head?, t.span.start ≤ n) → n < (ts.getLast?.map fun t => t.span.stop).getD 0 →
      ∃ t ∈ ts, t.span.contains n := by
    intro ts hchain hhead hlast
    induction ts with
    | nil => simp at hlast
    | cons t ts ih =>
      have hstart := hhead t rfl
      by_cases hstop : n < t.span.stop
      · exact ⟨t, List.mem_cons_self, by simp [Span.contains, hstart, hstop]⟩
      · cases ts with
        | nil => exact absurd hlast hstop
        | cons u us =>
          obtain ⟨htouch, hchain⟩ := List.isChain_cons_cons.1 hchain
          have hnext : ∀ t ∈ (u :: us).head?, t.span.start ≤ n := by
            rintro _ ⟨⟩
            omega
          obtain ⟨t', ht', hcontains⟩ := ih hchain hnext (by simpa using hlast)
          exact ⟨t', List.mem_cons_of_mem t ht', hcontains⟩
  have hstarts : ∀ t ∈ tokens.head?, t.span.start ≤ n := by
    intro t ht
    have hzero : t.span.start = 0 := h.starts t ht
    omega
  have hstop : n < (tokens.getLast?.map fun t => t.span.stop).getD 0 := h.stops.symm ▸ hn
  obtain ⟨t, ht, hcontains⟩ := hfound tokens h.touches hstarts hstop
  have hsome : (tokens.find? fun t => t.span.contains n).isSome :=
    List.find?_isSome.2 ⟨t, ht, hcontains⟩
  obtain ⟨u, hu⟩ := Option.isSome_iff_exists.1 hsome
  exact ⟨u.kind, by rw [ScannedLine.kindAt?, hu, Option.map_some]⟩

end LineLexer
