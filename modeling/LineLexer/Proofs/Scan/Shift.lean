import LineLexer.Proofs.Scan.Kinds
import LineLexer.Proofs.Scan.Total
import LineLexer.Proofs.Scan.Yields

/-!
# Scans further on in a line

What a scan does at a place depends on the state and on what is left of the line; the offset is only
counted on, and the line itself stands in messages only.  So the same text in the same state gives
the same pieces further on in a line, moved by as many bytes (`Table.Yields.shift`), and every byte
of it has the kind that it has at the start of a line (`Piece.kindAt?_shift`).
-/

namespace LineLexer

/-- The place `d` bytes further on. -/
def Place.shift (d : Nat) (p : Place) : Place := { p with offset := d + p.offset }

/-- The piece `d` bytes further on. -/
def Piece.shift (d : Nat) (p : Piece) : Piece := { p with start := d + p.start }

/-! ### One rule -/

namespace Application

/-- The same rule with the same match, `d` bytes further on. -/
def shift (d : Nat) (a : Application) : Application := { a with place := a.place.shift d }

variable (d : Nat) (a : Application)

theorem isLast_shift : (a.shift d).isLast = a.isLast := rfl

theorem after_shift : (a.shift d).after = a.after.shift d := by
  simp [after, shift, Place.shift, Nat.add_assoc]

theorem piece_shift (kind : Kind) (joins : Bool) (lo hi : Nat) :
    (a.shift d).piece kind joins lo hi = (a.piece kind joins lo hi).shift d := by
  simp [piece, slice, shift, Place.shift, Piece.shift, Nat.add_assoc]

theorem groupPieces_shift (pos : Nat) (gs : List (Kind × Option (Nat × Nat))) :
    (a.shift d).groupPieces pos gs = (a.groupPieces pos gs).map (Piece.shift d) := by
  induction gs generalizing pos with
  | nil => exact congrArg ([·]) (a.piece_shift d _ _ _ _)
  | cons g gs ih =>
    obtain ⟨kind, none | ⟨start, stop⟩⟩ := g
    · exact ih pos
    · rw [groupPieces, groupPieces]
      split
      · exact ih pos
      · rw [List.map_cons, List.map_cons, piece_shift, piece_shift, ih]

theorem pieces_shift (lexicon : Lexicon) :
    (a.shift d).pieces lexicon = (a.pieces lexicon).map (Piece.shift d) := by
  have hrule : (a.shift d).rule = a.rule := rfl
  have hhit : (a.shift d).hit = a.hit := rfl
  have hslice (lo hi : Nat) : (a.shift d).slice lo hi = a.slice lo hi := rfl
  rw [pieces, pieces, hrule, hhit]
  split
  · rw [piece_shift, List.map_singleton]
  · simp only [piece_shift, hslice, List.map_singleton]
  · exact a.groupPieces_shift d _ _

end Application

namespace Table

variable {t : Table} {p : Place} {a : Application} {stalls : Nat} {state : State}

/-- The same rule is applied further on. -/
theorem application?_shift (d : Nat) (h : t.application? p = some a) :
    t.application? (p.shift d) = some (a.shift d) := by
  obtain ⟨⟨rule, hit⟩, hfirst, rfl⟩ := Option.map_eq_some_iff.1 h
  exact Option.map_eq_some_iff.2 ⟨(rule, hit), hfirst, rfl⟩

/-! ### A whole scan -/

/-- **A scan that ends well ends well further on, too**, in whatever line: it applies the same
rules. -/
theorem scanFrom_shift {line : String} (h : (t.scanFrom line p stalls).outcome = .ok state)
    (d : Nat) (line' : String) : t.scanFrom line' (p.shift d) stalls =
      ⟨(t.scanFrom line p stalls).applications.map (Application.shift d), .ok state⟩ := by
  fun_induction t.scanFrom line p stalls with
  | case1 | case4 => simp at h
  | case2 p stalls a ha hlast =>
    obtain rfl := Except.ok.inj h
    rw [scanFrom_of_isLast (application?_shift d ha) hlast, a.after_shift d]
    rfl
  | case3 p stalls a ha hlast hstill hmore later ih =>
    have hlast' : (a.shift d).isLast = false := by simpa [a.isLast_shift d] using hlast
    rw [scanFrom_of_stop_eq_zero (application?_shift d ha) hlast' hstill hmore.1 hmore.2,
      a.after_shift d, ih h]
    rfl
  | case5 p stalls a ha hlast hstill later ih =>
    have hlast' : (a.shift d).isLast = false := by simpa [a.isLast_shift d] using hlast
    rw [scanFrom_of_stop_ne_zero (application?_shift d ha) hlast' hstill, a.after_shift d, ih h]
    rfl

/-- What a scan that ends well yields does not depend on the line that it is a part of. -/
theorem yields_of_outcome {line : String} (h : (t.scanFrom line p stalls).outcome = .ok state) :
    t.Yields stalls p ((t.scanFrom line p stalls).applications.flatMap
      (Application.pieces t.lexicon)) state := by
  have hsame (line' : String) : t.scanFrom line' p stalls =
      ⟨(t.scanFrom line p stalls).applications, .ok state⟩ := by
    have hplace : p.shift 0 = p := by simp [Place.shift]
    have hmap : Application.shift 0 = id := funext fun a => by simp [Application.shift, Place.shift]
    have hshift := scanFrom_shift h 0 line'
    rwa [hplace, hmap, List.map_id] at hshift
  refine ⟨fun line' => ?_, fun line' => ?_⟩
  · rw [hsame]
  · rw [hsame]

/-- A scan of a total table yields something from every place on. -/
theorem Total.exists_yields {rank : State → Nat} (ht : t.Total rank) (p : Place) :
    ∃ ps state, t.Yields 0 p ps state := by
  have hstalls : 0 + rank p.state ≤ maxStalls := by simpa using ht.rank_le p.state
  obtain ⟨state, hout⟩ := exists_outcome_eq_ok ht.covers ht.descends ht.rank_le "" hstalls
  exact ⟨_, state, yields_of_outcome hout⟩

theorem filled_map_shift (d : Nat) (ps : List Piece) :
    Piece.filled (ps.map (Piece.shift d)) = (Piece.filled ps).map (Piece.shift d) := by
  rw [Piece.filled, List.filter_map]
  rfl

/-- **The same text yields the same pieces further on.** -/
theorem Yields.shift {ps : List Piece} (h : t.Yields stalls p ps state) (d : Nat) :
    t.Yields stalls (p.shift d) (ps.map (Piece.shift d)) state := by
  have hscan (line : String) := scanFrom_shift (h.outcome_eq line) d line
  refine ⟨fun line => ?_, fun line => ?_⟩
  · rw [hscan]
  · have hpieces : ((t.scanFrom line p stalls).applications.map (Application.shift d)).flatMap
        (Application.pieces t.lexicon) = ((t.scanFrom line p stalls).applications.flatMap
          (Application.pieces t.lexicon)).map (Piece.shift d) := by
      rw [List.flatMap_map, List.map_flatMap]
      exact congrArg (List.flatMap · _) (funext fun a => a.pieces_shift d t.lexicon)
    rw [hscan, hpieces, filled_map_shift, h.pieces_eq line, ← filled_map_shift]

end Table

/-! ### Kinds of bytes -/

namespace Piece

variable {n k : Nat} {text : List Char} {ps : List Piece}

theorem kindAt?_shift (d : Nat) (ps : List Piece) :
    kindAt? (d + n) (ps.map (shift d)) = kindAt? n ps := by
  have hcovers : covers (d + n) ∘ shift d = covers n := by
    funext p
    rw [Bool.eq_iff_iff, Function.comp_apply, covers_iff, covers_iff]
    simp only [shift, stop]
    omega
  rw [kindAt?, List.find?_map, hcovers, Option.map_map]
  rfl

/-- Pieces that make up a text give a kind to every byte of it. -/
theorem Tile.exists_kindAt? (h : Tile n text ps) (hle : n ≤ k) (hlt : k < n + byteSize text) :
    ∃ p ∈ ps, kindAt? k ps = some p.kind := by
  induction h with
  | nil => rw [byteSize_nil] at hlt; omega
  | @cons n p text ps hstart _ ih =>
    rw [byteSize_append] at hlt
    by_cases hp : p.covers k
    · exact ⟨p, List.mem_cons_self, by rw [kindAt?_cons, if_pos hp]⟩
    · have hstop : ¬ k < n + byteSize p.text := by
        intro hk
        exact hp (covers_iff.2 ⟨hstart.trans_le hle, by rwa [stop, hstart]⟩)
      obtain ⟨q, hq, hkind⟩ := ih (by omega) (by omega)
      exact ⟨q, List.mem_cons_of_mem p hq, by rw [kindAt?_cons, if_neg hp, hkind]⟩

/-- Pieces that make up a text give no kind to a byte behind it. -/
theorem Tile.kindAt?_eq_none (h : Tile n text ps) (hle : n + byteSize text ≤ k) :
    kindAt? k ps = none := by
  induction h with
  | nil => rfl
  | @cons n p text ps hstart _ ih =>
    rw [byteSize_append] at hle
    have hp : ¬ p.covers k := by
      intro hcovers
      have := (covers_iff.1 hcovers).2
      rw [stop] at this
      omega
    rw [kindAt?_cons, if_neg hp, ih (by omega)]

end Piece

end LineLexer
