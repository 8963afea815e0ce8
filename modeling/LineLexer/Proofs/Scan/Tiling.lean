import Mathlib.Data.String.Basic
import LineLexer.Proofs.Scan.Step

/-!
# The tokens of a scan lie side by side

The pieces that one rule makes of a match fill the match without gaps or overlaps, whatever its
groups captured (`Application.tile_pieces`); so do the pieces of a whole scan, up to the place
where the scan stops (`Table.tile_scanFrom`).  Joining pieces into tokens keeps that
(`Token.tile_ofPieces`), and leaves no empty token.
-/

namespace LineLexer

/-! ### Pieces side by side -/

/-- The pieces lie one after the other from byte `n` on and make up the text. -/
inductive Piece.Tile : Nat → List Char → List Piece → Prop where
  | nil (n : Nat) : Tile n [] []
  | cons {n : Nat} {p : Piece} {text : List Char} {ps : List Piece} : p.start = n →
      Tile (n + byteSize p.text) text ps → Tile n (p.text ++ text) (p :: ps)

theorem Piece.Tile.append {n : Nat} {xs ys : List Char} {ps qs : List Piece}
    (hp : Tile n xs ps) (hq : Tile (n + byteSize xs) ys qs) : Tile n (xs ++ ys) (ps ++ qs) := by
  induction hp with
  | nil n => simpa using hq
  | cons hstart _ ih =>
    rw [List.append_assoc, List.cons_append]
    refine .cons hstart (ih ?_)
    rwa [Nat.add_assoc, ← byteSize_append]

namespace Application

variable (a : Application)

theorem take_append_slice {lo hi : Nat} (h : lo ≤ hi) :
    a.place.rest.take lo ++ a.slice lo hi = a.place.rest.take hi := by
  rw [slice, ← List.take_add, Nat.add_sub_cancel' h]

theorem slice_append_slice {lo mid hi : Nat} (h : lo ≤ mid) (h' : mid ≤ hi) :
    a.slice lo mid ++ a.slice mid hi = a.slice lo hi := by
  refine List.append_cancel_left (?_ : a.place.rest.take lo ++ _ = a.place.rest.take lo ++ _)
  rw [← List.append_assoc, take_append_slice a h, take_append_slice a h',
    take_append_slice a (h.trans h')]

theorem tile_piece_cons {kind : Kind} {joins : Bool} {lo mid hi : Nat} {ps : List Piece}
    (h : lo ≤ mid) (h' : mid ≤ hi)
    (hps : Piece.Tile (a.place.offset + byteSize (a.place.rest.take mid)) (a.slice mid hi) ps) :
    Piece.Tile (a.place.offset + byteSize (a.place.rest.take lo)) (a.slice lo hi)
      (a.piece kind joins lo mid :: ps) := by
  rw [← slice_append_slice a h h']
  rw [← take_append_slice a h, byteSize_append, ← Nat.add_assoc] at hps
  exact .cons (p := a.piece kind joins lo mid) rfl hps

theorem slice_self (n : Nat) : a.slice n n = [] := by simp [slice]

theorem tile_piece {kind : Kind} {joins : Bool} {lo hi : Nat} (h : lo ≤ hi) :
    Piece.Tile (a.place.offset + byteSize (a.place.rest.take lo)) (a.slice lo hi)
      [a.piece kind joins lo hi] :=
  a.tile_piece_cons h (Nat.le_refl _) (by rw [slice_self]; exact .nil _)

/-- The pieces of groups fill the match from the place `pos` on, if every group lies in it. -/
theorem tile_groupPieces {gs : List (Kind × Option (Nat × Nat))} {pos : Nat}
    (hpos : pos ≤ a.hit.stop)
    (hgs : ∀ kind lo hi, (kind, some (lo, hi)) ∈ gs → lo ≤ hi ∧ hi ≤ a.hit.stop) :
    Piece.Tile (a.place.offset + byteSize (a.place.rest.take pos)) (a.slice pos a.hit.stop)
      (a.groupPieces pos gs) := by
  induction gs generalizing pos with
  | nil => exact a.tile_piece hpos
  | cons g gs ih =>
    have hgs' : ∀ kind lo hi, (kind, some (lo, hi)) ∈ gs → lo ≤ hi ∧ hi ≤ a.hit.stop :=
      fun kind lo hi h => hgs kind lo hi (List.mem_cons_of_mem _ h)
    obtain ⟨kind, none | ⟨lo, hi⟩⟩ := g
    · exact ih hpos hgs'
    · obtain ⟨hle, hstop⟩ := hgs kind lo hi List.mem_cons_self
      rw [groupPieces]
      split
      · exact ih hpos hgs'
      · rename_i hlo
        have hlo : pos ≤ lo := Nat.not_lt.1 hlo
        refine a.tile_piece_cons hlo (hle.trans hstop) ?_
        exact a.tile_piece_cons hle hstop (ih hstop hgs')

/-- **The pieces of a match fill it**, whatever its groups captured. -/
theorem tile_pieces (lexicon : Lexicon) (hstart : a.hit.start = 0)
    (hit : a.hit.InText a.place.rest.length) :
    Piece.Tile a.place.offset (a.place.rest.take a.hit.stop) (a.pieces lexicon) := by
  have hwhole : a.place.rest.take a.hit.stop = a.slice 0 a.hit.stop := by simp [slice]
  have hoffset : a.place.offset = a.place.offset + byteSize (a.place.rest.take 0) := by simp
  rw [pieces, hwhole, hstart, hoffset]
  split
  · exact a.tile_piece (Nat.zero_le _)
  · exact a.tile_piece (Nat.zero_le _)
  · refine a.tile_groupPieces (Nat.zero_le _) fun kind lo hi hmem => ?_
    exact (hit.groups lo hi (List.of_mem_zip hmem).2).2

end Application

namespace Table

/-- Every match of a rule begins at the place where the rule is applied. -/
def Anchored (t : Table) : Prop :=
  ∀ state, ∀ r ∈ t.rules state, ∀ rest m, r.matchAt rest = some m → m.start = 0

variable {t : Table} {p : Place} {a : Application}

theorem Anchored.tile_pieces (ht : t.Anchored) (h : t.application? p = some a) :
    Piece.Tile p.offset (p.rest.take a.hit.stop) (a.pieces t.lexicon) := by
  have hin := inText_of_application? h
  obtain ⟨rfl, hr, hm⟩ := application?_eq_some h
  exact a.tile_pieces _ (ht _ _ hr _ _ hm) hin

theorem rest_eq_of_application? (h : t.application? p = some a) :
    p.rest = p.rest.take a.hit.stop ++ a.after.rest := by
  obtain rfl := application?_place h
  exact (List.take_append_drop _ _).symm

theorem offset_after (h : t.application? p = some a) :
    a.after.offset = p.offset + byteSize (p.rest.take a.hit.stop) := by
  obtain rfl := application?_place h
  rfl

/-- **The pieces of a scan fill the line** up to the place after the last rule. -/
theorem tile_scanFrom (ht : t.Anchored) {line : String} {stalls : Nat} {state : State}
    (h : (t.scanFrom line p stalls).outcome = .ok state) :
    ∃ a text, (t.scanFrom line p stalls).applications.getLast? = some a ∧ a.isLast ∧
      a.after.state = state ∧ p.rest = text ++ a.after.rest ∧
      a.after.offset = p.offset + byteSize text ∧
      Piece.Tile p.offset text
        ((t.scanFrom line p stalls).applications.flatMap (Application.pieces t.lexicon)) := by
  fun_induction t.scanFrom line p stalls with
  | case1 | case4 => simp at h
  | case2 p stalls a ha hlast =>
    refine ⟨a, _, rfl, hlast, Except.ok.inj h, rest_eq_of_application? ha, offset_after ha, ?_⟩
    simpa using ht.tile_pieces ha
  | case3 p stalls a ha _ _ _ later ih | case5 p stalls a ha _ _ later ih =>
    -- the text of this match, and then what the later rules classify
    obtain ⟨b, text, hb, hlast, hstate, hrest, hoffset, htile⟩ := ih h
    rw [offset_after ha] at hoffset htile
    refine ⟨b, p.rest.take a.hit.stop ++ text, ?_, hlast, hstate, ?_, ?_, ?_⟩
    · rw [List.getLast?_cons, hb, Option.getD_some]
    · rw [List.append_assoc, ← hrest, ← rest_eq_of_application? ha]
    · rw [hoffset, byteSize_append, Nat.add_assoc]
    · rw [List.flatMap_cons]
      exact (ht.tile_pieces ha).append htile

end Table

/-! ### Tokens side by side -/

/-- The tokens lie one after the other from byte `n` on, none is empty, and they make up the
text. -/
inductive Token.Tile : Nat → List Char → List Token → Prop where
  | nil (n : Nat) : Tile n [] []
  | cons {n : Nat} {t : Token} {text : List Char} {ts : List Token} : t.text ≠ "" →
      t.span = ⟨n, n + byteSize t.text.toList⟩ → Tile (n + byteSize t.text.toList) text ts →
      Tile n (t.text.toList ++ text) (t :: ts)

namespace Token

theorem Tile.snoc {n : Nat} {xs : List Char} {ts : List Token} {t : Token} (h : Tile n xs ts)
    (hne : t.text ≠ "")
    (hspan : t.span = ⟨n + byteSize xs, n + byteSize (xs ++ t.text.toList)⟩) :
    Tile n (xs ++ t.text.toList) (ts ++ [t]) := by
  induction h with
  | nil n =>
    have := Tile.cons hne (by simpa using hspan) (.nil _)
    simpa using this
  | cons hne' hspan' _ ih =>
    rw [List.append_assoc, List.cons_append]
    refine .cons hne' hspan' (ih ?_)
    simpa only [byteSize_append, Nat.add_assoc] using hspan

theorem Tile.of_snoc {n : Nat} {xs : List Char} {ts : List Token} {t : Token}
    (h : Tile n xs (ts ++ [t])) :
    ∃ ys, xs = ys ++ t.text.toList ∧ Tile n ys ts ∧ t.text ≠ "" ∧
      t.span = ⟨n + byteSize ys, n + byteSize (ys ++ t.text.toList)⟩ := by
  induction ts generalizing n xs with
  | nil =>
    cases h with
    | cons hne hspan h =>
      cases h
      exact ⟨[], by simp, .nil _, hne, by simpa using hspan⟩
  | cons u ts ih =>
    cases h with
    | cons hne hspan h =>
      obtain ⟨ys, rfl, hts, hne', hspan'⟩ := ih h
      refine ⟨u.text.toList ++ ys, by simp, .cons hne hspan hts, hne', ?_⟩
      simpa only [byteSize_append, Nat.add_assoc] using hspan'

theorem tile_push {n : Nat} {xs : List Char} {s : TokenStack} {p : Piece}
    (h : Tile n xs s.tokens.reverse) (hp : p.start = n + byteSize xs) :
    Tile n (xs ++ p.text) (s.push p).tokens.reverse := by
  by_cases hempty : p.text = []
  · simpa [TokenStack.push, hempty] using h
  have hne : String.ofList p.text ≠ "" := by simpa using hempty
  have alone : Tile n (xs ++ p.text) (s.tokens.reverse ++ [ofPiece p]) := by
    simpa [ofPiece] using h.snoc (t := ofPiece p) hne
      (by simp [ofPiece, Piece.stop, hp, Nat.add_assoc])
  rw [TokenStack.push, if_neg (by simpa using hempty)]
  split
  · rename_i t ts hts
    rw [hts, List.reverse_cons] at h alone
    split
    · -- the last token grows by the piece
      obtain ⟨ys, rfl, hys, -, hspan⟩ := h.of_snoc
      have := hys.snoc
        (t := { t with text := t.text ++ String.ofList p.text, span := ⟨t.span.start, p.stop⟩ })
        (by simp [hempty]) (by simp [Piece.stop, hp, hspan, Nat.add_assoc])
      simpa using this
    · rw [List.reverse_cons, List.reverse_cons]
      exact alone
  · rename_i hts
    rw [hts] at alone
    exact alone

/-- **Joining pieces into tokens keeps them side by side.** -/
theorem tile_ofPieces {n : Nat} {xs : List Char} {ps : List Piece} (h : Piece.Tile n xs ps) :
    Tile n xs (ofPieces ps) := by
  have key : ∀ (s : TokenStack) (m : Nat) (ys : List Char), Tile m ys s.tokens.reverse →
      n = m + byteSize ys → Tile m (ys ++ xs) (ps.foldl TokenStack.push s).tokens.reverse := by
    induction h with
    | nil n =>
      intro s m ys hs _
      simpa using hs
    | @cons n p text ps hstart _ ih =>
      intro s m ys hs hn
      rw [← List.append_assoc, List.foldl_cons]
      refine ih (s.push p) m (ys ++ p.text) (tile_push hs (hstart.trans hn)) ?_
      rw [hn, byteSize_append, Nat.add_assoc]
  simpa [ofPieces] using key {} n [] (.nil n) (by simp)

end Token

end LineLexer
