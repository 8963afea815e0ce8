import Mathlib.Data.List.SplitBy
import LineLexer.Scan

/-!
# Joining pieces into tokens

Pieces are taken one at a time, and each may lengthen the last token.  Seen as a whole, the tokens
are the maximal runs of pieces that can be joined, each made one piece; empty pieces are left out
(`Token.ofPieces_eq`).
-/

namespace LineLexer

namespace Piece

/-- The second piece lengthens a token that the first one ends. -/
def joinable (p q : Piece) : Bool := q.joins && p.joins && p.kind == q.kind && p.stop == q.start

/-- A piece made longer by others that follow it. -/
def longer (p : Piece) (ps : List Piece) : Piece := { p with text := p.text ++ ps.flatMap (·.text) }

/-- A run of pieces as one piece. -/
def merge? : List Piece → Option Piece
  | [] => none
  | p :: ps => some (p.longer ps)

/-- The pieces that are not empty. -/
def filled (ps : List Piece) : List Piece := ps.filter fun p => !p.text.isEmpty

theorem filled_append (ps qs : List Piece) : filled (ps ++ qs) = filled ps ++ filled qs :=
  List.filter_append _ _

theorem filled_cons_of_nil {p : Piece} (hp : p.text = []) (ps : List Piece) :
    filled (p :: ps) = filled ps := List.filter_cons_of_neg (by simp [hp])

theorem filled_cons_of_ne {p : Piece} (hp : p.text ≠ []) (ps : List Piece) :
    filled (p :: ps) = p :: filled ps := List.filter_cons_of_pos (by simpa using hp)

theorem joinable_iff {p q : Piece} :
    p.joinable q ↔ q.joins ∧ p.joins ∧ p.kind = q.kind ∧ p.stop = q.start := by
  simp [joinable, and_assoc]

@[simp] theorem longer_nil (p : Piece) : p.longer [] = p := by simp [longer]

theorem longer_cons (p q : Piece) (ps : List Piece) :
    p.longer (q :: ps) = (p.longer [q]).longer ps := by
  simp [longer]

theorem stop_longer_singleton {p q : Piece} (h : p.stop = q.start) :
    (p.longer [q]).stop = q.stop := by
  rw [stop] at h
  simp only [longer, stop, List.flatMap_cons, List.flatMap_nil, List.append_nil, byteSize_append]
  omega

/-- What a joined piece can be joined with is what its last part can be joined with. -/
theorem joinable_longer_singleton {p q : Piece} (h : p.joinable q) (r : Piece) :
    (p.longer [q]).joinable r = q.joinable r := by
  obtain ⟨hq, hp, hkind, hstop⟩ := joinable_iff.1 h
  have hjoins : (p.longer [q]).joins = q.joins := hp.trans hq.symm
  have hkind' : (p.longer [q]).kind = q.kind := hkind
  rw [joinable, joinable, hjoins, hkind', stop_longer_singleton hstop]

theorem isChain_longer_singleton {p q : Piece} {ps : List Piece}
    (h : (p :: q :: ps).IsChain fun p q => p.joinable q) :
    (p.longer [q] :: ps).IsChain fun p q => p.joinable q := by
  obtain ⟨hjoin, hchain⟩ := List.isChain_cons_cons.1 h
  cases ps with
  | nil => exact .singleton _
  | cons r ps =>
    obtain ⟨hnext, hchain⟩ := List.isChain_cons_cons.1 hchain
    exact List.isChain_cons_cons.2 ⟨by rwa [joinable_longer_singleton hjoin], hchain⟩

theorem stop_longer {p : Piece} {ps : List Piece}
    (h : (p :: ps).IsChain fun p q => p.joinable q) :
    (p.longer ps).stop = ((p :: ps).getLast (List.cons_ne_nil p ps)).stop := by
  induction ps generalizing p with
  | nil => simp
  | cons q ps ih =>
    obtain ⟨hjoin, -⟩ := List.isChain_cons_cons.1 h
    rw [longer_cons, ih (isChain_longer_singleton h), List.getLast_cons_cons]
    cases ps with
    | nil => exact stop_longer_singleton (joinable_iff.1 hjoin).2.2.2
    | cons q' ps => rw [List.getLast_cons_cons, List.getLast_cons_cons]

/-- The pieces of a run have one kind, and all or none of them are whole matches. -/
theorem eq_first_of_isChain {p : Piece} {ps : List Piece}
    (h : (p :: ps).IsChain fun p q => p.joinable q) :
    ∀ q ∈ p :: ps, q.kind = p.kind ∧ q.joins = p.joins := by
  induction ps generalizing p with
  | nil => simp
  | cons q ps ih =>
    obtain ⟨hjoin, hchain⟩ := List.isChain_cons_cons.1 h
    obtain ⟨hq, hp, hkind, -⟩ := joinable_iff.1 hjoin
    refine List.forall_mem_cons.2 ⟨⟨rfl, rfl⟩, ?_⟩
    intro r hr
    rw [hkind, hp.trans hq.symm]
    exact ih hchain r hr

theorem joinable_longer {p : Piece} {ps : List Piece}
    (h : (p :: ps).IsChain fun p q => p.joinable q) (r : Piece) :
    (p.longer ps).joinable r = ((p :: ps).getLast (List.cons_ne_nil p ps)).joinable r := by
  obtain ⟨hkind, hjoins⟩ := eq_first_of_isChain h _ (List.getLast_mem (List.cons_ne_nil p ps))
  rw [joinable, joinable, stop_longer h, hkind, hjoins]
  rfl

end Piece

namespace TokenStack

/-- The stack whose last token consists of the piece `p`. -/
def onTop (p : Piece) (ts : List Token) : TokenStack := ⟨Token.ofPiece p :: ts, p.joins⟩

theorem push_of_empty {p : Piece} (s : TokenStack) (hp : p.text = []) : s.push p = s := by
  rw [push, hp]
  rfl

theorem push_nil {p : Piece} (hp : p.text ≠ []) : TokenStack.push {} p = onTop p [] := by
  rw [push, if_neg (by simpa using hp)]
  rfl

variable {p q : Piece} {ts : List Token}

theorem push_of_joinable (hq : q.text ≠ []) (h : p.joinable q) :
    (onTop p ts).push q = onTop (p.longer [q]) ts := by
  have hcond : (q.joins && p.joins && p.kind == q.kind && p.stop == q.start) = true := h
  have hstop := Piece.stop_longer_singleton (Piece.joinable_iff.1 h).2.2.2
  rw [push, if_neg (by simpa using hq)]
  simp only [onTop, Token.ofPiece, hcond, ↓reduceIte]
  rw [hstop]
  simp [Piece.longer]

theorem push_of_not_joinable (hq : q.text ≠ []) (h : p.joinable q = false) :
    (onTop p ts).push q = onTop q (Token.ofPiece p :: ts) := by
  have hcond : (q.joins && p.joins && p.kind == q.kind && p.stop == q.start) = false := h
  rw [push, if_neg (by simpa using hq)]
  simp only [onTop, Token.ofPiece, hcond, Bool.false_eq_true, ↓reduceIte]

/-- A run of pieces becomes one token. -/
theorem foldl_push_of_isChain {ps : List Piece} (hps : ∀ q ∈ ps, q.text ≠ [])
    (h : (p :: ps).IsChain fun p q => p.joinable q) :
    ps.foldl push (onTop p ts) = onTop (p.longer ps) ts := by
  induction ps generalizing p with
  | nil => simp
  | cons q ps ih =>
    obtain ⟨hjoin, -⟩ := List.isChain_cons_cons.1 h
    rw [List.foldl_cons, push_of_joinable (hps q List.mem_cons_self) hjoin,
      ih (fun q' hq' => hps q' (List.mem_cons_of_mem q hq')) (Piece.isChain_longer_singleton h),
      ← Piece.longer_cons]

/-- **Runs that cannot be joined with each other become one token each.** -/
theorem foldl_push_flatten {ps : List Piece} {runs : List (List Piece)}
    (hfilled : ∀ run ∈ (p :: ps) :: runs, ∀ q ∈ run, q.text ≠ [])
    (hruns : ∀ run ∈ (p :: ps) :: runs, run.IsChain fun p q => p.joinable q)
    (hborders : ((p :: ps) :: runs).IsChain fun a b =>
      ∃ ha hb, (a.getLast ha).joinable (b.head hb) = false) :
    (runs.flatten.foldl push (onTop (p.longer ps) ts)).tokens.reverse =
      ts.reverse ++ (((p :: ps) :: runs).filterMap Piece.merge?).map Token.ofPiece := by
  induction runs generalizing p ps ts with
  | nil => simp [onTop, Piece.merge?]
  | cons run runs ih =>
    obtain ⟨⟨hne, hne', hborder⟩, hborders⟩ := List.isChain_cons_cons.1 hborders
    obtain ⟨q, qs, rfl⟩ := List.exists_cons_of_ne_nil hne'
    obtain ⟨hfilled₁, hfilled⟩ := List.forall_mem_cons.1 hfilled
    obtain ⟨hruns₁, hruns⟩ := List.forall_mem_cons.1 hruns
    have hq := hfilled _ List.mem_cons_self
    rw [← Piece.joinable_longer hruns₁, List.head_cons] at hborder
    rw [List.flatten_cons, List.foldl_append, List.foldl_cons,
      push_of_not_joinable (hq q List.mem_cons_self) hborder,
      foldl_push_of_isChain (fun q' hq' => hq q' (List.mem_cons_of_mem q hq'))
        (hruns _ List.mem_cons_self), ih hfilled hruns hborders]
    simp [Piece.merge?]

end TokenStack

namespace Token

theorem ofPieces_filled (ps : List Piece) : ofPieces (Piece.filled ps) = ofPieces ps := by
  rw [ofPieces, ofPieces, Piece.filled, List.foldl_filter]
  have hpush (s : TokenStack) (p : Piece) :
      (if !p.text.isEmpty then s.push p else s) = s.push p := by
    by_cases hp : p.text = []
    · rw [TokenStack.push_of_empty s hp, ite_self]
    · rw [if_pos (by simpa using hp)]
  simp only [hpush]

/-- **The tokens are the maximal runs of pieces that can be joined**, empty pieces left out. -/
theorem ofPieces_eq (ps : List Piece) : ofPieces ps =
    (((Piece.filled ps).splitBy Piece.joinable).filterMap Piece.merge?).map ofPiece := by
  rw [← ofPieces_filled]
  have hfilled : ∀ p ∈ Piece.filled ps, p.text ≠ [] := by simp [Piece.filled]
  generalize Piece.filled ps = ps at hfilled
  by_cases hnil : ps = []
  · rw [hnil, List.splitBy_nil]
    rfl
  have hflat := List.flatten_splitBy Piece.joinable ps
  have hborders := List.isChain_getLast_head_splitBy Piece.joinable ps
  have hruns : ∀ run ∈ ps.splitBy Piece.joinable, run.IsChain fun p q => p.joinable q :=
    fun run hrun => List.isChain_of_mem_splitBy hrun
  have hmem : ∀ run ∈ ps.splitBy Piece.joinable, ∀ p ∈ run, p.text ≠ [] := fun run hrun p hp =>
    hfilled p (hflat ▸ List.mem_flatten_of_mem hrun hp)
  have hempty := List.nil_notMem_splitBy Piece.joinable ps
  obtain ⟨run, runs, hsplit⟩ := List.exists_cons_of_ne_nil (List.splitBy_ne_nil.2 hnil)
  rw [hsplit] at hflat hborders hruns hmem hempty
  obtain ⟨p, qs, rfl⟩ := List.exists_cons_of_ne_nil fun h => hempty (h ▸ List.mem_cons_self)
  have hrun := hmem _ List.mem_cons_self
  have hfirst : ofPieces ps = ((runs.flatten.foldl TokenStack.push
      (.onTop (p.longer qs) [])).tokens.reverse) := by
    rw [ofPieces, ← hflat, List.flatten_cons, List.foldl_append, List.foldl_cons,
      TokenStack.push_nil (hrun p List.mem_cons_self),
      TokenStack.foldl_push_of_isChain (fun q hq => hrun q (List.mem_cons_of_mem p hq))
        (hruns _ List.mem_cons_self)]
  rw [hfirst, TokenStack.foldl_push_flatten hmem hruns hborders, hsplit]
  rfl

/-- A token is made of a run of neighbouring pieces that can be joined. -/
theorem exists_run_of_mem_ofPieces {ps : List Piece} {t : Token} (h : t ∈ ofPieces ps) :
    ∃ front p run back, Piece.filled ps = front ++ (p :: run) ++ back ∧
      (p :: run).IsChain (fun p q => p.joinable q) ∧ t = ofPiece (p.longer run) := by
  rw [ofPieces_eq] at h
  obtain ⟨m, hm, rfl⟩ := List.mem_map.1 h
  obtain ⟨r, hr, hmerge⟩ := List.mem_filterMap.1 hm
  have hchain := List.isChain_of_mem_splitBy hr
  obtain ⟨front, back, hsplit⟩ := List.append_of_mem hr
  have hflat := List.flatten_splitBy Piece.joinable (Piece.filled ps)
  rw [hsplit, List.flatten_append, List.flatten_cons, ← List.append_assoc] at hflat
  cases r with
  | nil => simp [Piece.merge?] at hmerge
  | cons p run =>
    obtain rfl := Option.some.inj hmerge
    exact ⟨front.flatten, p, run, back.flatten, hflat.symm, hchain, rfl⟩

/-- A token begins where a piece of its kind does. -/
theorem exists_first_of_mem_ofPieces {ps : List Piece} {t : Token} (h : t ∈ ofPieces ps) :
    ∃ p ∈ ps, t.kind = p.kind ∧ t.span.start = p.start := by
  obtain ⟨front, p, run, back, hsplit, -, rfl⟩ := exists_run_of_mem_ofPieces h
  have hmem : p ∈ Piece.filled ps := by simp [hsplit]
  exact ⟨p, List.mem_of_mem_filter hmem, rfl, rfl⟩

/-- Pieces of which no two neighbours can be joined are tokens as they are. -/
theorem ofPieces_of_isChain {ps : List Piece}
    (h : (Piece.filled ps).IsChain fun p q => p.joinable q = false) :
    ofPieces ps = (Piece.filled ps).map ofPiece := by
  have hsplit : (Piece.filled ps).splitBy Piece.joinable = (Piece.filled ps).map fun p => [p] := by
    refine List.splitBy_eq_iff.2 ⟨?_, ?_, ?_, ?_⟩
    · rw [← List.flatMap_def, List.flatMap_singleton']
    · simp
    · intro run hrun
      obtain ⟨p, -, rfl⟩ := List.mem_map.1 hrun
      exact .singleton p
    · rw [List.isChain_map]
      exact h.imp fun p q hpq => ⟨List.cons_ne_nil p [], List.cons_ne_nil q [], hpq⟩
  have hmerge : Piece.merge? ∘ (fun p => [p]) = some := by
    funext p
    simp [Piece.merge?]
  rw [ofPieces_eq, hsplit, List.filterMap_map, hmerge, List.filterMap_some]

/-- **Tokens of two lists of pieces are those of each**, unless the two are joined. -/
theorem ofPieces_append {ps qs : List Piece}
    (h : ∀ p ∈ (Piece.filled ps).getLast?, ∀ q ∈ (Piece.filled qs).head?, p.joinable q = false) :
    ofPieces (ps ++ qs) = ofPieces ps ++ ofPieces qs := by
  rw [ofPieces_eq, ofPieces_eq, ofPieces_eq, Piece.filled_append, List.splitBy_append h,
    List.filterMap_append, List.map_append]

/-- A run of pieces is one token. -/
theorem ofPieces_of_run {p : Piece} {ps : List Piece} (hfilled : ∀ q ∈ p :: ps, q.text ≠ [])
    (h : (p :: ps).IsChain fun p q => p.joinable q) :
    ofPieces (p :: ps) = [ofPiece (p.longer ps)] := by
  have hself : Piece.filled (p :: ps) = p :: ps := by
    rw [Piece.filled, List.filter_eq_self]
    intro q hq
    simpa using hfilled q hq
  rw [ofPieces_eq, hself, List.splitBy_of_isChain (List.cons_ne_nil p ps) h]
  rfl

end Token

/-! ### Characters of one kind -/

namespace Piece

/-- A piece of one character for each character, from byte `n` on. -/
def singles (kind : Kind) (n : Nat) : List Char → List Piece
  | [] => []
  | c :: cs => ⟨kind, [c], n, true⟩ :: singles kind (n + c.utf8Size) cs

theorem text_ne_nil_of_mem_singles {kind : Kind} {n : Nat} {cs : List Char} {p : Piece}
    (h : p ∈ singles kind n cs) : p.text ≠ [] := by
  induction cs generalizing n with
  | nil => simp [singles] at h
  | cons c cs ih =>
    rcases List.mem_cons.1 h with rfl | h
    · exact List.cons_ne_nil c []
    · exact ih h

theorem isChain_singles (kind : Kind) (n : Nat) (cs : List Char) :
    (singles kind n cs).IsChain fun p q => p.joinable q := by
  induction cs generalizing n with
  | nil => exact .nil
  | cons c cs ih =>
    cases cs with
    | nil => exact .singleton _
    | cons d cs =>
      have hjoin : joinable ⟨kind, [c], n, true⟩ ⟨kind, [d], n + c.utf8Size, true⟩ :=
        joinable_iff.2 ⟨rfl, rfl, rfl, by simp [stop]⟩
      exact List.isChain_cons_cons.2 ⟨hjoin, ih _⟩

theorem longer_singles (p : Piece) (kind : Kind) (n : Nat) (cs : List Char) :
    p.longer (singles kind n cs) = { p with text := p.text ++ cs } := by
  have htext : (singles kind n cs).flatMap (·.text) = cs := by
    induction cs generalizing n with
    | nil => rfl
    | cons c cs ih =>
      rw [singles, List.flatMap_cons, ih]
      rfl
  rw [longer, htext]

theorem kind_of_mem_singles {kind : Kind} {n : Nat} {cs : List Char} {p : Piece}
    (h : p ∈ singles kind n cs) : p.kind = kind := by
  induction cs generalizing n with
  | nil => simp [singles] at h
  | cons c cs ih =>
    rcases List.mem_cons.1 h with rfl | h
    · rfl
    · exact ih h

end Piece

namespace Token

/-- A piece by itself is one token, unless it is empty. -/
theorem ofPieces_singleton (p : Piece) :
    ofPieces [p] = [ofPiece p].filter fun t => t.text ≠ "" := by
  by_cases hp : p.text = []
  · rw [ofPieces, List.foldl_cons, List.foldl_nil, TokenStack.push_of_empty _ hp]
    simp [ofPiece, hp]
  · have hrun := ofPieces_of_run (by simpa using hp) (.singleton p)
    rw [hrun, Piece.longer_nil]
    simp [ofPiece, hp]

/-- Characters of one kind are one token, if there are any. -/
theorem ofPieces_singles (kind : Kind) (n : Nat) (cs : List Char) :
    ofPieces (Piece.singles kind n cs) =
      [ofPiece ⟨kind, cs, n, true⟩].filter fun t => t.text ≠ "" := by
  cases cs with
  | nil => simp [Piece.singles, ofPieces, ofPiece]
  | cons c cs =>
    have hfilled : ∀ q ∈ Piece.singles kind n (c :: cs), q.text ≠ [] :=
      fun q hq => Piece.text_ne_nil_of_mem_singles hq
    have hrun := ofPieces_of_run hfilled (Piece.isChain_singles kind n (c :: cs))
    rw [Piece.longer_singles] at hrun
    rw [Piece.singles, hrun]
    simp [ofPiece]

end Token

end LineLexer
