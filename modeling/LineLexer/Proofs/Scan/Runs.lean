import LineLexer.Proofs.Scan.Along
import LineLexer.Proofs.Scan.Coverage

/-!
# Tokens as maximal runs of pieces

Tokens are made piece by piece, but can be told from all pieces of a line at once.  Leave out the
empty ones and cut the others into maximal runs of pieces that can be joined (`Piece.Runs`): there
is one way to do so (`Piece.runs_iff`), and every run is a token (`Token.forall₂_ofRun_iff`).  For
a scan this is `Table.runs_of_scanLine`.
-/

namespace LineLexer

variable {ps run : List Piece} {runs : List (List Piece)} {p q : Piece}

/-! ### Runs -/

namespace Piece

/-- The pieces that are not empty, cut into maximal runs of pieces that can be joined. -/
structure Runs (ps : List Piece) (runs : List (List Piece)) : Prop where
  flatten_eq : runs.flatten = filled ps
  nil_notMem : [] ∉ runs
  joined : ∀ run ∈ runs, run.IsChain fun p q => p.joinable q
  /-- The last piece of a run cannot be joined with the first one of the next run. -/
  maximal : runs.IsChain fun run next =>
    ∃ h h', (run.getLast h).joinable (next.head h') = false

/-- **There is one way to cut pieces into maximal runs.** -/
theorem runs_iff : Runs ps runs ↔ runs = (filled ps).splitBy joinable := by
  rw [eq_comm, List.splitBy_eq_iff]
  constructor
  · rintro ⟨hflatten, hne, hjoined, hmaximal⟩
    exact ⟨hflatten.symm, hne, hjoined, hmaximal⟩
  · rintro ⟨hflatten, hne, hjoined, hmaximal⟩
    exact ⟨hflatten.symm, hne, hjoined, hmaximal⟩

/-- A piece that is not joined is a run by itself. -/
theorem eq_singleton_of_isChain (h : run.IsChain fun p q => p.joinable q) (hp : p ∈ run)
    (hjoins : p.joins = false) : run = [p] := by
  match run with
  | [q] => rw [List.mem_singleton.1 hp]
  | q :: r :: run =>
    obtain ⟨hjoin, -⟩ := List.isChain_cons_cons.1 h
    have hjoins' := (eq_first_of_isChain h p hp).2.trans (joinable_iff.1 hjoin).2.1
    rw [hjoins] at hjoins'
    exact absurd hjoins' Bool.false_ne_true

/-- Neighbours that can be joined are neighbours in one run. -/
theorem exists_infix_of_joinable {front back : List Piece} (hne : [] ∉ runs)
    (hmaximal : runs.IsChain fun run next =>
      ∃ h h', (run.getLast h).joinable (next.head h') = false)
    (hflatten : runs.flatten = front ++ p :: q :: back) (hjoin : p.joinable q) :
    ∃ run ∈ runs, [p, q] <:+: run := by
  induction runs generalizing front with
  | nil => simp at hflatten
  | cons run runs ih =>
    have hlater (front : List Piece) (h : runs.flatten = front ++ p :: q :: back) :
        ∃ r ∈ run :: runs, [p, q] <:+: r := by
      obtain ⟨run', hrun', hinfix⟩ := ih (fun h => hne (List.mem_cons_of_mem run h)) hmaximal.tail h
      exact ⟨run', List.mem_cons_of_mem run hrun', hinfix⟩
    rw [List.flatten_cons, List.append_eq_append_iff] at hflatten
    obtain ⟨before, -, hrest⟩ | ⟨behind, hrun, hrest⟩ := hflatten
    · exact hlater before hrest
    match behind with
    | [] => exact hlater [] hrest.symm
    | [r] =>
      -- the run would end between the two
      obtain ⟨rfl, hnext⟩ := List.cons.inj hrest
      cases runs with
      | nil => simp at hnext
      | cons next runs =>
        obtain ⟨⟨hrun', hnext', hborder⟩, -⟩ := List.isChain_cons_cons.1 hmaximal
        obtain ⟨r, rs, rfl⟩ := List.exists_cons_of_ne_nil hnext'
        obtain ⟨rfl, -⟩ := List.cons.inj hnext
        simp [hrun, hjoin] at hborder
    | r :: r' :: behind =>
      simp only [List.cons_append, List.cons.injEq] at hrest
      obtain ⟨rfl, rfl, -⟩ := hrest
      exact ⟨run, List.mem_cons_self, front, behind, by simp [hrun]⟩

namespace Runs

theorem mem_of_mem (h : Runs ps runs) (hrun : run ∈ runs) (hp : p ∈ run) : p ∈ ps :=
  List.mem_of_mem_filter (h.flatten_eq ▸ List.mem_flatten_of_mem hrun hp : p ∈ filled ps)

/-- **Empty pieces do not break a run.** -/
theorem exists_infix (h : Runs ps runs) {front between back : List Piece}
    (hps : ps = front ++ p :: (between ++ q :: back)) (hbetween : ∀ r ∈ between, r.text = [])
    (hp : p.text ≠ []) (hq : q.text ≠ []) (hjoin : p.joinable q) :
    ∃ run ∈ runs, [p, q] <:+: run := by
  have hfilled : filled ps = filled front ++ p :: q :: filled back := by
    have hnone : filled between = [] := List.filter_eq_nil_iff.2 (by simpa using hbetween)
    rw [hps, filled_append, filled_cons_of_ne hp, filled_append, hnone, List.nil_append,
      filled_cons_of_ne hq]
  exact exists_infix_of_joinable h.nil_notMem h.maximal (h.flatten_eq.trans hfilled) hjoin

end Runs

end Piece

/-! ### Tokens of runs -/

namespace Token

/-- The token has the kind of all pieces of a run, and reaches from the first to the last. -/
structure OfRun (run : List Piece) (t : Token) : Prop where
  kind : ∀ p ∈ run, p.kind = t.kind
  text : t.text.toList = run.flatMap (·.text)
  start : ∀ p ∈ run.head?, t.span.start = p.start
  stop : ∀ p ∈ run.getLast?, t.span.stop = p.stop

theorem ofRun_iff {t : Token} (h : (p :: ps).IsChain fun p q => p.joinable q) :
    OfRun (p :: ps) t ↔ t = ofPiece (p.longer ps) := by
  have hlast : (p :: ps).getLast? = some ((p :: ps).getLast (List.cons_ne_nil p ps)) :=
    List.getLast?_eq_some_getLast _
  constructor
  · rintro ⟨hkind, htext, hstart, hstop⟩
    obtain ⟨kind, text, start, stop⟩ := t
    obtain rfl : p.kind = kind := hkind p List.mem_cons_self
    obtain rfl : start = p.start := hstart p rfl
    have hstop' : stop = (p.longer ps).stop := (hstop _ hlast).trans (Piece.stop_longer h).symm
    have htext' : text = String.ofList (p.longer ps).text := String.toList_inj.1 (by
      rw [htext, String.toList_ofList]
      rfl)
    rw [hstop', htext']
    rfl
  · rintro rfl
    refine ⟨fun q hq => (Piece.eq_first_of_isChain h q hq).1, String.toList_ofList, ?_, ?_⟩
    · rintro _ ⟨⟩
      rfl
    · intro q hq
      obtain rfl := Option.some.inj (hlast.symm.trans hq)
      exact Piece.stop_longer h

/-- **The tokens of maximal runs**, one for each, are those that the pieces are made into. -/
theorem forall₂_ofRun_iff {ts : List Token} (h : Piece.Runs ps runs) :
    List.Forall₂ OfRun runs ts ↔ ts = ofPieces ps := by
  rw [ofPieces_eq, ← Piece.runs_iff.1 h]
  have hne := h.nil_notMem
  have hjoined := h.joined
  clear h
  induction runs generalizing ts with
  | nil => simp
  | cons run runs ih =>
    obtain ⟨p, ps, rfl⟩ := List.exists_cons_of_ne_nil fun h => hne (h ▸ List.mem_cons_self)
    obtain ⟨hrun, hruns⟩ := List.forall_mem_cons.1 hjoined
    have hnes : [] ∉ runs := fun h => hne (List.mem_cons_of_mem _ h)
    have hmerge : Piece.merge? (p :: ps) = some (p.longer ps) := rfl
    rw [List.forall₂_cons_left_iff, List.filterMap_cons_some hmerge, List.map_cons]
    constructor
    · rintro ⟨t, ts, htoken, htokens, rfl⟩
      rw [(ofRun_iff hrun).1 htoken, (ih hnes hruns).1 htokens]
    · rintro rfl
      exact ⟨_, _, (ofRun_iff hrun).2 rfl, (ih hnes hruns).2 rfl, rfl⟩

theorem OfRun.eq_ofPiece {t : Token} (h : OfRun run t)
    (hrun : run.IsChain fun p q => p.joinable q) (hp : p ∈ run) (hjoins : p.joins = false) :
    t = ofPiece p := by
  obtain rfl := Piece.eq_singleton_of_isChain hrun hp hjoins
  rw [(ofRun_iff hrun).1 h, Piece.longer_nil]

/-- Tokens of two neighbouring runs touch in one kind only if one of them is a piece that is not
joined. -/
theorem OfRun.exists_not_joins {next : List Piece} {t u : Token} (ht : OfRun run t)
    (hu : OfRun next u) (hrun : run.IsChain fun p q => p.joinable q)
    (hnext : next.IsChain fun p q => p.joinable q)
    (hborder : ∃ h h', (run.getLast h).joinable (next.head h') = false)
    (hkind : t.kind = u.kind) (htouch : t.span.stop = u.span.start) :
    ∃ p ∈ run ++ next, p.joins = false ∧ (t = ofPiece p ∨ u = ofPiece p) := by
  obtain ⟨hne, hne', hborder⟩ := hborder
  have hlast := List.getLast_mem hne
  have hfirst := List.head_mem hne'
  have hkinds : (run.getLast hne).kind = (next.head hne').kind := by
    rw [ht.kind _ hlast, hu.kind _ hfirst, hkind]
  have htouches : (run.getLast hne).stop = (next.head hne').start := by
    rw [← ht.stop _ (List.getLast_mem_getLast? hne), htouch, hu.start _ (List.head_mem_head? hne')]
  by_cases hjoins : (run.getLast hne).joins
  · have hjoins' : (next.head hne').joins = false := by
      rw [Bool.eq_false_iff]
      intro hjoins'
      have hjoin := Piece.joinable_iff.2 ⟨hjoins', hjoins, hkinds, htouches⟩
      rw [hborder] at hjoin
      exact Bool.false_ne_true hjoin
    exact ⟨_, List.mem_append_right run hfirst, hjoins', .inr (hu.eq_ofPiece hnext hfirst hjoins')⟩
  · rw [Bool.not_eq_true] at hjoins
    exact ⟨_, List.mem_append_left next hlast, hjoins, .inl (ht.eq_ofPiece hrun hlast hjoins)⟩

/-- **Neighbouring tokens touch in one kind only if one of them is a piece that is not joined.** -/
theorem isChain_of_forall₂ {ts : List Token} (hruns : Piece.Runs ps runs)
    (hts : List.Forall₂ OfRun runs ts) :
    ts.IsChain fun t u => t.kind = u.kind → t.span.stop = u.span.start →
      ∃ p ∈ ps, p.joins = false ∧ (t = ofPiece p ∨ u = ofPiece p) := by
  have hmem : ∀ run ∈ runs, ∀ p ∈ run, p ∈ ps := fun _ hrun _ hp => hruns.mem_of_mem hrun hp
  have hjoined := hruns.joined
  have hmaximal := hruns.maximal
  clear hruns
  induction hts with
  | nil => exact .nil
  | @cons run t runs ts ht hts ih =>
    obtain ⟨hrun, hruns⟩ := List.forall_mem_cons.1 hjoined
    obtain ⟨hin, hins⟩ := List.forall_mem_cons.1 hmem
    have hlater := ih hins hruns hmaximal.tail
    cases hts with
    | nil => exact .singleton t
    | @cons next u _ _ hu _ =>
      obtain ⟨hborder, -⟩ := List.isChain_cons_cons.1 hmaximal
      refine List.isChain_cons_cons.2 ⟨?_, hlater⟩
      intro hkind htouch
      obtain ⟨p, hp, hjoins, htoken⟩ := ht.exists_not_joins hu hrun (hruns next List.mem_cons_self)
        hborder hkind htouch
      refine ⟨p, ?_, hjoins, htoken⟩
      exact (List.mem_append.1 hp).elim (hin p) (hins next List.mem_cons_self p)

end Token

/-! ### Runs of a scan -/

/-- A rule makes one piece of its match, which may be joined, or pieces for its groups, which may
not. -/
theorem Application.pieces_cases (lexicon : Lexicon) (a : Application) :
    (∃ kind, a.pieces lexicon = [a.piece kind true a.hit.start a.hit.stop]) ∨
      (∃ kinds, a.rule.text.classification = .perGroup kinds) ∧
        ∀ p ∈ a.pieces lexicon, p.joins = false := by
  rw [pieces]
  split
  · exact .inl ⟨_, rfl⟩
  · exact .inl ⟨_, rfl⟩
  · rename_i kinds hkinds
    exact .inr ⟨⟨kinds, hkinds⟩, fun p hp => joins_of_mem_groupPieces hp⟩

namespace Table

/-- The pieces that the rules applied in a scan make, in order. -/
def pieces (t : Table) (line : String) (state : State) : List Piece :=
  (t.scan line state).applications.flatMap (Application.pieces t.lexicon)

/-- **The tokens of a line are the maximal runs of its pieces**, empty pieces left out, in any
table and wherever a scan comes to an end.  So a piece of a group is a token by itself, an empty
piece does not keep its neighbours apart, and tokens that touch in one kind are not both made of
whole matches. -/
theorem runs_of_scanLine {t : Table} {line : String} {state : State} {l : ScannedLine}
    (h : t.scanLine line state = .ok l) : ∃ runs,
      (∀ runs', Piece.Runs (t.pieces line state) runs' ↔ runs' = runs) ∧
      (∀ ts, List.Forall₂ Token.OfRun runs ts ↔ ts = l.tokens) ∧
      (∀ a ∈ (t.scan line state).applications,
        (∃ kind, a.pieces t.lexicon = [a.piece kind true a.hit.start a.hit.stop]) ∨
          (∃ kinds, a.rule.text.classification = .perGroup kinds) ∧
            ∀ p ∈ a.pieces t.lexicon, p.joins = false) ∧
      (∀ run ∈ runs, ∀ p ∈ run, p.joins = false → run = [p]) ∧
      (∀ front between back p q,
        t.pieces line state = front ++ p :: (between ++ q :: back) →
        (∀ r ∈ between, r.text = []) → p.text ≠ [] → q.text ≠ [] → p.joinable q →
        ∃ run ∈ runs, [p, q] <:+: run) ∧
      l.tokens.IsChain fun a b => a.kind = b.kind → a.span.stop = b.span.start →
        ∃ p ∈ t.pieces line state, p.joins = false ∧ (a = .ofPiece p ∨ b = .ofPiece p) := by
  obtain ⟨state', -, rfl⟩ := Outcome.map_eq_ok_iff.1 h
  have hruns : Piece.Runs (t.pieces line state)
      ((Piece.filled (t.pieces line state)).splitBy Piece.joinable) := Piece.runs_iff.2 rfl
  refine ⟨_, fun _ => Piece.runs_iff, fun _ => Token.forall₂_ofRun_iff hruns,
    fun a _ => a.pieces_cases _, ?_, ?_, ?_⟩
  · intro run hrun p hp hjoins
    exact Piece.eq_singleton_of_isChain (hruns.joined run hrun) hp hjoins
  · intro front between back p q hpieces hbetween hp hq hjoin
    exact hruns.exists_infix hpieces hbetween hp hq hjoin
  · exact Token.isChain_of_forall₂ hruns ((Token.forall₂_ofRun_iff hruns).2 rfl)

end Table

namespace TableDraft

/-- A draft in which every `x` is followed by an empty piece and `yz` is two pieces, all of them of
one kind. -/
def joinsDraft : TableDraft :=
  TableDraft.new .builtin
    |>.add .start [.goto (.single .string "x") .quotedString,
      .perGroup [.string, .string] "(y)(z)", .single .empty "$",
      .asFallback (.single .text "(?s).")]
    |>.add .quotedString [.single .string "v", .single .empty "$",
      .asFallback (.goto (.single .text "") .start)]
    |>.add .doubleQuotedString (catchAll "(?s).")
    |>.add .functionArguments (catchAll "(?s).")

/-- Both of the first two pieces are in one token, and the others are not joined. -/
theorem joinsDraft_runs : ∃ t l runs, joinsDraft.build = .ok t ∧
    t.scanLine "xxyzx" .start = .ok l ∧
    l.tokens = [⟨.string, "xx", ⟨0, 2⟩⟩, ⟨.string, "y", ⟨2, 3⟩⟩, ⟨.string, "z", ⟨3, 4⟩⟩,
      ⟨.string, "x", ⟨4, 5⟩⟩] ∧
    Piece.Runs (t.pieces "xxyzx" .start) runs ∧ List.Forall₂ Token.OfRun runs l.tokens ∧
    (∃ run ∈ runs, [⟨.string, ['x'], 0, true⟩, ⟨.string, ['x'], 1, true⟩] <:+: run) ∧
    ∀ run ∈ runs, ∀ p ∈ run, p.joins = false → run = [p] := by
  have hscan : joinsDraft.build.map (fun t => (t.scanLine "xxyzx" .start,
      (t.pieces "xxyzx" .start).take 3)) =
      .ok (.ok ⟨[⟨.string, "xx", ⟨0, 2⟩⟩, ⟨.string, "y", ⟨2, 3⟩⟩, ⟨.string, "z", ⟨3, 4⟩⟩,
        ⟨.string, "x", ⟨4, 5⟩⟩], .quotedString⟩, [⟨.string, ['x'], 0, true⟩, ⟨.text, [], 1, true⟩,
        ⟨.string, ['x'], 1, true⟩]) := by
    decide +kernel
  obtain ⟨t, ht, heq⟩ := Outcome.map_eq_ok_iff.1 hscan
  obtain ⟨hline, hpieces⟩ := Prod.mk.inj heq
  obtain ⟨runs, hruns, htokens, -, hgroups, hempty, -⟩ := Table.runs_of_scanLine hline
  have hfront := List.take_append_drop 3 (t.pieces "xxyzx" .start)
  rw [hpieces] at hfront
  exact ⟨t, _, runs, ht, hline, rfl, (hruns runs).2 rfl, (htokens _).2 rfl,
    hempty [] [⟨.text, [], 1, true⟩] _ _ _ hfront.symm (by decide) (by decide) (by decide)
      (by decide), hgroups⟩

end TableDraft

end LineLexer
