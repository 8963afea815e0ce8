import LineLexer.Proofs.EncryScript.Headers
import LineLexer.Proofs.EncryScript.Total
import LineLexer.Proofs.Scan.Handover

/-!
# Lists of parameters

In the state of parameters a line is read from the left as long as parameters with their types and
what separates them follow each other (`Taken`); every text can be read so in one way only
(`exists_taken`, `Taken.unique`).  What is read has the tokens of its items, and where nothing more
can be read the rest of the line is scanned as a line by itself
(`EncryScript.scanLine_functionArguments`).
-/

namespace LineLexer

namespace EncryScript

open Pattern Grammar

/-! ### Items -/

/-- An item of a list of parameters: a parameter with its type, or what separates parameters. -/
inductive ListItem where
  | parameter (x : Parameter)
  | separator (w : String)

namespace ListItem

/-- The item as it is written. -/
def written : ListItem → String
  | .parameter x => x.written
  | .separator w => w

/-- The parts of the item with their kinds. -/
def lexemes : ListItem → List (Kind × String)
  | .parameter x => x.lexemes
  | .separator w => [(.punctuation, w)]

/-- The items as they are written. -/
def writtenAll (items : List ListItem) : String := String.join (items.map written)

end ListItem

/-- The items are taken from the left of the text and leave `rest`: a parameter wherever one stands,
as many separators as there are elsewhere, and nothing more only where neither follows. -/
inductive Taken (types : List String) : List Char → List ListItem → List Char → Prop where
  | parameter {text name type after rest : List Char} {n : Nat} {items : List ListItem} :
      ParameterAt types text name n type after → Taken types after items rest →
      Taken types text (.parameter ⟨String.ofList name, n, String.ofList type⟩ :: items) rest
  | separator {text w after rest : List Char} {items : List ListItem} : NoParameter types text →
      text = w ++ after → w ≠ [] → (∀ c ∈ w, isSeparator c) →
      (∀ c ∈ after.head?, isSeparator c = false) → Taken types after items rest →
      Taken types text (.separator (String.ofList w) :: items) rest
  | stop {rest : List Char} : NoParameter types rest → (∀ c ∈ rest.head?, isSeparator c = false) →
      Taken types rest [] rest

variable {v : Vocabulary} {types : List String} {text w name type after rest : List Char} {n : Nat}
  {items : List ListItem} {state : State}

/-! ### Every text is taken in one way -/

/-- **Items can be taken from every text.** -/
theorem exists_taken (types : List String) (text : List Char) :
    ∃ items rest, Taken types text items rest := by
  generalize hlen : text.length = k
  induction k using Nat.strongRecOn generalizing text with
  | ind k ih =>
    by_cases hparameter : ∃ name n type after, ParameterAt types text name n type after
    · obtain ⟨name, n, type, after, hparameter⟩ := hparameter
      obtain ⟨items, rest, htaken⟩ := ih _ (hlen ▸ hparameter.length_lt) after rfl
      exact ⟨_, rest, .parameter hparameter htaken⟩
    have hnone : NoParameter types text := by
      intro name n type after h
      exact hparameter ⟨name, n, type, after, h⟩
    by_cases hstop : ∀ c ∈ text.head?, isSeparator c = false
    · exact ⟨[], text, .stop hnone hstop⟩
    obtain ⟨w, after, rfl, hw, hafter⟩ := exists_run isSeparator text
    have hne : w ≠ [] := by
      rintro rfl
      exact hstop hafter
    have hlt : after.length < k := by
      have hpos := List.length_pos_iff.2 hne
      rw [List.length_append] at hlen
      omega
    obtain ⟨items, rest, htaken⟩ := ih _ hlt after rfl
    exact ⟨_, rest, .separator hnone rfl hne hw hafter htaken⟩

/-- **Items are taken from a text in one way only.** -/
theorem Taken.unique (htypes : ∀ w ∈ types, isIdentifier w) {items' : List ListItem}
    {rest' : List Char} (h : Taken types text items rest) (h' : Taken types text items' rest') :
    items = items' ∧ rest = rest' := by
  induction h generalizing items' with
  | parameter hparameter _ ih =>
    cases h' with
    | parameter hparameter' htaken' =>
      obtain ⟨rfl, rfl, rfl, rfl⟩ := hparameter.unique htypes hparameter'
      obtain ⟨rfl, rfl⟩ := ih htaken'
      exact ⟨rfl, rfl⟩
    | separator hnone => exact absurd hparameter (hnone _ _ _ _)
    | stop hnone => exact absurd hparameter (hnone _ _ _ _)
  | separator hnone htext hne hw hafter _ ih =>
    cases h' with
    | parameter hparameter => exact absurd hparameter (hnone _ _ _ _)
    | separator _ htext' _ hw' hafter' htaken' =>
      obtain ⟨rfl, rfl⟩ := eq_of_run (htext.symm.trans htext') hw hafter hw' hafter'
      obtain ⟨rfl, rfl⟩ := ih htaken'
      exact ⟨rfl, rfl⟩
    | stop _ hhead =>
      obtain ⟨c, cs, rfl⟩ := List.exists_cons_of_ne_nil hne
      have hsep := hw c List.mem_cons_self
      rw [hhead c (by rw [htext]; rfl)] at hsep
      exact absurd hsep Bool.false_ne_true
  | stop hnone hhead =>
    cases h' with
    | parameter hparameter => exact absurd hparameter (hnone _ _ _ _)
    | separator _ htext hne hw =>
      obtain ⟨c, cs, rfl⟩ := List.exists_cons_of_ne_nil hne
      have hsep := hw c List.mem_cons_self
      rw [hhead c (by rw [htext]; rfl)] at hsep
      exact absurd hsep Bool.false_ne_true
    | stop => exact ⟨rfl, rfl⟩

/-- The items as they are written, and the rest, are the text. -/
theorem Taken.text_eq (h : Taken types text items rest) :
    text = (ListItem.writtenAll items).toList ++ rest := by
  induction h with
  | parameter hparameter _ ih =>
    rw [hparameter.text_eq, ih]
    simp [ListItem.writtenAll, ListItem.written, toList_written]
  | separator _ htext _ _ _ _ ih =>
    rw [htext, ih]
    simp [ListItem.writtenAll, ListItem.written]
  | stop => simp [ListItem.writtenAll]

/-! ### The pieces of the items -/

namespace ListItem

/-- The pieces of an item from byte `n` on. -/
def pieces (n : Nat) : ListItem → List Piece
  | .parameter x => Piece.row n ([Kind.parameterName, .punctuation, .whitespace, .builtinType].zip
      (parameterTexts x.name.toList x.spaces x.type.toList))
  | .separator w => [⟨.punctuation, w.toList, n, true⟩]

/-- The pieces of items side by side from byte `n` on. -/
def piecesAll (n : Nat) : List ListItem → List Piece
  | [] => []
  | item :: items => item.pieces n ++ piecesAll (n + byteSize item.written.toList) items

theorem toList_writtenAll_cons (item : ListItem) (items : List ListItem) :
    (writtenAll (item :: items)).toList = item.written.toList ++ (writtenAll items).toList := by
  simp [writtenAll]

theorem tile_pieces (n : Nat) (item : ListItem) :
    Piece.Tile n item.written.toList (item.pieces n) := by
  cases item with
  | parameter x =>
    have hrow := Piece.tile_row n ([Kind.parameterName, .punctuation, .whitespace, .builtinType].zip
      (parameterTexts x.name.toList x.spaces x.type.toList))
    rw [written, toList_written]
    exact hrow
  | separator w =>
    have hone := Piece.Tile.cons (p := ⟨.punctuation, w.toList, n, true⟩) rfl (.nil _)
    rwa [List.append_nil] at hone

theorem tile_piecesAll (n : Nat) (items : List ListItem) :
    Piece.Tile n (writtenAll items).toList (piecesAll n items) := by
  induction items generalizing n with
  | nil => exact .nil n
  | cons item items ih =>
    rw [toList_writtenAll_cons]
    exact (item.tile_pieces n).append (ih _)

/-- A piece of an item that may be joined is a separator. -/
theorem kind_of_mem_piecesAll {p : Piece} (hp : p ∈ piecesAll n items) (hjoins : p.joins) :
    p.kind = .punctuation := by
  induction items generalizing n with
  | nil => simp [piecesAll] at hp
  | cons item items ih =>
    rcases List.mem_append.1 hp with hp | hp
    · cases item with
      | parameter x =>
        rw [Piece.joins_of_mem_row hp] at hjoins
        exact Bool.noConfusion hjoins
      | separator w =>
        obtain rfl := List.mem_singleton.1 hp
        rfl
    · exact ih hp

end ListItem

theorem Taken.pairs_piecesAll (hv : v.Valid) (h : Taken v.types text items rest) (n : Nat) :
    Piece.pairs (ListItem.piecesAll n items) = items.flatMap ListItem.lexemes := by
  induction h generalizing n with
  | stop => rfl
  | @separator _ w _ _ _ _ _ hne _ _ _ ih =>
    have hw : (String.ofList w).toList ≠ [] := by rwa [String.toList_ofList]
    rw [ListItem.piecesAll, Piece.pairs_append, ih, List.flatMap_cons, ListItem.pieces,
      Piece.pairs_singleton hw, String.ofList_toList]
    rfl
  | @parameter _ name type _ _ m _ hparameter _ ih =>
    have htype : String.ofList type ∈ v.words .types := hparameter.mem_types
    have hpairs := pairs_parameter (x := ⟨String.ofList name, m, String.ofList type⟩)
      hparameter.isIdentifier_name (hv.isIdentifier htype) n
    rw [ListItem.piecesAll, Piece.pairs_append, ih, List.flatMap_cons, ListItem.pieces, hpairs]
    rfl

/-- The first part of what is taken is the name of a parameter or consists of separators. -/
theorem Taken.kind_head (h : Taken types text items rest) :
    ∀ f ∈ (items.flatMap ListItem.lexemes).head?,
      f.1 = .parameterName ∨ f.1 = .punctuation ∧ ∃ c ∈ text.head?, isSeparator c := by
  intro f hf
  cases h with
  | stop => simp at hf
  | parameter =>
    obtain rfl : _ = f := by simpa [ListItem.lexemes, Parameter.lexemes] using hf
    exact .inl rfl
  | separator _ htext hne hw =>
    obtain rfl : _ = f := by simpa [ListItem.lexemes] using hf
    obtain ⟨c, cs, rfl⟩ := List.exists_cons_of_ne_nil hne
    exact .inr ⟨rfl, c, by rw [htext]; rfl, hw c List.mem_cons_self⟩

theorem Parameter.getLast?_lexemes (x : Parameter) :
    x.lexemes.getLast? = some (.builtinType, x.type) := by
  rw [lexemes, List.getLast?_concat]

/-- The kinds of neighbouring parts differ: separators are taken all at once. -/
theorem Taken.isChain_lexemes (h : Taken types text items rest) :
    (items.flatMap ListItem.lexemes).IsChain fun f g => f.1 ≠ g.1 := by
  induction h with
  | stop => exact .nil
  | @parameter _ _ _ _ _ n _ _ htaken ih =>
    rw [List.flatMap_cons]
    refine List.isChain_append.2 ⟨?_, ih, ?_⟩
    · by_cases hspaces : n = 0
      · simp [ListItem.lexemes, Parameter.lexemes, hspaces]
      · simp [ListItem.lexemes, Parameter.lexemes, hspaces]
    · intro f hf g hg
      rw [ListItem.lexemes, Parameter.getLast?_lexemes] at hf
      obtain rfl := Option.some.inj hf
      rcases htaken.kind_head g hg with hkind | ⟨hkind, -⟩ <;> simp [hkind]
  | separator _ _ _ _ hafter htaken ih =>
    rw [List.flatMap_cons]
    refine List.isChain_append.2 ⟨.singleton _, ih, ?_⟩
    intro f hf g hg
    obtain rfl : _ = f := by simpa [ListItem.lexemes] using hf
    rcases htaken.kind_head g hg with hkind | ⟨-, c, hc, hsep⟩
    · simp [hkind]
    · rw [hafter c hc] at hsep
      exact absurd hsep Bool.false_ne_true

/-- **What is taken is yielded.** -/
theorem Taken.yields (hv : v.Valid) (h : Taken v.types text items rest) (n : Nat) {qs : List Piece}
    (hrest : (tableOf v).Yields 0
      ⟨.functionArguments, n + byteSize (ListItem.writtenAll items).toList, rest⟩ qs state) :
    (tableOf v).Yields 0 ⟨.functionArguments, n, text⟩ (ListItem.piecesAll n items ++ qs)
      state := by
  induction h generalizing n with
  | stop => exact hrest
  | @separator _ w after rest items hnone htext hne hw hafter _ ih =>
    have happlied := application?_separators hv (htext ▸ hnone) hne hw hafter n
    rw [ListItem.toList_writtenAll_cons, byteSize_append, ← Nat.add_assoc] at hrest
    have hlater := ih _ hrest
    rw [ListItem.piecesAll, ListItem.pieces, htext]
    rw [ListItem.written, String.toList_ofList] at hlater ⊢
    exact .step_single happlied rfl rfl rfl rfl hne hlater
  | @parameter text name type after rest k items hparameter _ ih =>
    have happlied := application?_parameterAt hv hparameter n
    rw [hparameter.text_eq] at happlied
    rw [ListItem.toList_writtenAll_cons, byteSize_append, ← Nat.add_assoc] at hrest
    have hlater := ih _ hrest
    rw [ListItem.piecesAll, ListItem.pieces, hparameter.text_eq, List.append_assoc]
    rw [ListItem.written, toList_written, String.toList_ofList, String.toList_ofList] at hlater ⊢
    exact .step_groups happlied rfl rfl rfl (by simp [parameterTexts]) hlater

/-! ### Where the items end -/

theorem Taken.noParameter_rest (h : Taken types text items rest) : NoParameter types rest := by
  induction h with
  | parameter _ _ ih | separator _ _ _ _ _ _ ih => exact ih
  | stop hnone _ => exact hnone

theorem Taken.head?_rest (h : Taken types text items rest) :
    ∀ c ∈ rest.head?, isSeparator c = false := by
  induction h with
  | parameter _ _ ih | separator _ _ _ _ _ _ ih => exact ih
  | stop _ hhead => exact hhead

theorem yields_listEnd (hv : v.Valid) (n : Nat) :
    (tableOf v).Yields 0 ⟨.functionArguments, n, []⟩ [] .functionArguments :=
  .last (application?_listEnd hv n) rfl rfl

/-- In front of something else the scan goes on as it does at the start of a line. -/
theorem yields_leave (hv : v.Valid) (hnone : NoParameter v.types rest) (hne : rest ≠ [])
    (hhead : ∀ c ∈ rest.head?, isSeparator c = false) {qs : List Piece}
    (h : (tableOf v).Yields 0 ⟨.start, n, rest⟩ qs state) :
    (tableOf v).Yields 0 ⟨.functionArguments, n, rest⟩ qs state := by
  obtain ⟨a, ha⟩ := (total_tableOf v).covers.exists_application ⟨.start, n, rest⟩
  have hstop : a.hit.stop ≠ 0 := by
    intro hzero
    obtain ⟨-, hr, hm⟩ := Table.application?_eq_some ha
    obtain ⟨next, -, hlt⟩ := (total_tableOf v).descends _ _ hr _ _ hne hm hzero
    exact Nat.not_lt_zero _ hlt
  have hleave := application?_leave hv hnone hne hhead n
  have hlast : rest.isEmpty = false := by simpa using hne
  refine .still hleave ?_ rfl rfl (by decide) rfl (h.of_stop_ne_zero ha hstop 1)
  rw [Application.isLast, hlast]
  rfl

/-- Pieces of punctuation that may be joined consist of separators. -/
theorem isSeparator_of_mem_pieces {a : Application}
    (h : (tableOf v).application? a.place = some a) {p : Piece}
    (hp : p ∈ a.pieces (Lexicon.ofWords v)) (hjoins : p.joins) (hkind : p.kind = .punctuation) :
    ∀ c ∈ p.text, isSeparator c := by
  obtain ⟨-, hr, hm⟩ := Table.application?_eq_some h
  have hrule : a.rule.text.classification = .single .punctuation →
      a.rule = separatorRule ∨ a.rule = listEndRule := by
    intro hclass
    have hfixed : ∀ s ∈ State.all, ∀ r ∈ rules .builtin s,
        r.text.classification = .single .punctuation → r = separatorRule ∨ r = listEndRule := by
      decide +kernel
    rcases mem_rules hr with hr | ⟨-, hr⟩
    · exact hfixed _ (State.mem_all _) _ hr hclass
    · rw [hr] at hclass
      cases hclass
  rw [Application.pieces] at hp
  split at hp
  · rename_i kind hclass
    obtain rfl := List.mem_singleton.1 hp
    obtain rfl : kind = .punctuation := hkind
    rcases hrule hclass with hr | hr
    · rw [hr] at hm
      obtain ⟨w, after, hrest, hspells, hstart, hstop, -⟩ := exists_spells_of_matchAt hm
      rw [Application.piece_whole hrest hstart hstop]
      exact (spells_separatorRule.1 hspells).2
    · rw [hr] at hm
      obtain ⟨w, after, hrest, hspells, hstart, hstop, -⟩ := exists_spells_of_matchAt hm
      rw [Application.piece_whole hrest hstart hstop, hspells.1]
      simp
  · obtain rfl := List.mem_singleton.1 hp
    have hvoc := Lexicon.isVocabulary_kindOf v
      (String.ofList (a.slice a.hit.start a.hit.stop))
    have hword : (Lexicon.ofWords v).kindOf (String.ofList (a.slice a.hit.start a.hit.stop)) =
      .punctuation := hkind
    rw [hword] at hvoc
    simp [Kind.isVocabulary] at hvoc
  · rw [Application.joins_of_mem_groupPieces hp] at hjoins
    exact Bool.noConfusion hjoins

/-- Behind the items no punctuation is left that could be joined with separators. -/
theorem kind_ne_punctuation {ps : List Piece}
    (hhead : ∀ c ∈ rest.head?, isSeparator c = false)
    (h : (tableOf v).Yields 0 ⟨.start, n, rest⟩ ps state) {p : Piece}
    (hp : p ∈ (Piece.filled ps).head?) (hjoins : p.joins) : p.kind ≠ .punctuation := by
  intro hkind
  have halong (a : Application) (ha : (tableOf v).application? a.place = some a) :
      Piece.Along (fun p _ => p.joins → p.kind = .punctuation → ∀ c ∈ p.text, isSeparator c)
        (a.pieces (Lexicon.ofWords v)) a.after.rest :=
    Piece.along_of_forall (fun p hp _ => isSeparator_of_mem_pieces ha hp) _
  obtain ⟨after, rfl, hne, hseparators⟩ := (total_tableOf v).anchored.head_of_yields halong h hp
  obtain ⟨c, cs, htext⟩ := List.exists_cons_of_ne_nil hne
  have hsep := hseparators hjoins hkind c (by rw [htext]; exact List.mem_cons_self)
  rw [hhead c (by rw [htext]; rfl)] at hsep
  exact absurd hsep Bool.false_ne_true

/-! ### Lines that begin within the parameters -/

/-- The tokens of what is taken are its parts side by side. -/
theorem Taken.ofPieces_piecesAll (hv : v.Valid) (h : Taken v.types text items rest) :
    Token.ofPieces (ListItem.piecesAll 0 items) = Token.row 0 (items.flatMap ListItem.lexemes) := by
  have hpairs := h.pairs_piecesAll hv 0
  rw [Token.ofPieces_of_tile (ListItem.tile_piecesAll 0 items), hpairs]
  rw [hpairs]
  exact h.isChain_lexemes

theorem scanLine_of_taken {line : String} (hv : v.Valid)
    (h : Taken v.types line.toList items []) : (tableOf v).scanLine line .functionArguments =
      .ok ⟨Token.row 0 (items.flatMap ListItem.lexemes), .functionArguments⟩ := by
  have hyields := h.yields hv 0 (yields_listEnd hv _)
  rw [List.append_nil] at hyields
  rw [hyields.scanLine_eq, h.ofPieces_piecesAll hv]

theorem exists_scanLine_of_taken {line rest : String} (hv : v.Valid) (hne : rest ≠ "")
    (h : Taken v.types line.toList items rest.toList) :
    ∃ l, (tableOf v).scanLine rest .start = .ok l ∧
      (tableOf v).scanLine line .functionArguments =
        .ok ⟨Token.row 0 (items.flatMap ListItem.lexemes) ++
          l.tokens.map (Token.shift (ListItem.writtenAll items).utf8ByteSize), l.endState⟩ := by
  have hne' : rest.toList ≠ [] := by simpa using hne
  have hfront (qs : List Piece) (state : State) (hqs : (tableOf v).Yields 0
      ⟨.start, byteSize (ListItem.writtenAll items).toList, rest.toList⟩ qs state) :
      (tableOf v).Yields 0 ⟨.functionArguments, 0, line.toList⟩
        (ListItem.piecesAll 0 items ++ qs) state := by
    refine h.yields hv 0 (yields_leave hv h.noParameter_rest hne' h.head?_rest ?_)
    rwa [Nat.zero_add]
  have hborder (qs : List Piece) (state : State)
      (hqs : (tableOf v).Yields 0 ⟨.start, 0, rest.toList⟩ qs state) :
      ∀ p ∈ (Piece.filled (ListItem.piecesAll 0 items)).getLast?,
        ∀ q ∈ (Piece.filled qs).head?, p.joins → q.joins → p.kind ≠ q.kind := by
    intro p hp q hq hjoins hjoins'
    have hmem := List.mem_of_mem_filter (List.mem_of_getLast? hp)
    rw [ListItem.kind_of_mem_piecesAll hmem hjoins]
    exact (kind_ne_punctuation h.head?_rest hqs hq hjoins').symm
  obtain ⟨l, hl, hscan⟩ := (total_tableOf v).scanLine_append hfront hborder
  rw [h.ofPieces_piecesAll hv, byteSize_toList] at hscan
  exact ⟨l, hl, hscan⟩

/-- **Lines that begin within the parameters**, over a valid vocabulary.  Items are taken from the
left of the line, which can be done in one way only, and their parts are tokens side by side.  If
nothing is left, the next line begins within the parameters, too; otherwise what is left has the
tokens and the end state that it has by itself. -/
theorem scanLine_functionArguments {v : Vocabulary} (hv : v.Valid) :
    ∃ t, table v = .ok t ∧ ∀ line : String, ∃ items rest l,
      Taken v.types line.toList items rest.toList ∧
      (∀ items' rest', Taken v.types line.toList items' rest' →
        items' = items ∧ rest' = rest.toList) ∧
      line = ListItem.writtenAll items ++ rest ∧
      t.scanLine line .functionArguments = .ok l ∧
      (rest = "" → l.tokens = Token.row 0 (items.flatMap ListItem.lexemes) ∧
        l.endState = .functionArguments) ∧
      (rest ≠ "" → ∃ l', t.scanLine rest .start = .ok l' ∧
        l.tokens = Token.row 0 (items.flatMap ListItem.lexemes) ++
          l'.tokens.map (Token.shift (ListItem.writtenAll items).utf8ByteSize) ∧
        l.endState = l'.endState) := by
  refine ⟨tableOf v, table_eq hv, ?_⟩
  intro line
  obtain ⟨items, rest, htaken⟩ := exists_taken v.types line.toList
  have htypes (w : String) (hw : w ∈ v.types) : isIdentifier w := by
    have hmem : w ∈ v.words .types := hw
    exact hv.isIdentifier hmem
  have hunique (items' : List ListItem) (rest' : List Char)
      (h : Taken v.types line.toList items' rest') : items' = items ∧ rest' = rest :=
    h.unique htypes htaken
  have hline : line = ListItem.writtenAll items ++ String.ofList rest := by
    rw [← String.toList_inj, String.toList_append, String.toList_ofList]
    exact htaken.text_eq
  rw [← String.toList_ofList (l := rest)] at htaken hunique
  by_cases hrest : String.ofList rest = ""
  · have hscan := scanLine_of_taken hv (by simpa [hrest] using htaken)
    exact ⟨items, _, _, htaken, hunique, hline, hscan, fun _ => ⟨rfl, rfl⟩,
      fun hne => absurd hrest hne⟩
  · obtain ⟨l, hl, hscan⟩ := exists_scanLine_of_taken hv hrest htaken
    exact ⟨items, _, _, htaken, hunique, hline, hscan, fun hnil => absurd hnil hrest,
      fun _ => ⟨l, hl, rfl, rfl⟩⟩

/-- A line that breaks off behind a comma is taken whole. -/
theorem taken_builtin : Taken Vocabulary.builtin.types "n:Int,".toList
    [.parameter ⟨"n", 0, "Int"⟩, .separator ","] [] := by
  have hx : Parameter.WellFormed Vocabulary.builtin.types ⟨"n", 0, "Int"⟩ :=
    ⟨by decide, by decide, by decide⟩
  have hcomma : ∀ c ∈ [','].head?, isIdentifierChar c = false := forall_head?_cons.2 (by decide)
  have hseparator : ∀ c ∈ [','], isSeparator c := List.forall_mem_singleton.2 (by decide)
  have hend : Taken Vocabulary.builtin.types [','] [.separator ","] [] :=
    .separator (noParameter_of_head? (forall_head?_cons.2 (by decide))) (by simp)
      (List.cons_ne_nil _ _) hseparator (by simp) (.stop (noParameter_of_head? (by simp)) (by simp))
  exact .parameter (parameterAt_written Vocabulary.valid_builtin hx hcomma) hend

/-- The first line breaks off behind a comma; in the second one the bracket ends the parameters. -/
theorem scanLine_functionArguments_builtin : Vocabulary.builtin.Valid ∧
    ∃ t, table .builtin = .ok t ∧
      (∃ l, t.scanLine "n:Int," .functionArguments = .ok l ∧
        l.tokens = [⟨.parameterName, "n", ⟨0, 1⟩⟩, ⟨.punctuation, ":", ⟨1, 2⟩⟩,
          ⟨.builtinType, "Int", ⟨2, 5⟩⟩, ⟨.punctuation, ",", ⟨5, 6⟩⟩] ∧
        l.endState = .functionArguments) ∧
      ∃ l l', t.scanLine ": ) -> x" .functionArguments = .ok l ∧
        t.scanLine ") -> x" .start = .ok l' ∧
        l.tokens = ⟨.punctuation, ": ", ⟨0, 2⟩⟩ :: l'.tokens.map (Token.shift 2) ∧
        l.endState = l'.endState := by
  have hseparators : ∀ c ∈ [':', ' '], isSeparator c := List.all_eq_true.1 (by decide)
  have hsecond : Taken Vocabulary.builtin.types ": ) -> x".toList [.separator ": "]
      ") -> x".toList :=
    .separator (w := [':', ' ']) (noParameter_of_head? (forall_head?_cons.2 (by decide))) rfl
      (List.cons_ne_nil _ _) hseparators (forall_head?_cons.2 (by decide))
      (.stop (noParameter_of_head? (forall_head?_cons.2 (by decide)))
        (forall_head?_cons.2 (by decide)))
  obtain ⟨t, ht, hscan⟩ := scanLine_functionArguments Vocabulary.valid_builtin
  obtain ⟨items, rest, l, -, hunique, -, hl, hnil, -⟩ := hscan "n:Int,"
  obtain ⟨items', rest', m, -, hunique', -, hm, -, hcons⟩ := hscan ": ) -> x"
  obtain ⟨rfl, hrest⟩ := hunique _ [] taken_builtin
  obtain ⟨rfl, hrest'⟩ := hunique' _ _ hsecond
  rw [String.toList_inj] at hrest'
  obtain ⟨htokens, hend⟩ := hnil (String.toList_eq_nil_iff.1 hrest.symm)
  obtain ⟨m', hm', htokens', hend'⟩ := hcons (by rw [← hrest']; decide)
  rw [← hrest'] at hm'
  refine ⟨Vocabulary.valid_builtin, t, ht, ⟨l, hl, ?_, hend⟩, m, m', hm, hm', ?_, hend'⟩
  · rw [htokens]
    decide
  · rw [htokens']
    rfl

end EncryScript

end LineLexer
