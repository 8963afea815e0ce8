import LineLexer.Proofs.EncryScript.Parts
import LineLexer.Proofs.Scan.Partition
import LineLexer.Proofs.Scan.Yields

/-!
# Identifiers on a line of their own

An identifier that makes up a line is recognised as the word that it is, unless it ends in dollar
signs (`EncryScript.scanLine_identifier`).  An identifier may do so, and a vocabulary may list
it; but a word ends at the edge of an ASCII word, and a dollar sign does not belong to one.  The
dollar signs at the end become a text of their own, and what stands in front of them is looked up
without them.
-/

namespace LineLexer

namespace EncryScript

open Pattern Grammar

/-! ### Which rule is applied -/

/-- The rule of words. -/
def wordRule : Rule := anchored (.word (EncryScript.identifier ++ wordEnd)) wholeWord none

/-- The rule that takes one character as it is. -/
def characterRule : Rule := anchored (RuleText.asFallback (.single .text "(?s).")) anyChar none

/-- The rule at the end of a line. -/
def endRule : Rule := anchored (.single .empty "$") (.look .textEnd) none

variable {v : Vocabulary} {w rest : List Char}

theorem rules_start (v : Vocabulary) : (tableOf v).rules .start = rules .builtin .start :=
  rules_eq v (by decide)

theorem mem_rules_start {r : Rule} (h : r ∈ rules .builtin .start) : r ∈ rules v .start := by
  rwa [rules_eq v (by decide)]

/-- What can be decided of every ASCII character holds of every character that an identifier can
begin with. -/
theorem of_isIdentifierStart {P : Char → Prop}
    (h : ∀ n < 128, isIdentifierStart (Char.ofNat n) → P (Char.ofNat n)) {c : Char}
    (hc : isIdentifierStart c) : P c := by
  have hsmall := toNat_lt_of_isIdentifierChar (isIdentifierChar_of_isIdentifierStart hc)
  have hchar := h c.toNat hsmall
  rw [Char.ofNat_toNat] at hchar
  exact hchar hc

/-- The rules in front of the rule of words need a character that stands in no identifier, or do
not begin like one. -/
theorem refuses_front_word {c : Char} (hc : isIdentifierStart c) :
    ∀ r ∈ (rules .builtin .start).take 9, refuses c (fun d => !isIdentifierChar d) r := by
  have hall : ((rules .builtin .start).take 9).all (refuses c fun d => !isIdentifierChar d) := by
    refine of_isIdentifierStart (P := fun c => ((rules .builtin .start).take 9).all
      (refuses c fun d => !isIdentifierChar d)) ?_ hc
    decide +kernel
  exact List.all_eq_true.1 hall

/-- **In front of an identifier the rule of words is applied** if the rules before it refuse. -/
theorem application?_word_of_front (hw : isIdentifier (String.ofList w)) (hcore : core w ≠ [])
    (hrest : ∀ c ∈ rest.head?, isIdentifierChar c = false)
    (hfront : ∀ r ∈ (rules .builtin .start).take 9, r.matchAt (w ++ rest) = none) (n : Nat) :
    (tableOf v).application? ⟨.start, n, w ++ rest⟩ =
      some ⟨⟨.start, n, w ++ rest⟩, wordRule, ⟨0, (core w).length, []⟩⟩ := by
  have hsplit : (tableOf v).rules .start = (rules .builtin .start).take 9 ++
      wordRule :: (rules .builtin .start).drop 10 := by
    rw [rules_start]
    rfl
  refine Table.application?_of_front hsplit hfront ?_
  exact (matchAt_eq_some_iff isPlain_wholeWord descending_wholeWord.longestFirst).2
    ⟨_, _, longest_wholeWord hw hrest hcore, rfl⟩

/-- **In front of an identifier that is dollar signs alone the last rule is applied** if the rules
before that of words refuse. -/
theorem application?_dollar_of_front {ds : List Char} (hds : ∀ c ∈ ds, c = '$')
    (hrest : ∀ c ∈ rest.head?, isIdentifierChar c = false)
    (hfront : ∀ r ∈ (rules .builtin .start).take 9, r.matchAt ('$' :: (ds ++ rest)) = none)
    (n : Nat) : (tableOf v).application? ⟨.start, n, '$' :: (ds ++ rest)⟩ =
      some ⟨⟨.start, n, '$' :: (ds ++ rest)⟩, characterRule, ⟨0, 1, []⟩⟩ := by
  have hsplit : (tableOf v).rules .start = ((rules .builtin .start).take 9 ++
      wordRule :: (rules .builtin .start).extract 10 16) ++ [characterRule] := by
    rw [rules_start]
    rfl
  refine Table.application?_of_front hsplit ?_ (matchAt_anyChar '$' _)
  intro r hr
  rcases List.mem_append.1 hr with hr | hr
  · exact hfront r hr
  rcases List.mem_cons.1 hr with rfl | hr
  · -- dollar signs begin an identifier, but there is no word boundary behind them
    refine matchAt_eq_none ?_
    intro u after htext
    exact not_spells_wholeWord (List.forall_mem_cons.2 ⟨rfl, hds⟩) hrest htext
  · have hrefuses : ∀ r ∈ (rules .builtin .start).extract 10 16,
        refuses '$' (fun _ => false) r := by
      decide +kernel
    have hmem : r ∈ rules v .start :=
      mem_rules_start (List.mem_of_mem_drop (List.mem_of_mem_take hr))
    exact matchAt_eq_none_of_refuses hmem (hrefuses r hr) rfl fun _ _ => rfl

/-- The rules in front of the rule of words refuse an identifier on a line of its own. -/
theorem matchAt_front_word (hw : isIdentifier (String.ofList w)) :
    ∀ r ∈ (rules .builtin .start).take 9, r.matchAt w = none := by
  intro r hr
  obtain ⟨c, cs, rfl, hc, -⟩ := isIdentifier_iff.1 hw
  refine matchAt_eq_none_of_refuses (v := .builtin) (List.mem_of_mem_take hr)
    (refuses_front_word hc r hr) rfl ?_
  intro d hd
  simp [forall_isIdentifierChar hw d hd]

theorem application?_word (hw : isIdentifier (String.ofList w)) (hcore : core w ≠ []) (n : Nat) :
    (tableOf v).application? ⟨.start, n, w⟩ =
      some ⟨⟨.start, n, w⟩, wordRule, ⟨0, (core w).length, []⟩⟩ := by
  have hnothing : ∀ c ∈ ([] : List Char).head?, isIdentifierChar c = false := by simp
  have happlied := application?_word_of_front (v := v) hw hcore hnothing
    (by rw [List.append_nil]; exact matchAt_front_word hw) n
  rwa [List.append_nil] at happlied

/-- In front of dollar signs no rule but the last one is applied. -/
theorem application?_dollar {ds : List Char} (hds : ∀ c ∈ ds, c = '$') (n : Nat) :
    (tableOf v).application? ⟨.start, n, '$' :: ds⟩ =
      some ⟨⟨.start, n, '$' :: ds⟩, characterRule, ⟨0, 1, []⟩⟩ := by
  have hw : isIdentifier (String.ofList ('$' :: ds)) := by
    refine isIdentifier_iff.2 ⟨'$', ds, rfl, by decide, ?_⟩
    intro c hc
    rw [hds c hc]
    decide
  have hnothing : ∀ c ∈ ([] : List Char).head?, isIdentifierChar c = false := by simp
  have happlied := application?_dollar_of_front (v := v) hds hnothing
    (by rw [List.append_nil]; exact matchAt_front_word hw) n
  rwa [List.append_nil] at happlied

theorem application?_end (v : Vocabulary) (n : Nat) : (tableOf v).application? ⟨.start, n, []⟩ =
    some ⟨⟨.start, n, []⟩, endRule, ⟨0, 0, []⟩⟩ := by
  have hsplit : (tableOf v).rules .start = (rules .builtin .start).take 15 ++
      endRule :: (rules .builtin .start).drop 16 := by
    rw [rules_start]
    rfl
  have hfront : ∀ r ∈ (rules .builtin .start).take 15, r.matchAt [] = none := by decide +kernel
  have hend : endRule.matchAt [] = some ⟨0, 0, []⟩ := by decide +kernel
  exact Table.application?_of_front hsplit hfront hend

/-! ### What is yielded -/

theorem yields_end (v : Vocabulary) (n stalls : Nat) :
    (tableOf v).Yields stalls ⟨.start, n, []⟩ [] .start := by
  refine Table.Yields.last (application?_end v n) rfl ?_
  rfl

theorem yields_dollars {ds : List Char} (hds : ∀ c ∈ ds, c = '$') (n : Nat) :
    (tableOf v).Yields 0 ⟨.start, n, ds⟩ (Piece.singles .text n ds) .start := by
  induction ds generalizing n with
  | nil => exact yields_end v n 0
  | cons d ds ih =>
    obtain ⟨rfl, hsigns⟩ := List.forall_mem_cons.1 hds
    have hpiece : Piece.singles .text n ('$' :: ds) =
        [⟨.text, ['$'], n, true⟩] ++ Piece.singles .text (n + '$'.utf8Size) ds := rfl
    rw [hpiece]
    refine Table.Yields.step (application?_dollar hsigns n) rfl Nat.one_ne_zero rfl ?_
    exact ih hsigns _

/-- What an identifier is without the dollar signs at its end, as a piece. -/
def corePiece (lexicon : Lexicon) (w : List Char) : Piece :=
  ⟨lexicon.kindOf (String.ofList (core w)), core w, 0, true⟩

theorem yields_identifier (hw : isIdentifier (String.ofList w)) :
    (tableOf v).Yields 0 ⟨.start, 0, w⟩ ([corePiece (Lexicon.ofWords v) w] ++
      Piece.singles .text (byteSize (core w)) (dollars w)) .start := by
  have hsigns : ∀ c ∈ dollars w, c = '$' := fun c hc => eq_dollar_of_mem_dollars hc
  have hboth := core_append_dollars w
  by_cases hcore : core w = []
  · -- there are only dollar signs
    rw [hcore, List.nil_append] at hboth
    have hrest := yields_dollars (v := v) hsigns 0
    rw [hboth] at hrest
    refine hrest.congr ?_
    rw [hboth, hcore, List.singleton_append, Piece.filled_cons_of_nil hcore]
    rfl
  · refine Table.Yields.step (application?_word hw hcore 0) ?_ ?_ ?_ ?_
    · have hne := ne_nil_of_isIdentifier hw
      simpa [Application.isLast, wordRule, anchored, RuleText.word] using hne
    · simpa using hcore
    · rw [Application.pieces_of_word rfl hboth.symm rfl rfl]
      rfl
    · rw [Application.after_eq hboth.symm rfl]
      have hrest := yields_dollars (v := v) hsigns (byteSize (core w))
      simpa [wordRule, anchored, RuleText.word] using hrest

/-! ### The tokens -/

/-- The tokens of an identifier on a line of its own: what it is without the dollar signs at its
end, looked up, and these dollar signs. -/
def identifierTokens (lexicon : Lexicon) (w : List Char) : List Token :=
  [Token.ofPiece (corePiece lexicon w),
    Token.ofPiece ⟨.text, dollars w, byteSize (core w), true⟩].filter fun t => t.text ≠ ""

theorem ofPieces_identifier (v : Vocabulary) (w : List Char) :
    Token.ofPieces ([corePiece (Lexicon.ofWords v) w] ++
      Piece.singles .text (byteSize (core w)) (dollars w)) =
      identifierTokens (Lexicon.ofWords v) w := by
  have hvoc := Lexicon.isVocabulary_kindOf v (String.ofList (core w))
  have hkind : (corePiece (Lexicon.ofWords v) w).kind ≠ .text := by
    intro htext
    have hkindOf : (Lexicon.ofWords v).kindOf (String.ofList (core w)) = .text := htext
    rw [hkindOf] at hvoc
    simp [Kind.isVocabulary] at hvoc
  rw [Token.ofPieces_append, Token.ofPieces_singleton, Token.ofPieces_singles, identifierTokens,
    ← List.filter_append]
  · rfl
  · intro p hp q hq
    have hp' : p = corePiece (Lexicon.ofWords v) w :=
      List.mem_singleton.1 (List.mem_of_mem_filter (List.mem_of_getLast? hp))
    have hq' : q.kind = .text :=
      Piece.kind_of_mem_singles (List.mem_of_mem_filter (List.mem_of_head? hq))
    rw [Bool.eq_false_iff]
    intro hjoin
    obtain ⟨-, -, hsame, -⟩ := Piece.joinable_iff.1 hjoin
    rw [hp', hq'] at hsame
    exact hkind hsame

/-- The whole identifier is one word unless a dollar sign ends it. -/
theorem identifierTokens_eq_iff (v : Vocabulary) {w : String} (hw : isIdentifier w) :
    identifierTokens (Lexicon.ofWords v) w.toList =
        [⟨(Lexicon.ofWords v).kindOf w, w, ⟨0, w.utf8ByteSize⟩⟩] ↔
      w.toList.getLast? ≠ some '$' := by
  rw [← dollars_eq_nil_iff]
  constructor
  · intro htokens
    by_contra hdollars
    -- the token of the dollar signs would be the token of the word
    have hmem : Token.ofPiece ⟨.text, dollars w.toList, byteSize (core w.toList), true⟩ ∈
        identifierTokens (Lexicon.ofWords v) w.toList := by
      simp [identifierTokens, Token.ofPiece, hdollars]
    rw [htokens, List.mem_singleton] at hmem
    have hkind : Kind.text = (Lexicon.ofWords v).kindOf w := congrArg Token.kind hmem
    have hvoc := Lexicon.isVocabulary_kindOf v w
    rw [← hkind] at hvoc
    simp [Kind.isVocabulary] at hvoc
  · intro hdollars
    have hcore : core w.toList = w.toList := by
      have hboth := core_append_dollars w.toList
      rwa [hdollars, List.append_nil] at hboth
    have hne := ne_empty_of_isIdentifier hw
    rw [identifierTokens, hdollars, corePiece, hcore, ← byteSize_toList]
    simp [Token.ofPiece, Piece.stop, hne]

/-- **An identifier on a line of its own** is looked up without the dollar signs at its end, and
these are a text.  So the words of a vocabulary, which are identifiers, are recognised exactly if
they do not end in a dollar sign. -/
theorem scanLine_identifier {v : Vocabulary} (hv : v.Valid) :
    ∃ lexicon t, Lexicon.ofVocabulary v = .ok lexicon ∧ table v = .ok t ∧
      (∀ c, ∀ w ∈ v.words c, isIdentifier w) ∧
      ∀ w, isIdentifier w →
        t.scanLine w .start = .ok ⟨identifierTokens lexicon w.toList, .start⟩ ∧
        (identifierTokens lexicon w.toList =
            [⟨lexicon.kindOf w, w, ⟨0, w.utf8ByteSize⟩⟩] ↔
          w.toList.getLast? ≠ some '$') := by
  refine ⟨_, _, Lexicon.ofVocabulary_eq hv, table_eq hv, fun c w hw => hv.isIdentifier hw, ?_⟩
  intro w hw
  have hlist : isIdentifier (String.ofList w.toList) := by rwa [String.ofList_toList]
  have hscan := (yields_identifier (v := v) hlist).scanLine_eq
  rw [ofPieces_identifier] at hscan
  exact ⟨hscan, identifierTokens_eq_iff v hw⟩

theorem scanLine_identifier_builtin : Vocabulary.builtin.Valid ∧ isIdentifier "$base_58" ∧
    isIdentifier "return$$" ∧ ∃ lexicon t, Lexicon.ofVocabulary .builtin = .ok lexicon ∧
      table .builtin = .ok t ∧
      t.scanLine "$base_58" .start = .ok ⟨[⟨.identifier, "$base_58", ⟨0, 8⟩⟩], .start⟩ ∧
      t.scanLine "return$$" .start =
        .ok ⟨[⟨.controlKeyword, "return", ⟨0, 6⟩⟩, ⟨.text, "$$", ⟨6, 8⟩⟩], .start⟩ := by
  obtain ⟨lexicon, t, hlexicon, ht, -, hscan⟩ := scanLine_identifier Vocabulary.valid_builtin
  have hfirst : isIdentifier "$base_58" := by decide
  have hsecond : isIdentifier "return$$" := by decide
  have heq : lexicon = Lexicon.ofWords .builtin :=
    Except.ok.inj (hlexicon.symm.trans (Lexicon.ofVocabulary_eq Vocabulary.valid_builtin))
  refine ⟨Vocabulary.valid_builtin, hfirst, hsecond, lexicon, t, hlexicon, ht, ?_, ?_⟩
  · rw [(hscan _ hfirst).1, heq]
    decide +kernel
  · rw [(hscan _ hsecond).1, heq]
    decide +kernel

/-- A vocabulary with a keyword that ends in a dollar sign. -/
def dollarVocabulary : Vocabulary := { Vocabulary.builtin with keywords := ["a$"] }

/-- The keyword is accepted, but on a line of its own it is no keyword. -/
theorem scanLine_dollarVocabulary : dollarVocabulary.Valid ∧
    "a$" ∈ dollarVocabulary.words .keywords ∧
    ∃ lexicon t, Lexicon.ofVocabulary dollarVocabulary = .ok lexicon ∧
      table dollarVocabulary = .ok t ∧ lexicon.kindOf "a$" = .keyword ∧
      t.scanLine "a$" .start =
        .ok ⟨[⟨.identifier, "a", ⟨0, 1⟩⟩, ⟨.text, "$", ⟨1, 2⟩⟩], .start⟩ ∧
      t.scanLine "a$" .start ≠ .ok ⟨[⟨lexicon.kindOf "a$", "a$", ⟨0, 2⟩⟩], .start⟩ := by
  have hv : dollarVocabulary.Valid := by
    unfold Vocabulary.Valid
    decide +kernel
  refine ⟨hv, by decide, _, _, Lexicon.ofVocabulary_eq hv, table_eq hv, ?_⟩
  decide +kernel

end EncryScript

end LineLexer
