import LineLexer.Proofs.EncryScript.Parts
import LineLexer.Proofs.EncryScript.Total

/-!
# Tokens have the texts of their kinds

`Lexeme` gives the language of each kind of token, and every token of a scan lies in the language
of its kind (`EncryScript.exists_scanLine_lexemes`).  Tokens are joined from pieces, so this takes
more than that the pieces are right: two words would be no word, and a minus sign and a greater
sign would be an arrow.  What may stand behind a piece (`Part`) excludes that they meet.
-/

namespace LineLexer

namespace EncryScript

open Pattern Grammar

/-- The text consists of one or more texts of the language. -/
def Repeated (L : List Char → Prop) (w : List Char) : Prop :=
  ∃ us, us ≠ [] ∧ (∀ u ∈ us, L u) ∧ w = us.flatten

/-- The texts of tokens of each kind, over a lexicon and the names of the types. -/
def Lexeme (lexicon : Lexicon) (types : List String) (kind : Kind) (text : String) : Prop :=
  match kind with
  | .numeric => Repeated IsNumber text.toList
  | .escape => Repeated IsEscape text.toList
  | .operator =>
    Repeated (· ∈ operators.map String.toList) text.toList ∧ ¬ ['-', '>'] <:+: text.toList
  | .identifier | .controlKeyword | .builtinFunction | .builtinConstant | .builtinStructure
  | .libraryRoot => isIdentifier text ∧ lexicon.kindOf text = kind
  | .builtinType => text ∈ types
  | .keyword =>
    text = "def" ∨ Repeated (fun w => w = ['-', '>'] ∨
      isIdentifier (String.ofList w) ∧ lexicon.kindOf (String.ofList w) = .keyword) text.toList
  | .functionName | .variable | .parameterName | .memberAccessLeft | .memberAccessRight =>
    isIdentifier text
  | .storageDeclaration => text = "let"
  | .whitespace => ∀ c ∈ text.toList, isBlank c
  | .openParen => ∀ c ∈ text.toList, c ∈ ['[', '(', '\x7b']
  | .closeParen => ∀ c ∈ text.toList, c ∈ [']', ')', '\x7d']
  | .punctuation => ∀ c ∈ text.toList, c ∈ [',', ' ', ':', '.']
  | .string | .text => True
  | .empty => False

/-! ### Runs of pieces -/

variable {v : Vocabulary} {kind : Kind} {p : Piece} {run : List Piece} {after : List Char}

/-- The pieces are parts of one kind, each with the text behind it. -/
def PartsOf (v : Vocabulary) (kind : Kind) : List Piece → List Char → Prop :=
  Piece.Along fun p after => Part v kind p.joins p.text after

/-- The pieces that a token is made of are parts of its kind. -/
theorem partsOf_of_along (hne : ∀ q ∈ run, q.text ≠ []) (hkind : ∀ q ∈ run, q.kind = kind)
    (h : Piece.Along (Fits v) run after) : PartsOf v kind run after := by
  induction run with
  | nil => trivial
  | cons q run ih =>
    obtain ⟨hne, hnes⟩ := List.forall_mem_cons.1 hne
    obtain ⟨rfl, hkinds⟩ := List.forall_mem_cons.1 hkind
    exact ⟨h.1 hne, ih hnes hkinds h.2⟩

theorem PartsOf.forall_mem (h : PartsOf v kind run after) :
    ∀ q ∈ run, ∃ after', Part v kind q.joins q.text after' := by
  induction run with
  | nil => simp
  | cons q run ih => exact List.forall_mem_cons.2 ⟨⟨_, h.1⟩, ih h.2⟩

/-- Pieces that each lie in a language lie in its repetition together. -/
theorem PartsOf.repeated {L : List Char → Prop} (h : PartsOf v kind (p :: run) after)
    (hL : ∀ q ∈ p :: run, ∀ after', Part v kind q.joins q.text after' → L q.text) :
    Repeated L (Piece.textOf (p :: run)) := by
  have htext : Piece.textOf (p :: run) = ((p :: run).map (·.text)).flatten := List.flatMap_def
  refine ⟨(p :: run).map (·.text), List.cons_ne_nil _ _, ?_, htext⟩
  intro u hu
  obtain ⟨q, hq, rfl⟩ := List.mem_map.1 hu
  obtain ⟨after', hpart⟩ := h.forall_mem q hq
  exact hL q hq after' hpart

/-- A condition on all characters of the pieces holds of all characters of their text. -/
theorem PartsOf.forall_char {q : Char → Prop} (h : PartsOf v kind run after)
    (hq : ∀ joins w after', Part v kind joins w after' → ∀ c ∈ w, q c) :
    ∀ c ∈ Piece.textOf run, q c := by
  intro c hc
  obtain ⟨r, hr, hc⟩ := List.mem_flatMap.1 hc
  obtain ⟨after', hpart⟩ := h.forall_mem r hr
  exact hq _ _ _ hpart c hc

/-- Parts that cannot stand next to each other make no run. -/
theorem PartsOf.run_eq_nil (h : PartsOf v kind (p :: run) after)
    (hchain : (p :: run).IsChain fun p q => p.joinable q)
    (hapart : ∀ w u after', Part v kind true w (u ++ after') → ¬ Part v kind true u after') :
    run = [] := by
  cases run with
  | nil => rfl
  | cons q run =>
    obtain ⟨hjoin, -⟩ := List.isChain_cons_cons.1 hchain
    obtain ⟨hq, hp, -⟩ := Piece.joinable_iff.1 hjoin
    obtain ⟨hfirst, hnext, -⟩ := h
    rw [hp, Piece.textOf_cons, List.append_assoc] at hfirst
    rw [hq] at hnext
    exact absurd hnext (hapart _ _ _ hfirst)

/-! ### Operators -/

theorem eq_minus_of_mem_operators {w : List Char} (hw : w ∈ operators.map String.toList)
    (hminus : '-' ∈ w) : w = ['-'] := by
  revert w
  decide

/-- **Operators that are joined contain no arrow.** -/
theorem PartsOf.not_arrow (h : PartsOf v .operator run after) (front back : List Char)
    (htext : Piece.textOf run ++ after = front ++ '-' :: '>' :: back) :
    (Piece.textOf run).length ≤ front.length := by
  induction run generalizing front with
  | nil => exact Nat.zero_le _
  | cons q run ih =>
    obtain ⟨⟨hmem, hminus⟩, hrun⟩ := h
    rw [Piece.textOf_cons, List.append_assoc] at htext
    rcases List.append_eq_append_iff.1 htext with ⟨front', rfl, htext'⟩ | ⟨w, hw, htext'⟩
    · rw [Piece.textOf_cons, List.length_append, List.length_append]
      have := ih hrun front' htext'
      omega
    · cases w with
      | nil =>
        rw [List.append_nil] at hw
        rw [Piece.textOf_cons, List.length_append, hw]
        have := ih hrun [] htext'.symm
        simp only [List.length_nil, Nat.le_zero] at this
        omega
      | cons c w =>
        -- the minus sign lies in the operator, so it is all of it
        obtain ⟨rfl, hbehind⟩ := List.cons.inj htext'
        have hq := eq_minus_of_mem_operators hmem (by simp [hw])
        have hnil : w = [] := by
          have hlen := congrArg List.length (hw.symm.trans hq)
          simp only [List.length_append, List.length_cons, List.length_nil] at hlen
          exact List.length_eq_zero_iff.1 (by omega)
        have hhead : (Piece.textOf run ++ after).head? = some '>' := by
          rw [hnil] at hbehind
          exact congrArg List.head? hbehind.symm
        exact absurd hhead (hminus hq)

theorem PartsOf.not_infix (h : PartsOf v .operator run after) :
    ¬ ['-', '>'] <:+: Piece.textOf run := by
  rintro ⟨front, back, htext⟩
  have hle := h.not_arrow front (back ++ after) (by simp [← htext])
  have hlen := congrArg List.length htext
  simp only [List.length_append, List.length_cons, List.length_nil] at hlen
  omega

/-! ### Tokens -/

/-- Words that stand next to each other are one word. -/
theorem not_longest_of_longest {w u after : List Char}
    (h : wholeWord.Longest (w ++ (u ++ after)) w (u ++ after)) :
    ¬ wholeWord.Longest (u ++ after) u after := by
  intro hu
  exact not_spells_of_longest h hu.spells

theorem head?_identifier_append {w after : List Char} (hw : isIdentifier (String.ofList w)) :
    (w ++ after).head? ≠ some '(' := by
  obtain ⟨c, cs, rfl, hc, -⟩ := isIdentifier_iff.1 hw
  intro hhead
  obtain rfl : c = '(' := by simpa using hhead
  revert hc
  decide

/-- A keyword is made of arrows and words without gaps, or it is the first group of a header,
which stays alone. -/
theorem lexeme_of_keyword (h : PartsOf v .keyword (p :: run) after)
    (hchain : (p :: run).IsChain fun p q => p.joinable q) :
    Lexeme (Lexicon.ofWords v) v.types .keyword (String.ofList (Piece.textOf (p :: run))) := by
  by_cases hjoins : p.joins
  · right
    rw [String.toList_ofList]
    refine h.repeated ?_
    intro q hq after' hpart
    rwa [(Piece.eq_first_of_isChain hchain q hq).2, hjoins] at hpart
  · left
    have hrun : run = [] := by
      cases run with
      | nil => rfl
      | cons q run =>
        obtain ⟨hjoin, -⟩ := List.isChain_cons_cons.1 hchain
        exact absurd (Piece.joinable_iff.1 hjoin).2.1 hjoins
    obtain ⟨hpart, -⟩ := h
    rw [Bool.not_eq_true] at hjoins
    rw [hjoins] at hpart
    have hdef : p.text = ['d', 'e', 'f'] := hpart
    rw [hrun, Piece.textOf_cons, hdef]
    rfl

/-- **What a token is made of has a text of its kind.** -/
theorem lexeme_of_partsOf (h : PartsOf v kind (p :: run) after)
    (hchain : (p :: run).IsChain fun p q => p.joinable q) :
    Lexeme (Lexicon.ofWords v) v.types kind (String.ofList (Piece.textOf (p :: run))) := by
  -- a kind whose parts stand apart has tokens of one piece
  have hone (hapart : ∀ w u after', Part v kind true w (u ++ after') → ¬ Part v kind true u after') :
      Piece.textOf (p :: run) = p.text ∧ ∃ after', Part v kind p.joins p.text after' := by
    obtain rfl := h.run_eq_nil hchain hapart
    exact ⟨List.append_nil _, _, h.1⟩
  cases kind with
  | numeric =>
    rw [Lexeme, String.toList_ofList]
    exact h.repeated fun _ _ _ hpart => hpart
  | escape =>
    rw [Lexeme, String.toList_ofList]
    exact h.repeated fun _ _ _ hpart => hpart
  | operator =>
    rw [Lexeme, String.toList_ofList]
    exact ⟨h.repeated fun _ _ _ hpart => hpart.1, h.not_infix⟩
  | identifier | controlKeyword | builtinFunction | builtinConstant | builtinStructure
  | libraryRoot =>
    obtain ⟨htext, after', hlongest, hkind⟩ := hone fun w u after' hw hu =>
      not_longest_of_longest hw.1 hu.1
    rw [htext]
    exact ⟨(spells_wholeWord.1 hlongest.spells).1, hkind⟩
  | builtinType =>
    obtain ⟨htext, after', hmem, -⟩ := hone fun w u after' hw hu =>
      not_longest_of_longest (hw.2 rfl) (hu.2 rfl)
    rw [htext]
    exact hmem
  | keyword => exact lexeme_of_keyword h hchain
  | functionName =>
    obtain ⟨htext, after', hid, -⟩ := hone fun w u after' hw hu =>
      head?_identifier_append hu.1 (hw.2 rfl)
    rw [htext]
    exact hid
  | «variable» | parameterName | memberAccessLeft | memberAccessRight =>
    obtain ⟨htext, after', hid, -⟩ := hone fun w u after' hw _ => Bool.noConfusion hw.2
    rw [htext]
    exact hid
  | storageDeclaration =>
    obtain ⟨htext, after', hlet, -⟩ := hone fun w u after' hw _ => Bool.noConfusion hw.2
    rw [htext, hlet]
    rfl
  | whitespace | openParen | closeParen | punctuation =>
    rw [Lexeme, String.toList_ofList]
    exact h.forall_char fun _ _ _ hpart => hpart
  | string | text => trivial
  | empty => exact h.1

/-- **Every token has a text of its kind**: over a valid vocabulary a scan never fails, whatever
the line and the state, and each of its tokens lies in the language of its kind. -/
theorem exists_scanLine_lexemes {v : Vocabulary} (hv : v.Valid) :
    ∃ lexicon t, Lexicon.ofVocabulary v = .ok lexicon ∧ table v = .ok t ∧
      ∀ line state, ∃ l, t.scanLine line state = .ok l ∧
        ∀ token ∈ l.tokens, Lexeme lexicon v.types token.kind token.text := by
  refine ⟨_, _, Lexicon.ofVocabulary_eq hv, table_eq hv, ?_⟩
  intro line state
  have htotal := total_tableOf v
  obtain ⟨l, hl, -⟩ := htotal.exists_scanLine_eq_ok line state
  refine ⟨l, hl, ?_⟩
  rw [Table.scanLine] at hl
  obtain ⟨endState, hout, rfl⟩ := Outcome.map_eq_ok_iff.1 hl
  obtain ⟨after, -, halong⟩ := htotal.anchored.along_scanFrom (fun a ha => along_fits hv ha) hout
  intro token htoken
  obtain ⟨p, run, after', rfl, hchain, hne, hrun⟩ := halong.exists_run htoken
  have hkinds : ∀ q ∈ p :: run, q.kind = p.kind :=
    fun q hq => (Piece.eq_first_of_isChain hchain q hq).1
  have hparts := partsOf_of_along hne hkinds hrun
  exact lexeme_of_partsOf hparts hchain

/-- A word, arrows and operators without gaps between them. -/
theorem exists_scanLine_lexemes_builtin : Vocabulary.builtin.Valid ∧
    ∃ lexicon t l, Lexicon.ofVocabulary .builtin = .ok lexicon ∧ table .builtin = .ok t ∧
      t.scanLine "if->a-->>1.50x1F" .start = .ok l ∧
      l.pairs = [(.keyword, "if->"), (.identifier, "a"), (.operator, "-"), (.keyword, "->"),
        (.operator, ">"), (.numeric, "1.50"), (.identifier, "x1F")] ∧
      ∀ token ∈ l.tokens, Lexeme lexicon Vocabulary.builtin.types token.kind token.text := by
  obtain ⟨lexicon, t, hlexicon, ht, hlines⟩ := exists_scanLine_lexemes Vocabulary.valid_builtin
  obtain ⟨l, hl, hlexemes⟩ := hlines "if->a-->>1.50x1F" .start
  have htable : tableOf .builtin = t :=
    Except.ok.inj ((table_eq Vocabulary.valid_builtin).symm.trans ht)
  have hpairs : ((tableOf .builtin).scanLine "if->a-->>1.50x1F" .start).map (·.pairs) =
      .ok [(.keyword, "if->"), (.identifier, "a"), (.operator, "-"), (.keyword, "->"),
        (.operator, ">"), (.numeric, "1.50"), (.identifier, "x1F")] := by
    decide +kernel
  rw [htable, hl] at hpairs
  exact ⟨Vocabulary.valid_builtin, lexicon, t, l, hlexicon, ht, hl, Except.ok.inj hpairs, hlexemes⟩

end EncryScript

end LineLexer
