import Mathlib.Data.Finset.Card
import LineLexer.Proofs.EncryScript.Table

/-!
# The kind of a word

The lexicon of a vocabulary gives a word the kind of the first class in the order of priority that
lists it (`Lexicon.kindOf_ofWords`), and the kinds that it gives are the vocabulary kinds
(`Kind.isVocabulary`).  A word that several lists have is kept once, so the size of the lexicon is
the number of different words (`Lexicon.exists_ofVocabulary_ranked`).
-/

namespace LineLexer

/-- The kinds that words can have: those of the classes of a vocabulary, and that of a plain
identifier. -/
def Kind.isVocabulary : Kind → Bool
  | .keyword | .controlKeyword | .builtinFunction | .builtinType | .builtinConstant
  | .builtinStructure | .libraryRoot | .identifier => true
  | _ => false

namespace Lexicon

theorem lookup_add (l : Lexicon) (word x : String) (kind : Kind) :
    (l.add word kind).entries.lookup x =
      (l.entries.lookup x).or (if x = word then some kind else none) := by
  rw [add]
  split
  · -- the word is there already
    rename_i hany
    by_cases hx : x = word
    · have hsome : (l.entries.lookup x).isSome := by
        obtain ⟨e, he, hword⟩ := List.any_eq_true.1 hany
        rw [List.lookup_isSome_iff]
        refine ⟨e, he, ?_⟩
        rw [hx, beq_iff_eq]
        exact (beq_iff_eq.1 hword).symm
      obtain ⟨k, hk⟩ := Option.isSome_iff_exists.1 hsome
      rw [hk, Option.some_or]
    · rw [if_neg hx, Option.or_none]
  · rw [List.lookup_append, List.lookup_cons]
    by_cases hx : x = word
    · simp [hx]
    · have hbeq : (x == word) = false := beq_eq_false_iff_ne.2 hx
      simp [hbeq, hx]

theorem lookup_addAll (l : Lexicon) (ws : List String) (kind : Kind) (x : String) :
    (ws.foldl (fun l w => l.add w kind) l).entries.lookup x =
      (l.entries.lookup x).or (if x ∈ ws then some kind else none) := by
  induction ws generalizing l with
  | nil => simp
  | cons w ws ih =>
    rw [List.foldl_cons, ih, lookup_add, Option.or_assoc]
    by_cases hx : x = w
    · simp [hx]
    · simp [hx]

theorem lookup_addClasses (v : Vocabulary) (cs : List WordClass) (l : Lexicon) (x : String) :
    (cs.foldl (addClass v) l).entries.lookup x =
      (l.entries.lookup x).or ((cs.find? fun c => x ∈ v.words c).map WordClass.kind) := by
  induction cs generalizing l with
  | nil => simp
  | cons c cs ih =>
    rw [List.foldl_cons, ih, addClass, lookup_addAll, Option.or_assoc, List.find?_cons]
    by_cases hx : x ∈ v.words c
    · simp [hx]
    · simp [hx]

/-- **A word has the kind of the first class that lists it.** -/
theorem kindOf_ofWords (v : Vocabulary) (word : String) : (ofWords v).kindOf word =
    ((WordClass.byPriority.find? fun c => word ∈ v.words c).map WordClass.kind).getD
      .identifier := by
  rw [kindOf, ofWords, lookup_addClasses]
  rfl

theorem isVocabulary_kindOf (v : Vocabulary) (word : String) :
    ((ofWords v).kindOf word).isVocabulary := by
  rw [kindOf_ofWords]
  cases WordClass.byPriority.find? fun c => word ∈ v.words c with
  | none => rfl
  | some c => cases c <;> rfl

/-- A word that is taken for the name of a type is one. -/
theorem mem_types_of_kindOf {v : Vocabulary} {word : String}
    (h : (ofWords v).kindOf word = .builtinType) : word ∈ v.types := by
  rw [kindOf_ofWords] at h
  cases hfind : WordClass.byPriority.find? fun c => word ∈ v.words c with
  | none => simp [hfind] at h
  | some c =>
    have hmem : word ∈ v.words c := by simpa using List.find?_some hfind
    rw [hfind, Option.map_some, Option.getD_some] at h
    cases c
    case types => exact hmem
    all_goals simp [WordClass.kind] at h

end Lexicon

/-! ### Words that several lists have -/

/-- The lists with the kind that each gives its words; the list that counts first stands first. -/
def Vocabulary.ranked (v : Vocabulary) : List (List String × Kind) :=
  [(v.structures, .builtinStructure), (v.functions, .builtinFunction), (v.types, .builtinType),
   (v.constants, .builtinConstant), (v.controlKeywords, .controlKeyword), (v.keywords, .keyword),
   (v.libraryRoots, .libraryRoot)]

theorem Vocabulary.ranked_eq (v : Vocabulary) :
    v.ranked = WordClass.byPriority.map fun c => (v.words c, c.kind) := rfl

namespace Lexicon

theorem kindOf_eq_ranked (v : Vocabulary) (word : String) : (ofWords v).kindOf word =
    ((v.ranked.find? fun e => word ∈ e.1).map Prod.snd).getD .identifier := by
  rw [kindOf_ofWords, v.ranked_eq, List.find?_map, Option.map_map]
  rfl

/-- The words of a lexicon, in the order in which they were added. -/
def words (l : Lexicon) : List String := l.entries.map Prod.fst

theorem mem_words_iff {l : Lexicon} {word : String} :
    word ∈ l.words ↔ (l.entries.lookup word).isSome := by
  simp [words, List.lookup_isSome_iff]

/-- A lexicon has no word twice. -/
theorem nodup_add {l : Lexicon} (h : l.words.Nodup) (word : String) (kind : Kind) :
    (l.add word kind).words.Nodup := by
  rw [add]
  split
  · exact h
  · rename_i hany
    have hnew : word ∉ l.words := by simpa [words] using hany
    rw [words, List.map_append, List.map_singleton, ← List.concat_eq_append]
    exact h.concat hnew

theorem nodup_addClass {v : Vocabulary} {l : Lexicon} (h : l.words.Nodup) (c : WordClass) :
    (addClass v l c).words.Nodup := by
  rw [addClass]
  refine List.foldlRecOn (motive := fun l : Lexicon => l.words.Nodup) _ _ h ?_
  intro l hl w _
  exact nodup_add hl w c.kind

theorem nodup_ofWords (v : Vocabulary) : (ofWords v).words.Nodup := by
  refine List.foldlRecOn (motive := fun l : Lexicon => l.words.Nodup) _ _ List.nodup_nil ?_
  intro l hl c _
  exact nodup_addClass hl c

theorem mem_words_ofWords {v : Vocabulary} {word : String} :
    word ∈ (ofWords v).words ↔ ∃ e ∈ v.ranked, word ∈ e.1 := by
  rw [mem_words_iff, ofWords, lookup_addClasses, v.ranked_eq]
  simp [empty]

theorem size_ofWords (v : Vocabulary) :
    (ofWords v).size = (v.ranked.flatMap Prod.fst).toFinset.card := by
  have hwords : (v.ranked.flatMap Prod.fst).toFinset = (ofWords v).words.toFinset := by
    ext word
    rw [List.mem_toFinset, List.mem_toFinset, mem_words_ofWords, List.mem_flatMap]
  rw [hwords, List.toFinset_card_of_nodup (nodup_ofWords v), words, List.length_map, size]

/-- **A word has the kind of the first list that has it**, whatever other lists have it too, and a
word that no list has is a plain identifier.  The size is the number of different words. -/
theorem exists_ofVocabulary_ranked {v : Vocabulary} (hv : v.Valid) :
    ∃ l, ofVocabulary v = .ok l ∧
      (∀ front ws kind back word, v.ranked = front ++ (ws, kind) :: back → word ∈ ws →
        (∀ e ∈ front, word ∉ e.1) → l.kindOf word = kind) ∧
      (∀ word, (∀ e ∈ v.ranked, word ∉ e.1) → l.kindOf word = .identifier) ∧
      l.size = (v.ranked.flatMap Prod.fst).toFinset.card := by
  refine ⟨ofWords v, ofVocabulary_eq hv, ?_, ?_, size_ofWords v⟩
  · intro front ws kind back word hsplit hword hfront
    have hfirst : v.ranked.find? (fun e => decide (word ∈ e.1)) = some (ws, kind) :=
      List.find?_eq_some_iff_append.2
        ⟨by simpa using hword, front, back, hsplit, by simpa using hfront⟩
    rw [kindOf_eq_ranked, hfirst]
    rfl
  · intro word hnone
    have hfind : v.ranked.find? (fun e => decide (word ∈ e.1)) = none := by
      simpa [List.find?_eq_none] using hnone
    rw [kindOf_eq_ranked, hfind]
    rfl

theorem exists_ofVocabulary_ranked_builtin : Vocabulary.builtin.Valid ∧
    ∃ l, ofVocabulary .builtin = .ok l ∧ l.kindOf "context" = .builtinStructure ∧
      l.kindOf "return" = .controlKeyword ∧ l.kindOf "int" = .identifier ∧ l.size = 30 := by
  obtain ⟨l, hl, hfirst, hnone, hsize⟩ := exists_ofVocabulary_ranked Vocabulary.valid_builtin
  refine ⟨Vocabulary.valid_builtin, l, hl, ?_, ?_, ?_, ?_⟩
  · exact hfirst [] _ _ _ "context" rfl (by decide) (by decide)
  · exact hfirst (Vocabulary.builtin.ranked.take 4) _ _ _ "return" rfl (by decide) (by decide)
  · exact hnone "int" (by decide)
  · rw [hsize]
    decide +kernel

end Lexicon

end LineLexer
