import LineLexer.File
import LineLexer.Proofs.EncryScript.Table
import LineLexer.Proofs.Json.Pretty
import LineLexer.Proofs.Json.Reading
import LineLexer.Proofs.Vocabulary

/-!
# Vocabularies read from JSON

A JSON value writes a vocabulary exactly if it is an object of word lists, by the names of their
classes and none of them twice, or an array of word lists for the first classes
(`Vocabulary.ofJson?_eq_some_iff`).  The lists that it has replace the built-in ones.  So whatever
lists of a valid vocabulary are written, in any order and with any white space and escapes, they are
read back (`Vocabulary.ofText_written`); and what is read, from a text or from a file, is valid.
-/

namespace LineLexer

namespace WordClass

theorem ofName?_eq_some_iff {text : String} {c : WordClass} : ofName? text = some c ↔
    text = c.name := by
  constructor
  · intro h
    have hname := List.find?_some h
    exact (beq_iff_eq.1 hname).symm
  · rintro rfl
    cases c <;> decide

end WordClass

/-- Words as an array of strings. -/
def Json.ofWords (ws : List String) : Json := .array (ws.map .string)

namespace Vocabulary

/-- The vocabulary with other lists for some classes, put in one after the other. -/
def setAll (v : Vocabulary) (lists : List (WordClass × List String)) : Vocabulary :=
  lists.foldl (fun v l => v.setWords l.2 l.1) v

/-- The lists of the classes. -/
def listsOf (v : Vocabulary) (cs : List WordClass) : List (WordClass × List String) :=
  cs.map fun c => (c, v.words c)

/-- Word lists as an object, by the names of their classes. -/
def toObject (lists : List (WordClass × List String)) : Json :=
  .object (lists.map fun l => (l.1.name, .ofWords l.2))

/-- Word lists as an array. -/
def toArray (lists : List (List String)) : Json := .array (lists.map .ofWords)

variable {u u' v : Vocabulary} {ws : List String} {json : Json} {text : String}

theorem words_setAll_listsOf (u v : Vocabulary) (cs : List WordClass) (c : WordClass) :
    (u.setAll (v.listsOf cs)).words c = if c ∈ cs then v.words c else u.words c := by
  induction cs generalizing u with
  | nil => simp [setAll, listsOf]
  | cons d ds ih =>
    have hstep : u.setAll (v.listsOf (d :: ds)) =
        (u.setWords (v.words d) d).setAll (v.listsOf ds) := rfl
    rw [hstep, ih, words_setWords]
    by_cases hds : c ∈ ds
    · rw [if_pos hds, if_pos (List.mem_cons_of_mem d hds)]
    · by_cases hd : c = d
      · subst hd
        rw [if_neg hds, if_pos rfl, if_pos List.mem_cons_self]
      · rw [if_neg hds, if_neg hd, if_neg (by simp [hd, hds])]

/-! ### What writes a vocabulary -/

theorem wordsOfJson?_ofWords (ws : List String) : wordsOfJson? (.ofWords ws) = some ws := by
  rw [Json.ofWords, wordsOfJson?, List.mapM_map]
  exact List.mapM_pure.trans (congrArg some (List.map_id ws))

/-- Words are read from an array of strings, and from nothing else. -/
theorem wordsOfJson?_eq_some_iff : wordsOfJson? json = some ws ↔ json = .ofWords ws := by
  constructor
  · intro h
    cases json with
    | array items =>
      refine congrArg Json.array ?_
      rw [wordsOfJson?] at h
      induction items generalizing ws with
      | nil =>
        obtain rfl := Option.some.inj h
        rfl
      | cons item items ih =>
        rw [List.mapM_cons] at h
        cases item with
        | string s =>
          obtain ⟨_, hs, h⟩ := Option.bind_eq_some_iff.1 h
          obtain rfl := Option.some.inj hs
          obtain ⟨rest, hrest, h⟩ := Option.bind_eq_some_iff.1 h
          obtain rfl := Option.some.inj h
          rw [ih hrest, List.map_cons]
        | _ => simp at h
    | _ => simp [wordsOfJson?] at h
  · rintro rfl
    exact wordsOfJson?_ofWords ws

/-- A member is put in if it is the word list of a class that is not given yet. -/
theorem setMembers?_cons_eq_some_iff {seen : List WordClass} {name : String} {list : Json}
    {ms : List (String × Json)} :
    u.setMembers? seen ((name, list) :: ms) = some u' ↔
      ∃ c ws, name = c.name ∧ c ∉ seen ∧ list = .ofWords ws ∧
        (u.setWords ws c).setMembers? (c :: seen) ms = some u' := by
  constructor
  · intro h
    obtain ⟨c, hname, h⟩ := Option.bind_eq_some_iff.1 h
    by_cases hc : c ∈ seen
    · simp [hc] at h
    · simp only [List.contains_iff_mem, hc, if_false] at h
      obtain ⟨ws, hws, h⟩ := Option.bind_eq_some_iff.1 h
      exact ⟨c, ws, WordClass.ofName?_eq_some_iff.1 hname, hc, wordsOfJson?_eq_some_iff.1 hws, h⟩
  · rintro ⟨c, ws, rfl, hc, rfl, h⟩
    have hname := WordClass.ofName?_eq_some_iff (c := c).2 rfl
    simp [setMembers?, hname, hc, wordsOfJson?_ofWords, h]

/-- Members are put in if they are word lists, by the names of classes, none of them twice. -/
theorem setMembers?_eq_some_iff {seen : List WordClass} {ms : List (String × Json)} :
    u.setMembers? seen ms = some u' ↔ ∃ lists : List (WordClass × List String),
      ms = lists.map (fun l => (l.1.name, .ofWords l.2)) ∧ (lists.map Prod.fst).Nodup ∧
      (∀ l ∈ lists, l.1 ∉ seen) ∧ u' = u.setAll lists := by
  induction ms generalizing u seen with
  | nil =>
    constructor
    · intro h
      exact ⟨[], rfl, List.nodup_nil, by simp, (Option.some.inj h).symm⟩
    · rintro ⟨lists, hms, -, -, rfl⟩
      obtain rfl := List.map_eq_nil_iff.1 hms.symm
      rfl
  | cons m ms ih =>
    obtain ⟨name, list⟩ := m
    rw [setMembers?_cons_eq_some_iff]
    simp only [ih]
    constructor
    · rintro ⟨c, ws, rfl, hc, rfl, lists, rfl, hnodup, hseen, rfl⟩
      refine ⟨(c, ws) :: lists, rfl, ?_, ?_, rfl⟩
      · rw [List.map_cons, List.nodup_cons]
        refine ⟨?_, hnodup⟩
        intro hmem
        obtain ⟨l, hl, rfl⟩ := List.mem_map.1 hmem
        exact hseen l hl List.mem_cons_self
      · refine List.forall_mem_cons.2 ⟨hc, ?_⟩
        intro l hl hmem
        exact hseen l hl (List.mem_cons_of_mem c hmem)
    · rintro ⟨lists, hms, hnodup, hseen, rfl⟩
      obtain ⟨⟨c, ws⟩, lists, rfl⟩ : ∃ l ls, lists = l :: ls := by
        cases lists with
        | nil => simp at hms
        | cons l ls => exact ⟨l, ls, rfl⟩
      obtain ⟨hm, rfl⟩ := List.cons.inj hms
      obtain ⟨rfl, rfl⟩ := Prod.mk.inj hm
      rw [List.map_cons, List.nodup_cons] at hnodup
      obtain ⟨hc, hseen⟩ := List.forall_mem_cons.1 hseen
      refine ⟨c, ws, rfl, hc, rfl, lists, rfl, hnodup.2, ?_, rfl⟩
      intro l hl hmem
      rcases List.mem_cons.1 hmem with rfl | hmem
      · exact hnodup.1 (List.mem_map.2 ⟨l, hl, rfl⟩)
      · exact hseen l hl hmem

/-- Items are put in if they are word lists for the classes in turn. -/
theorem setItems?_eq_some_iff {cs : List WordClass} {items : List Json} :
    u.setItems? cs items = some u' ↔ ∃ lists : List (List String),
      items = lists.map .ofWords ∧ lists.length ≤ cs.length ∧ u' = u.setAll (cs.zip lists) := by
  induction items generalizing u cs with
  | nil =>
    constructor
    · intro h
      refine ⟨[], rfl, Nat.zero_le _, ?_⟩
      rw [List.zip_nil_right]
      rw [setItems?] at h
      exact (Option.some.inj h).symm
    · rintro ⟨lists, hitems, -, rfl⟩
      obtain rfl := List.map_eq_nil_iff.1 hitems.symm
      rw [setItems?, List.zip_nil_right]
      rfl
  | cons item items ih =>
    cases cs with
    | nil =>
      constructor
      · intro h
        simp [setItems?] at h
      · rintro ⟨lists, hitems, hlen, -⟩
        obtain rfl := List.length_eq_zero_iff.1 (Nat.le_zero.1 hlen)
        simp at hitems
    | cons c cs =>
      constructor
      · intro h
        obtain ⟨ws, hws, h⟩ := Option.bind_eq_some_iff.1 h
        obtain ⟨lists, rfl, hlen, rfl⟩ := ih.1 h
        obtain rfl := wordsOfJson?_eq_some_iff.1 hws
        exact ⟨ws :: lists, rfl, Nat.succ_le_succ hlen, rfl⟩
      · rintro ⟨lists, hitems, hlen, rfl⟩
        obtain ⟨ws, lists, rfl⟩ : ∃ ws wss, lists = ws :: wss := by
          cases lists with
          | nil => simp at hitems
          | cons ws wss => exact ⟨ws, wss, rfl⟩
        obtain ⟨rfl, rfl⟩ := List.cons.inj hitems
        refine Option.bind_eq_some_iff.2 ⟨ws, wordsOfJson?_ofWords ws, ?_⟩
        exact ih.2 ⟨lists, rfl, Nat.le_of_succ_le_succ hlen, rfl⟩

/-- **The JSON values that write a vocabulary**, and which one they write. -/
theorem ofJson?_eq_some_iff : ofJson? json = some u ↔
    (∃ lists, json = toObject lists ∧ (lists.map Prod.fst).Nodup ∧ u = builtin.setAll lists) ∨
    ∃ lists, json = toArray lists ∧ lists.length ≤ WordClass.all.length ∧
      u = builtin.setAll (WordClass.all.zip lists) := by
  cases json with
  | object ms =>
    simp [ofJson?, setMembers?_eq_some_iff, toObject, toArray]
  | array items =>
    simp [ofJson?, setItems?_eq_some_iff, toObject, toArray]
  | _ => simp [ofJson?, toObject, toArray]

/-! ### Texts and files -/

theorem decode_eq_ok_iff : decode text = .ok u ↔
    ∃ json, Json.ofText? text = some json ∧ ofJson? json = some u := by
  rw [decode]
  cases Json.ofText? text with
  | none => simp
  | some json =>
    cases hu : ofJson? json with
    | none => simp [hu]
    | some v => simp [hu]

theorem checked_eq_ok_iff : v.checked = .ok u ↔ v = u ∧ u.Valid := by
  rw [checked]
  split
  case h_1 hvalid =>
    constructor
    · rintro ⟨⟩
      exact ⟨rfl, hvalid⟩
    · rintro ⟨rfl, -⟩
      rfl
  case h_2 e herror =>
    constructor
    · rintro ⟨⟩
    · rintro ⟨rfl, hvalid⟩
      rw [Valid, herror] at hvalid
      simp at hvalid

/-- **A text gives the vocabulary that it writes if that is valid.** -/
theorem ofText_eq_ok_iff : ofText text = .ok u ↔ decode text = .ok u ∧ u.Valid := by
  rw [ofText, Outcome.bind_eq_ok_iff]
  constructor
  · rintro ⟨v, hv, hchecked⟩
    obtain ⟨rfl, hvalid⟩ := checked_eq_ok_iff.1 hchecked
    exact ⟨hv, hvalid⟩
  · rintro ⟨hu, hvalid⟩
    exact ⟨u, hu, checked_eq_ok_iff.2 ⟨rfl, hvalid⟩⟩

/-- **A file gives what its content does**, but for a note in front of the error where the content
is no vocabulary. -/
theorem ofFile_eq {files : Files} {path : String} (h : files path = .ok text) :
    ofFile files path =
      (ofText text).mapError (Error.withContext ("invalid vocabulary " ++ path)) := by
  simp only [ofFile, ofText, h]
  cases decode text with
  | error e => rfl
  | ok v =>
    -- an error of the validation takes no note
    have hchecked : v.checked =
        v.checked.mapError (Error.withContext ("invalid vocabulary " ++ path)) := by
      rw [checked]
      split <;> rfl
    exact hchecked

theorem ofFile_eq_ok_iff {files : Files} {path : String} :
    ofFile files path = .ok u ↔ ∃ text, files path = .ok text ∧ ofText text = .ok u := by
  cases hfile : files path with
  | error fault => simp [ofFile, hfile]
  | ok text =>
    rw [ofFile_eq hfile]
    cases htext : ofText text with
    | error e => simp [Except.mapError, htext]
    | ok v => simp [Except.mapError, htext]

theorem valid_of_ofFile {files : Files} {path : String} (h : ofFile files path = .ok u) :
    u.Valid := by
  obtain ⟨text, -, htext⟩ := ofFile_eq_ok_iff.1 h
  exact (ofText_eq_ok_iff.1 htext).2

/-- A table error from a file is one of the validation, which is that of the content. -/
theorem ofFile_eq_error_iff {files : Files} {path : String} (h : files path = .ok text)
    {e : TableError} : ofFile files path = .error (.table e) ↔ ofText text = .error (.table e) := by
  rw [ofFile_eq h]
  cases ofText text with
  | error e' => cases e' <;> simp [Except.mapError, Error.withContext]
  | ok v => simp [Except.mapError]

/-! ### Written lists are read back -/

theorem valid_setAll_listsOf (hv : v.Valid) (cs : List WordClass) :
    (builtin.setAll (v.listsOf cs)).Valid := by
  refine valid_iff.2 ?_
  intro c
  rw [words_setAll_listsOf]
  split
  · exact valid_iff.1 hv c
  · exact valid_iff.1 valid_builtin c

/-- A text of a value that writes some lists of a valid vocabulary gives these lists, and the
built-in ones for the other classes. -/
theorem exists_ofText_of_isText (hv : v.Valid) {cs : List WordClass}
    (hjson : ofJson? json = some (builtin.setAll (v.listsOf cs)))
    (htext : Json.IsText json text.toList) :
    ∃ u, ofText text = .ok u ∧ ∀ c, u.words c = if c ∈ cs then v.words c else builtin.words c := by
  have hdecode := decode_eq_ok_iff.2 ⟨json, Json.ofText?_of_isText htext, hjson⟩
  exact ⟨_, ofText_eq_ok_iff.2 ⟨hdecode, valid_setAll_listsOf hv cs⟩,
    words_setAll_listsOf builtin v cs⟩

theorem zip_take_map (v : Vocabulary) (cs : List WordClass) (k : Nat) :
    cs.zip ((cs.take k).map v.words) = v.listsOf (cs.take k) := by
  induction cs generalizing k with
  | nil => simp [listsOf]
  | cons c cs ih =>
    cases k with
    | zero => rfl
    | succ k => exact congrArg ((c, v.words c) :: ·) (ih k)

/-- **Vocabularies as JSON.**  An object with some lists of a valid vocabulary, in any order, and an
array of its first lists are read back, whatever white space and escapes they are written with; the
other lists are the built-in ones.  All that is read, from a text or from a file, is valid, and a
file gives the vocabulary, or the error of the validation, that its content gives. -/
theorem ofText_written (hv : v.Valid) :
    (∀ cs : List WordClass, cs.Nodup → ∀ text, Json.IsText (toObject (v.listsOf cs)) text.toList →
      ∃ u, ofText text = .ok u ∧
        ∀ c, u.words c = if c ∈ cs then v.words c else builtin.words c) ∧
    (∀ k text, Json.IsText (toArray ((WordClass.all.take k).map v.words)) text.toList →
      ∃ u, ofText text = .ok u ∧
        ∀ c, u.words c = if c ∈ WordClass.all.take k then v.words c else builtin.words c) ∧
    (∀ text u, ofText text = .ok u → u.Valid) ∧
    (∀ files path u, ofFile files path = .ok u → u.Valid) ∧
    ∀ files path text, files path = .ok text →
      (∀ u, ofFile files path = .ok u ↔ ofText text = .ok u) ∧
      ∀ e, ofFile files path = .error (.table e) ↔ ofText text = .error (.table e) := by
  refine ⟨?_, ?_, fun _ _ h => (ofText_eq_ok_iff.1 h).2, fun _ _ _ => valid_of_ofFile, ?_⟩
  · intro cs hnodup text htext
    have hclasses : (v.listsOf cs).map Prod.fst = cs := by
      rw [listsOf, List.map_map]
      exact List.map_id cs
    exact exists_ofText_of_isText hv
      (ofJson?_eq_some_iff.2 (.inl ⟨_, rfl, by rwa [hclasses], rfl⟩)) htext
  · intro k text htext
    have hlen : ((WordClass.all.take k).map v.words).length ≤ WordClass.all.length := by
      rw [List.length_map]
      exact List.length_take_le' k _
    refine exists_ofText_of_isText hv (ofJson?_eq_some_iff.2 (.inr ⟨_, rfl, hlen, ?_⟩)) htext
    rw [zip_take_map]
  · intro files path text hfile
    refine ⟨?_, fun e => ofFile_eq_error_iff hfile⟩
    intro u
    rw [ofFile_eq_ok_iff, hfile]
    simp

/-- The built-in words with one keyword only. -/
def oneKeyword : Vocabulary := { builtin with keywords := ["if"] }

/-- An object with escapes in a name and in a word, and an array in a file, both for the keywords
alone. -/
theorem ofText_written_oneKeyword : oneKeyword.Valid ∧
    Json.IsText (toObject (oneKeyword.listsOf [.keywords]))
      "\x7b \"\\u006beywords\": [\"i\\u0066\"]\x7d".toList ∧
    Json.IsText (toArray ((WordClass.all.take 1).map oneKeyword.words)) "[[\"if\" ]]".toList ∧
    (∃ u, ofText "\x7b \"\\u006beywords\": [\"i\\u0066\"]\x7d" = .ok u ∧
      u.words .keywords = ["if"] ∧ u.words .types = builtin.words .types) ∧
    ∃ u, ofFile (fun _ => .ok "[[\"if\" ]]") "words.json" = .ok u ∧ u.Valid ∧
      u.words .keywords = ["if"] := by
  have hv : oneKeyword.Valid := by
    unfold Valid
    decide +kernel
  have hnone : Json.IsGap [] := by decide
  have hspace : Json.IsGap [' '] := by decide
  have hname : Json.StringText "keywords"
      ('"' :: (['\\', 'u', '0', '0', '6', 'b'] ++
        "eywords".toList.flatMap Json.stringChar ++ ['"'])) :=
    ⟨_, .cons (.code rfl) (Json.charsText_flatMap _), rfl⟩
  have hword : Json.StringText "if" ['"', 'i', '\\', 'u', '0', '0', '6', '6', '"'] :=
    ⟨_, .cons (.plain (by decide) (by decide) (by decide)) (.cons (.code rfl) .nil), rfl⟩
  have hobject : Json.IsText (toObject (oneKeyword.listsOf [.keywords]))
      "\x7b \"\\u006beywords\": [\"i\\u0066\"]\x7d".toList := by
    have hlist := Json.Written.element hspace (.array (.lastElement (.element hnone
      (.string hword) hnone))) hnone
    exact .element hnone (.object (.lastMember (.member hspace hname hnone hlist))) hnone
  have harray : Json.IsText (toArray ((WordClass.all.take 1).map oneKeyword.words))
      "[[\"if\" ]]".toList := by
    have hlist := Json.Written.element hnone (.array (.lastElement (.element hnone
      (.string (Json.stringText_isText "if")) hspace))) hnone
    exact .element hnone (.array (.lastElement hlist)) hnone
  obtain ⟨hobjects, harrays, -, hvalid, hfiles⟩ := ofText_written hv
  obtain ⟨u, hu, hwords⟩ := hobjects [.keywords] (by decide) _ hobject
  obtain ⟨u', hu', hwords'⟩ := harrays 1 _ harray
  have hfile := ((hfiles (fun _ => .ok "[[\"if\" ]]") "words.json" _ rfl).1 u').2 hu'
  exact ⟨hv, hobject, harray, ⟨u, hu, hwords .keywords, hwords .types⟩, u', hfile,
    hvalid _ _ _ hfile, hwords' .keywords⟩

end Vocabulary

end LineLexer
