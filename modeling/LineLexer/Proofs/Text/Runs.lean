import Mathlib.Data.List.Basic
import Mathlib.Data.List.TakeWhile
import LineLexer.Text.Basic

/-!
# Runs of characters

A run is a stretch of characters of one class with none of the class after it.  It is what
`takeWhile` takes and `dropWhile` drops, and where it ends does not depend on how it is found
(`eq_of_run`).

A text is trimmed by dropping the runs at its ends: of line feeds and carriage returns at the end of
a typed line (`trimLineEnd_eq_iff`), of white space at both ends of a text (`trimBlanks_eq_iff`).
-/

namespace LineLexer

variable {q : Char → Bool} {u v r s : List Char}

theorem forall_head?_cons {P : Char → Prop} {c : Char} {cs : List Char} :
    (∀ d ∈ (c :: cs).head?, P d) ↔ P c := by
  simp

theorem dropWhile_run (hu : ∀ c ∈ u, q c) (hr : ∀ c ∈ r.head?, q c = false) :
    (u ++ r).dropWhile q = r := by
  rw [List.dropWhile_append_of_pos hu]
  cases r with
  | nil => rfl
  | cons c r => simp [hr c rfl]

theorem takeWhile_run (hu : ∀ c ∈ u, q c) (hr : ∀ c ∈ r.head?, q c = false) :
    (u ++ r).takeWhile q = u := by
  rw [List.takeWhile_append_of_pos hu]
  cases r with
  | nil => simp
  | cons c r => simp [hr c rfl]

/-- Every text begins with a run of characters, which may be empty. -/
theorem exists_run (q : Char → Bool) (text : List Char) :
    ∃ u r, text = u ++ r ∧ (∀ c ∈ u, q c) ∧ ∀ c ∈ r.head?, q c = false := by
  refine ⟨text.takeWhile q, text.dropWhile q, List.takeWhile_append_dropWhile.symm, ?_, ?_⟩
  · intro c hc
    exact List.mem_takeWhile_imp hc
  · intro c hc
    have hnot := List.head?_dropWhile_not q text
    rw [Option.mem_def.1 hc] at hnot
    simpa using hnot

/-- A text that begins with a run of characters begins with no longer one. -/
theorem exists_append_of_run (h : u ++ r = v ++ s) (hu : ∀ c ∈ u, q c)
    (hr : ∀ c ∈ r.head?, q c = false) (hv : ∀ c ∈ v, q c) : ∃ u', u = v ++ u' ∧ s = u' ++ r := by
  have htake := takeWhile_run hu hr
  rw [h, List.takeWhile_append_of_pos hv] at htake
  refine ⟨_, htake.symm, ?_⟩
  rw [← htake, List.append_assoc] at h
  exact (List.append_cancel_left h).symm

/-- Where a run of characters ends does not depend on how it is found. -/
theorem eq_of_run (h : u ++ r = v ++ s) (hu : ∀ c ∈ u, q c) (hr : ∀ c ∈ r.head?, q c = false)
    (hv : ∀ c ∈ v, q c) (hs : ∀ c ∈ s.head?, q c = false) : u = v ∧ r = s := by
  have huv : u = v := by rw [← takeWhile_run hu hr, h, takeWhile_run hv hs]
  rw [huv] at h
  exact ⟨huv, List.append_cancel_left h⟩

/-! ### Runs at the end -/

theorem dropWhileEnd_append_of_pos (hu : ∀ c ∈ u, q c) (r : List Char) :
    dropWhileEnd q (r ++ u) = dropWhileEnd q r := by
  rw [dropWhileEnd, List.reverse_append, List.dropWhile_append_of_pos (by simpa using hu),
    dropWhileEnd]

theorem dropWhileEnd_run (hu : ∀ c ∈ u, q c) (hr : ∀ c ∈ r.getLast?, q c = false) :
    dropWhileEnd q (r ++ u) = r := by
  have hlast : ∀ c ∈ r.reverse.head?, q c = false := by simpa using hr
  rw [dropWhileEnd, List.reverse_append, dropWhile_run (by simpa using hu) hlast,
    List.reverse_reverse]

/-- Every text ends with a run of characters, which may be empty. -/
theorem exists_run_end (q : Char → Bool) (text : List Char) :
    ∃ r u, text = r ++ u ∧ (∀ c ∈ u, q c) ∧ ∀ c ∈ r.getLast?, q c = false := by
  obtain ⟨u, r, htext, hu, hr⟩ := exists_run q text.reverse
  refine ⟨r.reverse, u.reverse, ?_, by simpa using hu, by simpa using hr⟩
  rw [← List.reverse_append, ← htext, List.reverse_reverse]

/-! ### Trimming -/

/-- The line is what is typed without the line feeds and carriage returns at its end. -/
def IsStripped (typed line : String) : Prop :=
  ∃ ends : List Char, (∀ c ∈ ends, c = '\n' ∨ c = '\r') ∧ typed.toList = line.toList ++ ends ∧
    ∀ c ∈ line.toList.getLast?, c ≠ '\n' ∧ c ≠ '\r'

/-- **Stripping a typed line** takes all off that ends it and nothing else. -/
theorem trimLineEnd_eq_iff {typed line : String} :
    trimLineEnd typed = line ↔ IsStripped typed line := by
  constructor
  · rintro rfl
    obtain ⟨r, u, htyped, hu, hr⟩ := exists_run_end (fun c => c == '\n' || c == '\r') typed.toList
    have hline : (trimLineEnd typed).toList = r := by
      rw [trimLineEnd, htyped, dropWhileEnd_run hu hr, String.toList_ofList]
    rw [IsStripped, hline]
    exact ⟨u, by simpa using hu, htyped, by simpa using hr⟩
  · rintro ⟨ends, hends, htyped, hlast⟩
    rw [trimLineEnd, htyped, dropWhileEnd_run (by simpa using hends) (by simpa using hlast),
      String.ofList_toList]

theorem trimBlanks_append_of_blank (hu : ∀ c ∈ u, isBlank c) (cs : List Char) :
    trimBlanks (String.ofList (cs ++ u)) = trimBlanks (String.ofList cs) := by
  simp only [trimBlanks, String.toList_ofList, List.dropWhile_append]
  by_cases hcs : cs.dropWhile isBlank = []
  · -- nothing but white space is there
    have hnil : u.dropWhile isBlank = [] := List.dropWhile_eq_nil_iff.2 hu
    simp [hcs, hnil]
  · rw [if_neg (by simpa using hcs), dropWhileEnd_append_of_pos hu]

/-- The end of a line is white space, too. -/
theorem trimBlanks_trimLineEnd (typed : String) :
    trimBlanks (trimLineEnd typed) = trimBlanks typed := by
  obtain ⟨ends, hends, htyped, -⟩ := trimLineEnd_eq_iff.1 (rfl : trimLineEnd typed = _)
  have hblank : ∀ c ∈ ends, isBlank c := by
    intro c hc
    rcases hends c hc with rfl | rfl <;> decide
  have happ := trimBlanks_append_of_blank hblank (trimLineEnd typed).toList
  rw [← htyped, String.ofList_toList, String.ofList_toList] at happ
  exact happ.symm

/-- The text stands in the line with nothing but white space around it. -/
def StandsAlone (text line : String) : Prop :=
  ∃ front back : List Char, (∀ c ∈ front, isBlank c) ∧ (∀ c ∈ back, isBlank c) ∧
    line.toList = front ++ text.toList ++ back

/-- **Trimming a line** gives the word that stands in it alone. -/
theorem trimBlanks_eq_iff {text line : String} (hne : text.toList ≠ [])
    (htext : ∀ c ∈ text.toList, isBlank c = false) :
    trimBlanks line = text ↔ StandsAlone text line := by
  constructor
  · rintro rfl
    obtain ⟨front, core, hline, hfront, hcore⟩ := exists_run isBlank line.toList
    obtain ⟨core, back, rfl, hback, hend⟩ := exists_run_end isBlank core
    have htrim : (trimBlanks line).toList = core := by
      rw [trimBlanks, hline, dropWhile_run hfront hcore, dropWhileEnd_run hback hend,
        String.toList_ofList]
    rw [StandsAlone, htrim]
    exact ⟨front, back, hfront, hback, by rw [hline, List.append_assoc]⟩
  · rintro ⟨front, back, hfront, hback, hline⟩
    have hcore : ∀ c ∈ (text.toList ++ back).head?, isBlank c = false := by
      rw [List.head?_append_of_ne_nil _ hne]
      exact fun c hc => htext c (List.mem_of_mem_head? hc)
    have hlast : ∀ c ∈ text.toList.getLast?, isBlank c = false :=
      fun c hc => htext c (List.mem_of_getLast? hc)
    rw [trimBlanks, hline, List.append_assoc, dropWhile_run hfront hcore,
      dropWhileEnd_run hback hlast, String.ofList_toList]

end LineLexer
