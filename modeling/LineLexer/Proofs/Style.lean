import Mathlib.Data.String.Basic
import LineLexer.Style

/-!
# Painted texts without their styles

`Style.unstyled` deletes every sequence from a text that sets a style: an escape character and a
bracket, the codes, and an `m`.  Painting adds nothing else: a painted text without its sequences is
the text itself, if that has no escape character of its own (`Style.unstyled_paint`), and so is a
painted line (`ScannedLine.unstyled_paint`).
-/

namespace LineLexer

namespace Style

/-! ### Deleting sequences -/

/-- A character of the codes in a sequence. -/
def isCodeChar (c : Char) : Bool := c.isDigit || c == ';'

/-- What follows the sequence that a text begins with, if it begins with one. -/
def afterSequence? : List Char → Option (List Char)
  | '\x1b' :: '[' :: cs =>
    match cs.dropWhile isCodeChar with
    | 'm' :: rest => some rest
    | _ => none
  | _ => none

theorem afterSequence?_length {cs rest : List Char} (h : afterSequence? cs = some rest) :
    rest.length < cs.length := by
  unfold afterSequence? at h
  split at h
  · rename_i cs
    split at h
    · rename_i rest' hdrop
      obtain rfl := Option.some.inj h
      have hle := (List.dropWhile_sublist isCodeChar (l := cs)).length_le
      rw [hdrop, List.length_cons] at hle
      simp only [List.length_cons]
      omega
    · simp at h
  · simp at h

/-- A text without the sequences in it. -/
def unstyled : List Char → List Char
  | [] => []
  | c :: cs =>
    match _h : afterSequence? (c :: cs) with
    | some rest => unstyled rest
    | none => c :: unstyled cs
termination_by cs => cs.length
decreasing_by
  · exact afterSequence?_length _h
  · simp

variable {cs rest : List Char}

theorem unstyled_cons_of_ne {c : Char} (hc : c ≠ '\x1b') :
    unstyled (c :: cs) = c :: unstyled cs := by
  have hnone : afterSequence? (c :: cs) = none := by
    unfold afterSequence?
    split
    · rename_i heq
      exact absurd (List.cons.inj heq).1 hc
    · rfl
  rw [unstyled]
  split
  · rename_i hsome
    rw [hnone] at hsome
    simp at hsome
  · rfl

/-- Nothing is deleted in front of the first escape character. -/
theorem unstyled_append (h : '\x1b' ∉ cs) (rest : List Char) :
    unstyled (cs ++ rest) = cs ++ unstyled rest := by
  induction cs with
  | nil => rfl
  | cons c cs ih =>
    rw [List.mem_cons, not_or] at h
    rw [List.cons_append, unstyled_cons_of_ne (Ne.symm h.1), ih h.2, List.cons_append]

theorem unstyled_sequence {codes : List Char} (h : ∀ c ∈ codes, isCodeChar c)
    (rest : List Char) : unstyled ('\x1b' :: '[' :: (codes ++ 'm' :: rest)) = unstyled rest := by
  have hdrop : (codes ++ 'm' :: rest).dropWhile isCodeChar = 'm' :: rest := by
    rw [List.dropWhile_append_of_pos h, List.dropWhile_cons_of_neg (by decide)]
  have hafter : afterSequence? ('\x1b' :: '[' :: (codes ++ 'm' :: rest)) = some rest := by
    simp only [afterSequence?, hdrop]
  rw [unstyled]
  split
  · rename_i rest' hsome
    obtain rfl := Option.some.inj (hafter.symm.trans hsome)
    rfl
  · rename_i hnone
    rw [hafter] at hnone
    simp at hnone

/-! ### Painting -/

theorem isCodeChar_of_mem_codes (s : Style) :
    ∀ c ∈ (String.intercalate ";" s.codes).toList, isCodeChar c := by
  obtain ⟨bold, dimmed, color⟩ := s
  rw [← List.all_eq_true]
  cases bold <;> cases dimmed <;> cases color with
  | none => decide +kernel
  | some color => cases color <;> decide +kernel

theorem unstyled_opening (s : Style) (rest : List Char) :
    unstyled (s.opening ++ rest) = unstyled rest := by
  have hopening : s.opening ++ rest =
      '\x1b' :: '[' :: ((String.intercalate ";" s.codes).toList ++ 'm' :: rest) := by
    simp [opening]
  rw [hopening, unstyled_sequence s.isCodeChar_of_mem_codes]

theorem unstyled_reset (rest : List Char) : unstyled (reset ++ rest) = unstyled rest := by
  have hzero : ∀ c ∈ ['0'], isCodeChar c := by simp [isCodeChar]
  exact unstyled_sequence hzero rest

/-- No style is resumed in a text without resets. -/
theorem resume_of_notMem {opening : List Char} (h : '\x1b' ∉ cs) : resume opening cs = cs := by
  induction cs with
  | nil => rfl
  | cons c cs ih =>
    rw [List.mem_cons, not_or] at h
    rw [resume.eq_2 _ _ _ (by rintro _ rfl _; exact h.1 rfl), ih h.2]

/-- **A painted text without its sequences is the text**, whatever the style. -/
theorem unstyled_paint (s : Style) (colors : Bool) {text : String} (h : '\x1b' ∉ text.toList)
    (rest : List Char) :
    unstyled ((s.paint colors text).toList ++ rest) = text.toList ++ unstyled rest := by
  rw [paint]
  split
  · exact unstyled_append h rest
  · rw [String.toList_ofList, resume_of_notMem h, List.append_assoc, List.append_assoc,
      unstyled_opening, unstyled_append h, unstyled_reset]

/-- Without colors a text is painted as it is. -/
theorem paint_false (s : Style) (text : String) : s.paint false text = text := rfl

end Style

namespace ScannedLine

theorem paint_false (l : ScannedLine) : l.paint false = l.text := rfl

/-- **A painted line without its sequences is the text of the line.** -/
theorem unstyled_paint (l : ScannedLine) (colors : Bool) (h : '\x1b' ∉ l.text.toList)
    (rest : List Char) :
    Style.unstyled ((l.paint colors).toList ++ rest) = l.text.toList ++ Style.unstyled rest := by
  obtain ⟨tokens, endState⟩ := l
  simp only [text, paint] at h ⊢
  induction tokens with
  | nil => rfl
  | cons t ts ih =>
    rw [List.map_cons, String.join_cons, String.toList_append] at h ⊢
    rw [List.map_cons, String.join_cons, String.toList_append, List.append_assoc]
    rw [List.mem_append, not_or] at h
    rw [Style.unstyled_paint _ _ h.1, ih h.2, List.append_assoc]

end ScannedLine

end LineLexer
