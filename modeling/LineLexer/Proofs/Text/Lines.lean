import Mathlib.Data.List.Basic
import LineLexer.Text.Basic

/-!
# The two splittings of a text into lines

The lines of a buffer and those of a finished text come from the same parts, the stretches
between line feeds (`exists_splitLineFeeds_eq`).  They differ at the end of the text only
(`bufferLines_eq_lineTexts`): a buffer has an empty line after a final line feed, and a finished
text keeps a carriage return that nothing follows.

What the lines of a finished text are can be said without splitting it (`IsLines`), and `lineTexts`
gives these (`isLines_iff`).  So a text can be cut wherever a line ends
(`lineTexts_append_of_ends`).
-/

namespace LineLexer

/-- **A text is its parts** with a line feed after each but the last, which holds none. -/
theorem exists_splitLineFeeds_eq (text : List Char) : ∃ front last,
    splitLineFeeds text = front ++ [last] ∧ '\n' ∉ last ∧
      text = front.flatMap (· ++ ['\n']) ++ last := by
  induction text with
  | nil => exact ⟨[], [], rfl, List.not_mem_nil, rfl⟩
  | cons c cs ih =>
    obtain ⟨front, last, hsplit, hlast, htext⟩ := ih
    by_cases hc : c = '\n'
    · subst hc
      refine ⟨[] :: front, last, ?_, hlast, ?_⟩
      · rw [splitLineFeeds, if_pos rfl, hsplit, List.cons_append]
      · rw [htext]
        rfl
    · -- the character goes in front of the first part, which may be the last one
      cases front with
      | nil =>
        refine ⟨[], c :: last, ?_, ?_, ?_⟩
        · rw [splitLineFeeds, if_neg hc, hsplit]
          rfl
        · simpa [Ne.symm hc] using hlast
        · rw [htext]
          rfl
      | cons line front =>
        refine ⟨(c :: line) :: front, last, ?_, hlast, ?_⟩
        · rw [splitLineFeeds, if_neg hc, hsplit]
          rfl
        · rw [htext]
          rfl

section

variable {text last : List Char} {front : List (List Char)}

theorem eq_of_splitLineFeeds (hsplit : splitLineFeeds text = front ++ [last]) :
    '\n' ∉ last ∧ text = front.flatMap (· ++ ['\n']) ++ last := by
  obtain ⟨front', last', hsplit', hlast, htext⟩ := exists_splitLineFeeds_eq text
  obtain ⟨rfl, rfl⟩ : front' = front ∧ last' = last := by
    simpa using List.append_inj' (hsplit'.symm.trans hsplit) rfl
  exact ⟨hlast, htext⟩

/-- The last part shows how the text ends. -/
theorem getLast?_of_splitLineFeeds (hsplit : splitLineFeeds text = front ++ [last])
    (hne : last ≠ []) : text.getLast? = last.getLast? := by
  obtain ⟨-, htext⟩ := eq_of_splitLineFeeds hsplit
  rw [htext, List.getLast?_append]
  cases hlast : last.getLast? with
  | none => exact absurd (List.getLast?_eq_none_iff.1 hlast) hne
  | some c => rfl

/-- The last part is empty where no line is begun at the end of the text. -/
theorem eq_nil_iff_of_splitLineFeeds (hsplit : splitLineFeeds text = front ++ [last]) :
    last = [] ↔ text = [] ∨ text.getLast? = some '\n' := by
  obtain ⟨hlast, htext⟩ := eq_of_splitLineFeeds hsplit
  constructor
  · rintro rfl
    rcases List.eq_nil_or_concat front with rfl | ⟨lines, line, rfl⟩
    · exact .inl htext
    · refine .inr ?_
      rw [htext]
      simp
  · rintro (rfl | hfeed)
    · exact (List.append_eq_nil_iff.1 htext.symm).2
    · by_contra hne
      rw [getLast?_of_splitLineFeeds hsplit hne] at hfeed
      exact hlast (List.mem_of_getLast? hfeed)

theorem bufferLines_of_splitLineFeeds (hsplit : splitLineFeeds text = front ++ [last]) :
    bufferLines text = front.map dropFinalReturn ++ [dropFinalReturn last] := by
  rw [bufferLines, hsplit, List.map_append, List.map_singleton]

theorem lineTexts_of_splitLineFeeds (hsplit : splitLineFeeds text = front ++ [last]) :
    lineTexts text = front.map dropFinalReturn ++ if last = [] then [] else [last] := by
  simp only [lineTexts, hsplit, List.dropLast_concat, List.getLast?_concat, Option.toList_some]
  cases last <;> rfl

end

theorem dropFinalReturn_sublist (cs : List Char) : (dropFinalReturn cs).Sublist cs := by
  rw [dropFinalReturn]
  split
  · exact List.dropLast_sublist cs
  · exact .refl cs

/-- Lines hold no characters but those of the text. -/
theorem mem_of_mem_lineTexts {text line : List Char} (h : line ∈ lineTexts text) {c : Char}
    (hc : c ∈ line) : c ∈ text := by
  obtain ⟨front, last, hsplit, -, htext⟩ := exists_splitLineFeeds_eq text
  rw [lineTexts_of_splitLineFeeds hsplit, List.mem_append] at h
  rw [htext, List.mem_append]
  rcases h with h | h
  · obtain ⟨part, hpart, rfl⟩ := List.mem_map.1 h
    have hmem : c ∈ part := (dropFinalReturn_sublist part).subset hc
    exact .inl (List.mem_flatMap.2 ⟨part, hpart, List.mem_append_left _ hmem⟩)
  · by_cases hlast : last = []
    · simp [hlast] at h
    · rw [if_neg hlast, List.mem_singleton] at h
      exact .inr (h ▸ hc)

theorem dropFinalReturn_concat (cs : List Char) : dropFinalReturn (cs ++ ['\r']) = cs := by
  simp [dropFinalReturn]

theorem dropFinalReturn_of_ne {cs : List Char} (h : cs.getLast? ≠ some '\r') :
    dropFinalReturn cs = cs := if_neg h

/-- **The lines of a buffer are the lines of the finished text**, with an empty line after them
where the text is empty or ends in a line feed.  Only a carriage return at the very end makes a
difference: it stays in the last line of the finished text. -/
theorem bufferLines_eq_lineTexts (text : List Char) :
    (text.getLast? ≠ some '\r' → bufferLines text =
        lineTexts text ++ if text = [] ∨ text.getLast? = some '\n' then [[]] else []) ∧
      (text.getLast? = some '\r' → ∃ front line,
        bufferLines text = front ++ [line] ∧ lineTexts text = front ++ [line ++ ['\r']]) := by
  obtain ⟨front, last, hsplit, -, -⟩ := exists_splitLineFeeds_eq text
  have hempty := eq_nil_iff_of_splitLineFeeds hsplit
  rw [bufferLines_of_splitLineFeeds hsplit, lineTexts_of_splitLineFeeds hsplit]
  by_cases hlast : last = []
  · -- the text ends a line, so the buffer has one more
    have hends := hempty.1 hlast
    constructor
    · intro _
      rw [if_pos hends, if_pos hlast, hlast, List.append_nil]
      rfl
    · intro hreturn
      rcases hends with rfl | hfeed
      · simp at hreturn
      · rw [hfeed] at hreturn
        simp at hreturn
  · have hends : ¬ (text = [] ∨ text.getLast? = some '\n') := fun h => hlast (hempty.2 h)
    rw [if_neg hends, if_neg hlast, getLast?_of_splitLineFeeds hsplit hlast]
    constructor
    · intro hreturn
      rw [dropFinalReturn_of_ne hreturn, List.append_nil]
    · intro hreturn
      obtain ⟨line, rfl⟩ := List.getLast?_eq_some_iff.1 hreturn
      exact ⟨_, line, by rw [dropFinalReturn_concat], rfl⟩

/-! ### Cutting a text at a line feed -/

theorem splitLineFeeds_ne_nil (text : List Char) : splitLineFeeds text ≠ [] := by
  obtain ⟨front, last, hsplit, -, -⟩ := exists_splitLineFeeds_eq text
  rw [hsplit]
  exact List.concat_ne_nil _ _

/-- The parts of a text are those in front of a line feed and those behind it. -/
theorem splitLineFeeds_append_feed (xs ys : List Char) :
    splitLineFeeds (xs ++ '\n' :: ys) = splitLineFeeds xs ++ splitLineFeeds ys := by
  induction xs with
  | nil => rfl
  | cons c cs ih =>
    rw [List.cons_append, splitLineFeeds, splitLineFeeds, ih]
    split
    · rfl
    · obtain ⟨line, lines, hcs⟩ := List.exists_cons_of_ne_nil (splitLineFeeds_ne_nil cs)
      rw [hcs]
      rfl

theorem splitLineFeeds_intercalate {texts : List (List Char)} (h : texts ≠ []) :
    splitLineFeeds (['\n'].intercalate texts) = texts.flatMap splitLineFeeds := by
  induction texts with
  | nil => exact absurd rfl h
  | cons text texts ih =>
    cases texts with
    | nil => simp
    | cons next texts =>
      rw [List.intercalate_cons_cons, List.append_assoc, List.singleton_append,
        splitLineFeeds_append_feed, ih (List.cons_ne_nil next texts)]
      rfl

section

variable {line : List Char}

theorem splitLineFeeds_of_notMem (hline : '\n' ∉ line) : splitLineFeeds line = [line] := by
  induction line with
  | nil => rfl
  | cons c cs ih =>
    obtain ⟨hc, hcs⟩ := not_or.1 (List.mem_cons.not.1 hline)
    rw [splitLineFeeds, if_neg (Ne.symm hc), ih hcs]

theorem splitLineFeeds_append (hline : '\n' ∉ line) (rest : List Char) :
    splitLineFeeds (line ++ '\n' :: rest) = line :: splitLineFeeds rest := by
  rw [splitLineFeeds_append_feed, splitLineFeeds_of_notMem hline, List.singleton_append]

theorem lineTexts_of_notMem (hline : '\n' ∉ line) (hne : line ≠ []) :
    lineTexts line = [line] := by
  simp [lineTexts, splitLineFeeds_of_notMem hline, hne]

theorem lineTexts_append (hline : '\n' ∉ line) (rest : List Char) :
    lineTexts (line ++ '\n' :: rest) = dropFinalReturn line :: lineTexts rest := by
  have hparts := splitLineFeeds_ne_nil rest
  rw [lineTexts, splitLineFeeds_append hline]
  simp only [List.dropLast_cons_of_ne_nil hparts, List.getLast?_cons_of_ne_nil hparts,
    List.map_cons, List.cons_append]
  rfl

end

/-! ### The lines of a finished text -/

/-- The lines of a text.  A line feed ends a line, and so does a carriage return with a line feed
behind it; a carriage return anywhere else is part of its line.  The last line may have no end if
it is not empty. -/
inductive IsLines : List Char → List (List Char) → Prop where
  | nil : IsLines [] []
  | last {line : List Char} (hline : '\n' ∉ line) (hne : line ≠ []) : IsLines line [line]
  | feed {line rest : List Char} {ls : List (List Char)} (hline : '\n' ∉ line)
    (hreturn : line.getLast? ≠ some '\r') (hrest : IsLines rest ls) :
    IsLines (line ++ '\n' :: rest) (line :: ls)
  | returnFeed {line rest : List Char} {ls : List (List Char)} (hline : '\n' ∉ line)
    (hrest : IsLines rest ls) : IsLines (line ++ '\r' :: '\n' :: rest) (line :: ls)

namespace IsLines

variable {text front back : List Char} {ls ls' : List (List Char)}

theorem eq_lineTexts (h : IsLines text ls) : ls = lineTexts text := by
  induction h with
  | nil => rfl
  | last hline hne => rw [lineTexts_of_notMem hline hne]
  | feed hline hreturn _ ih => rw [lineTexts_append hline, dropFinalReturn_of_ne hreturn, ih]
  | @returnFeed line rest ls hline _ ih =>
    have hline' : '\n' ∉ line ++ ['\r'] := by simpa using hline
    have hcut := lineTexts_append hline' rest
    rw [dropFinalReturn_concat, List.append_assoc] at hcut
    rw [ih]
    exact hcut.symm

/-- A line with a line feed behind it goes in front of the lines of a text. -/
theorem cons {line : List Char} (hline : '\n' ∉ line) (h : IsLines text ls) :
    IsLines (line ++ '\n' :: text) (dropFinalReturn line :: ls) := by
  by_cases hreturn : line.getLast? = some '\r'
  · obtain ⟨line, rfl⟩ := List.getLast?_eq_some_iff.1 hreturn
    rw [dropFinalReturn_concat, List.append_assoc]
    exact .returnFeed (fun h => hline (List.mem_append_left _ h)) h
  · rw [dropFinalReturn_of_ne hreturn]
    exact .feed hline hreturn h

/-- Lines go on after a line feed. -/
theorem append (h : IsLines front ls) (hends : front = [] ∨ front.getLast? = some '\n')
    (h' : IsLines back ls') : IsLines (front ++ back) (ls ++ ls') := by
  -- what stands behind the first line feed ends as the whole text does
  have hrest {line rest : List Char} (h : line ++ '\n' :: rest = [] ∨
      (line ++ '\n' :: rest).getLast? = some '\n') : rest = [] ∨ rest.getLast? = some '\n' := by
    cases rest with
    | nil => exact .inl rfl
    | cons c cs => simpa using h
  induction h with
  | nil => exact h'
  | last hline hne =>
    rcases hends with hnil | hfeed
    · exact absurd hnil hne
    · exact absurd (List.mem_of_getLast? hfeed) hline
  | feed hline hreturn _ ih =>
    rw [List.append_assoc]
    exact .feed hline hreturn (ih (hrest hends))
  | @returnFeed line rest ls hline _ ih =>
    have hends' : (line ++ ['\r']) ++ '\n' :: rest = [] ∨
        ((line ++ ['\r']) ++ '\n' :: rest).getLast? = some '\n' := by simpa using hends
    rw [List.append_assoc]
    exact .returnFeed hline (ih (hrest hends'))

end IsLines

/-- Every text has lines. -/
theorem exists_isLines (text : List Char) : ∃ ls, IsLines text ls := by
  induction text with
  | nil => exact ⟨[], .nil⟩
  | cons c cs ih =>
    obtain ⟨ls, hls⟩ := ih
    by_cases hc : c = '\n'
    · subst hc
      exact ⟨_, hls.cons List.not_mem_nil⟩
    · -- the character goes in front of the first line
      have hfront {line : List Char} (hline : '\n' ∉ line) : '\n' ∉ c :: line := by
        simpa [Ne.symm hc] using hline
      cases hls with
      | nil => exact ⟨[[c]], .last (hfront List.not_mem_nil) (List.cons_ne_nil c [])⟩
      | last hline _ => exact ⟨_, .last (hfront hline) (List.cons_ne_nil c _)⟩
      | feed hline _ hrest => exact ⟨_, hrest.cons (hfront hline)⟩
      | returnFeed hline hrest => exact ⟨_, .returnFeed (hfront hline) hrest⟩

/-- **The lines of a text are those that `lineTexts` gives.** -/
theorem isLines_iff {text : List Char} {ls : List (List Char)} :
    IsLines text ls ↔ ls = lineTexts text := by
  constructor
  · exact IsLines.eq_lineTexts
  · rintro rfl
    obtain ⟨ls, hls⟩ := exists_isLines text
    exact hls.eq_lineTexts ▸ hls

/-- **A text can be cut where a line ends**: its lines are those of both parts. -/
theorem lineTexts_append_of_ends {front : List Char}
    (hends : front = [] ∨ front.getLast? = some '\n') (back : List Char) :
    lineTexts (front ++ back) = lineTexts front ++ lineTexts back := by
  have hlines : IsLines (front ++ back) (lineTexts front ++ lineTexts back) :=
    (isLines_iff.2 rfl).append hends (isLines_iff.2 rfl)
  exact hlines.eq_lineTexts.symm

end LineLexer
