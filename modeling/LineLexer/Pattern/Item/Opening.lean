import LineLexer.Pattern.Item

/-!
# Openings of groups in pattern text

A parenthesis opens a group.  A question mark after it tells what kind of group it is: one with
a name, one that captures nothing, or none at all but a change of flags.
-/

namespace LineLexer

namespace PatternItem

/-- The flag that a letter stands for. -/
def flag? : Char → Option PatternFlag
  | 'i' => some .anyCase
  | 'm' => some .multiLine
  | 's' => some .dotAll
  | 'U' => some .lazyFirst
  | 'u' => some .unicode
  | _ => none

/-- Reads flags up to the colon or the parenthesis after them, which is given too.  Flags after
a hyphen are cleared; at least one follows it, and no flag stands twice. -/
def readFlags (value : Bool) (seen : FlagSettings) :
    List Char → Reading (FlagSettings × Char × List Char)
  | [] => .error .unclosedGroup
  | c :: cs =>
    if c = ':' || c = ')' then
      if value || seen.getLast?.any (fun s => !s.2) then .ok (seen, c, cs)
      else .error .badFlags
    else if c = '-' then
      if value then readFlags false seen cs else .error .badFlags
    else
      match flag? c with
      | some f =>
        if seen.any (·.1 == f) then .error .badFlags else readFlags value (seen ++ [(f, value)]) cs
      | none => .error .badFlags

/-- A character that can stand in the name of a group, or begin it. -/
def isNameChar (first : Bool) (c : Char) : Bool :=
  c == '_' || (if first then !c.isDigit && isWordChar c
    else c == '.' || c == '[' || c == ']' || isWordChar c)

/-- Reads the name of a group and the angle bracket that closes it. -/
def readName (cs : List Char) : Reading (String × List Char) :=
  let name := cs.takeWhile (· != '>')
  match cs.dropWhile (· != '>'), name with
  | _ :: rest, c :: more =>
    if isNameChar true c && more.all (isNameChar false) then .ok (String.ofList name, rest)
    else .error .badGroupName
  | _, _ => .error .badGroupName

/-- Reads what follows an opening parenthesis and tells what kind of group it opens. -/
def readOpening : List Char → Reading (PatternItem × List Char)
  | '?' :: '=' :: _ | '?' :: '!' :: _ => .error .lookAround
  | '?' :: '<' :: '=' :: _ | '?' :: '<' :: '!' :: _ => .error .lookAround
  | '?' :: '<' :: cs | '?' :: 'P' :: '<' :: cs =>
    (readName cs).map fun (name, rest) => (.opening true (some name) [], rest)
  | '?' :: cs =>
    match readFlags true [] cs with
    | .error e => .error e
    | .ok (settings, closer, rest) =>
      if closer = ':' then .ok (.opening false none settings, rest)
      else if settings.isEmpty then .error .missingOperand
      else .ok (.flags settings, rest)
  | cs => .ok (.opening true none [], cs)

theorem readFlags_length {value : Bool} {seen settings : FlagSettings} {cs rest : List Char}
    {c : Char} (h : readFlags value seen cs = .ok (settings, c, rest)) :
    rest.length ≤ cs.length := by
  fun_induction readFlags value seen cs with
  | case2 =>
    obtain ⟨-, -, rfl⟩ := by simpa using h
    simp
  | case4 _ _ _ ih =>
    have := ih h
    simp only [List.length_cons]
    omega
  | case7 _ _ _ _ _ _ _ _ _ ih =>
    have := ih h
    simp only [List.length_cons]
    omega
  | _ => simp at h

theorem readName_length {cs rest : List Char} {name : String}
    (h : readName cs = .ok (name, rest)) : rest.length ≤ cs.length := by
  unfold readName at h
  dsimp only at h
  split at h
  · rename_i d rest' c more hd _
    split at h
    · obtain ⟨-, rfl⟩ := by simpa using h
      have := length_dropWhile_le (· != '>') cs
      rw [hd, List.length_cons] at this
      omega
    · simp at h
  · simp at h

theorem readOpening_length {cs rest : List Char} {i : PatternItem}
    (h : readOpening cs = .ok (i, rest)) : rest.length ≤ cs.length := by
  unfold readOpening at h
  split at h
  case h_1 | h_2 | h_3 | h_4 => simp at h
  case h_5 | h_6 =>
    obtain ⟨⟨name, rest'⟩, hn, h⟩ := map_eq_ok h
    obtain ⟨-, rfl⟩ := Prod.mk.inj h
    have := readName_length hn
    simp only [List.length_cons]
    omega
  case h_7 =>
    split at h
    · simp at h
    · rename_i settings closer rest' hf
      have := readFlags_length hf
      simp only [List.length_cons]
      split at h
      · obtain ⟨-, rfl⟩ := by simpa using h
        omega
      · split at h
        · simp at h
        · obtain ⟨-, rfl⟩ := by simpa using h
          omega
  case h_8 =>
    obtain ⟨-, rfl⟩ := by simpa using h
    exact Nat.le_refl _

end PatternItem

end LineLexer
