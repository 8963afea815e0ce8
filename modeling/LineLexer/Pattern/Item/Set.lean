import LineLexer.Pattern.Item.Escape

/-!
# Character sets in pattern text

The members of a character set stand between brackets: characters, escapes and ranges.  Sets
within sets and operations between sets are refused.
-/

namespace LineLexer

namespace PatternItem

/-- Reads a character or an escape in a character set. -/
def readMember : List Char → Reading (PatternItem × List Char)
  | [] => .error .unclosedSet
  | '\\' :: cs => readEscape cs
  | c :: cs => .ok (.literal c, cs)

/-- The member that an item makes by itself. -/
def asMember : PatternItem → Reading CharItem
  | .literal c => .ok (.range c c)
  | .property p negated => .ok (.property p negated)
  | _ => .error .badSetMember

/-- The range between two items. -/
def asRange : PatternItem → PatternItem → Reading CharItem
  | .literal lo, .literal hi => if lo ≤ hi then .ok (.range lo hi) else .error .badRange
  | _, _ => .error .badSetMember

/-- Two characters that begin an operation between sets. -/
def isSetOperation (c : Char) (cs : List Char) : Bool :=
  c = '[' || (c = '&' || c = '-' || c = '~') && cs.head? == some c

/-- Reads one member of a character set, or one range of it. -/
def readRange (cs : List Char) : Reading (CharItem × List Char) := do
  let (low, rest) ← readMember cs
  match rest with
  | '-' :: after =>
    if after.head? == some ']' || after.head? == some '-' then
      return (← asMember low, rest)
    else
      let (high, rest) ← readMember after
      return (← asRange low high, rest)
  | _ => return (← asMember low, rest)

theorem readMember_length {cs rest : List Char} {i : PatternItem}
    (h : readMember cs = .ok (i, rest)) : rest.length < cs.length := by
  unfold readMember at h
  split at h
  · simp at h
  · have := readEscape_length h
    simp only [List.length_cons]
    omega
  · obtain ⟨-, rfl⟩ := by simpa using h
    simp

theorem readRange_length {cs rest : List Char} {i : CharItem}
    (h : readRange cs = .ok (i, rest)) : rest.length < cs.length := by
  unfold readRange at h
  obtain ⟨⟨low, rest'⟩, hlow, h⟩ := bind_eq_ok h
  have low_lt := readMember_length hlow
  have single (h : (do return (← asMember low, rest')) = Except.ok (ε := PatternFault) (i, rest)) :
      rest.length < cs.length := by
    obtain ⟨m, -, h⟩ := bind_eq_ok h
    obtain ⟨-, rfl⟩ := by simpa [pure, Except.pure] using h
    exact low_lt
  dsimp only at h
  split at h
  · split at h
    · exact single h
    · obtain ⟨⟨high, rest''⟩, hhigh, h⟩ := bind_eq_ok h
      have := readMember_length hhigh
      obtain ⟨m, -, h⟩ := bind_eq_ok h
      obtain ⟨-, rfl⟩ := by simpa [pure, Except.pure] using h
      simp only [List.length_cons] at low_lt
      omega
  · exact single h

/-- Reads the members of a character set up to the bracket that closes it. -/
def readMembers (cs : List Char) : Reading (List CharItem × List Char) :=
  match cs with
  | [] => .error .unclosedSet
  | ']' :: rest => .ok ([], rest)
  | c :: after =>
    if isSetOperation c after then .error .setOperation
    else
      match _h : readRange (c :: after) with
      | .error e => .error e
      | .ok (item, rest) => (readMembers rest).map fun (items, rest) => (item :: items, rest)
termination_by cs.length
decreasing_by exact readRange_length _h

theorem readMembers_length {cs rest : List Char} {is : List CharItem}
    (h : readMembers cs = .ok (is, rest)) : rest.length ≤ cs.length := by
  fun_induction readMembers cs generalizing is rest with
  | case1 => simp at h
  | case2 cs =>
    obtain ⟨-, rfl⟩ := by simpa using h
    simp
  | case3 => simp at h
  | case4 => simp at h
  | case5 c after _ _ item rest' hr ih =>
    obtain ⟨⟨is', rest''⟩, hm, h⟩ := map_eq_ok h
    obtain ⟨-, rfl⟩ := Prod.mk.inj h
    have := readRange_length hr
    have := ih hm
    omega

/-- Reads a character set after the bracket that opens it.  Hyphens in front stand for
themselves, and so does a closing bracket in front of everything else. -/
def readSet (cs : List Char) : Reading (PatternItem × List Char) :=
  let negated := cs.head? == some '^'
  let cs := if negated then cs.drop 1 else cs
  let hyphens := cs.takeWhile (· == '-')
  let cs := cs.dropWhile (· == '-')
  let bracket := hyphens.isEmpty && cs.head? == some ']'
  let cs := if bracket then cs.drop 1 else cs
  let front := (if bracket then [']'] else hyphens).map fun c => CharItem.range c c
  (readMembers cs).map fun (items, rest) => (.set (front ++ items) negated, rest)

theorem readSet_length {cs rest : List Char} {i : PatternItem}
    (h : readSet cs = .ok (i, rest)) : rest.length ≤ cs.length := by
  obtain ⟨⟨is, rest'⟩, hm, h⟩ := map_eq_ok h
  obtain ⟨-, rfl⟩ := Prod.mk.inj h
  have drop_le (b : Bool) (xs : List Char) : (if b then xs.drop 1 else xs).length ≤ xs.length := by
    split <;> simp
  exact Nat.le_trans (readMembers_length hm)
    (Nat.le_trans (drop_le _ _) (Nat.le_trans (length_dropWhile_le _ _) (drop_le _ _)))

end PatternItem

end LineLexer
