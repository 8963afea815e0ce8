import LineLexer.Proofs.Pattern.Spelling

/-!
# Texts that a pattern refuses

Two facts that the shape of a pattern shows about all texts that it spells: which characters they
cannot begin with (`Pattern.blockedBy`), and that they contain a character of a certain sort
(`Pattern.needs`).  Both give texts in which the pattern is not found.
-/

namespace LineLexer

/-- Every character of the set satisfies `q`, as far as its items show. -/
def CharSet.onlyHolds (q : Char → Bool) (cs : CharSet) : Bool :=
  !cs.negated && !cs.anyCase && cs.items.all fun
    | .range lo hi => lo == hi && q lo
    | .property _ _ => false

theorem CharSet.holds_of_onlyHolds {q : Char → Bool} {cs : CharSet} (h : cs.onlyHolds q) {c : Char}
    (hc : cs.holds c) : q c := by
  obtain ⟨items, negated, anyCase⟩ := cs
  simp only [onlyHolds, Bool.and_eq_true, Bool.not_eq_true', List.all_eq_true] at h
  obtain ⟨⟨rfl, rfl⟩, hitems⟩ := h
  have hany : ∃ i ∈ items, i.holds c := by simpa [holds] using hc
  obtain ⟨i, hi, hic⟩ := hany
  have hone := hitems i hi
  cases i with
  | property p negated => simp at hone
  | range lo hi =>
    obtain ⟨rfl, hq⟩ := by simpa using hone
    obtain rfl : c = lo := Pattern.holds_single.1 (by simpa [holds, single] using hic)
    exact hq

namespace Pattern

/-! ### First characters -/

/-- A text in front of `c` that is spelled is empty, as far as the shape of the pattern shows. -/
def stillBefore (c : Char) : Pattern → Bool
  | .empty | .look _ => true
  | .set cs => !cs.holds c
  | .seq p q | .alt p q => p.stillBefore c && q.stillBefore c
  | .opt _ p | .star _ p | .plus _ p | .group _ p => p.stillBefore c

/-- No text is spelled in front of `c`, as far as the shape of the pattern shows. -/
def blockedBy (c : Char) : Pattern → Bool
  | .set cs => !cs.holds c
  | .look l => l == .textEnd
  | .seq p q => p.blockedBy c || p.stillBefore c && q.blockedBy c
  | .alt p q => p.blockedBy c && q.blockedBy c
  | .plus _ p | .group _ p => p.blockedBy c
  | .empty | .opt _ _ | .star _ _ => false

section

variable {p : Pattern} {c : Char} {before : Option Char} {w after : List Char}

theorem not_holds_of_head? {cs : CharSet} (hcs : cs.holds c = false)
    (h : (set cs).Spells before w after) (hhead : (w ++ after).head? = some c) : False := by
  obtain ⟨d, hd, rfl⟩ := h
  obtain rfl : d = c := by simpa using hhead
  simp [hcs] at hd

theorem eq_nil_of_stillBefore (hp : p.stillBefore c) (h : p.Spells before w after)
    (hhead : (w ++ after).head? = some c) : w = [] := by
  induction p generalizing before w after with
  | empty => exact h
  | look l => exact h.1
  | set cs => exact (not_holds_of_head? (by simpa [stillBefore] using hp) h hhead).elim
  | seq p q ihp ihq =>
    rw [stillBefore, Bool.and_eq_true] at hp
    obtain ⟨u, v, rfl, hu, hv⟩ := h
    rw [List.append_assoc] at hhead
    obtain rfl := ihp hp.1 hu hhead
    exact ihq hp.2 hv hhead
  | alt p q ihp ihq =>
    rw [stillBefore, Bool.and_eq_true] at hp
    rcases h with h | h
    · exact ihp hp.1 h hhead
    · exact ihq hp.2 h hhead
  | opt greedy p ih =>
    rcases h with rfl | h
    · rfl
    · exact ih hp h hhead
  | star greedy p ih =>
    cases h with
    | nil => rfl
    | cons hne hspells _ =>
      rw [List.append_assoc] at hhead
      exact absurd (ih hp hspells hhead) hne
  | plus greedy p ih =>
    obtain ⟨u, v, rfl, hspells, hnil, -⟩ := h
    rw [List.append_assoc] at hhead
    -- the first round is nothing, so no round follows it
    obtain rfl := ih hp hspells hhead
    rw [hnil rfl, List.nil_append]
  | group i p ih => exact ih hp h hhead

theorem not_spells_of_blockedBy (hp : p.blockedBy c) (hhead : (w ++ after).head? = some c) :
    ¬ p.Spells before w after := by
  intro h
  induction p generalizing before w after with
  | empty | opt | star => simp [blockedBy] at hp
  | set cs => exact not_holds_of_head? (by simpa [blockedBy] using hp) h hhead
  | look l =>
    obtain rfl : l = .textEnd := by simpa [blockedBy] using hp
    obtain ⟨rfl, hend⟩ := h
    rw [List.nil_append] at hhead
    simp [Look.holds, hhead] at hend
  | seq p q ihp ihq =>
    obtain ⟨u, v, rfl, hu, hv⟩ := h
    rw [List.append_assoc] at hhead
    rw [blockedBy, Bool.or_eq_true, Bool.and_eq_true] at hp
    rcases hp with hp | ⟨hstill, hq⟩
    · exact ihp hp hhead hu
    · obtain rfl := eq_nil_of_stillBefore hstill hu hhead
      rw [List.nil_append] at hhead
      exact ihq hq hhead hv
  | alt p q ihp ihq =>
    rw [blockedBy, Bool.and_eq_true] at hp
    rcases h with h | h
    · exact ihp hp.1 hhead h
    · exact ihq hp.2 hhead h
  | plus greedy p ih =>
    obtain ⟨u, v, rfl, hspells, -, -⟩ := h
    rw [List.append_assoc] at hhead
    exact ih hp hhead hspells
  | group i p ih => exact ih hp hhead h

/-- **A pattern is not found in a text that begins with a character that blocks it.** -/
theorem find?_eq_none_of_blockedBy (hstart : p.startsAtTextStart) (hp : p.blockedBy c)
    {text : List Char} (hhead : text.head? = some c) : p.find? text = none := by
  refine find?_eq_none_of_not_spells hstart ?_
  rintro w after rfl
  exact not_spells_of_blockedBy hp hhead

end

/-! ### Necessary characters -/

/-- Every text that is spelled contains a character that satisfies `q`, as far as the shape of
the pattern shows. -/
def needs (q : Char → Bool) : Pattern → Bool
  | .set cs => cs.onlyHolds q
  | .seq p p' => p.needs q || p'.needs q
  | .alt p p' => p.needs q && p'.needs q
  | .plus _ p | .group _ p => p.needs q
  | .empty | .look _ | .opt _ _ | .star _ _ => false

section

variable {p : Pattern} {q : Char → Bool}

theorem exists_mem_of_needs (hp : p.needs q) {before : Option Char} {w after : List Char}
    (h : p.Spells before w after) : ∃ c ∈ w, q c := by
  induction p generalizing before w after with
  | empty | look | opt | star => simp [needs] at hp
  | set cs =>
    obtain ⟨c, hc, rfl⟩ := h
    exact ⟨c, List.mem_singleton_self c, CharSet.holds_of_onlyHolds hp hc⟩
  | seq p p' ih ih' =>
    obtain ⟨u, v, rfl, hu, hv⟩ := h
    rw [needs, Bool.or_eq_true] at hp
    rcases hp with hp | hp
    · obtain ⟨c, hc, hq⟩ := ih hp hu
      exact ⟨c, List.mem_append_left v hc, hq⟩
    · obtain ⟨c, hc, hq⟩ := ih' hp hv
      exact ⟨c, List.mem_append_right u hc, hq⟩
  | alt p p' ih ih' =>
    rw [needs, Bool.and_eq_true] at hp
    rcases h with h | h
    · exact ih hp.1 h
    · exact ih' hp.2 h
  | plus greedy p ih =>
    obtain ⟨u, v, rfl, hspells, -, -⟩ := h
    obtain ⟨c, hc, hq⟩ := ih hp hspells
    exact ⟨c, List.mem_append_left v hc, hq⟩
  | group i p ih => exact ih hp h

/-- **A pattern is not found in a text that lacks a necessary character.** -/
theorem find?_eq_none_of_needs (hstart : p.startsAtTextStart) (hp : p.needs q)
    {text : List Char} (htext : ∀ c ∈ text, q c = false) : p.find? text = none := by
  refine find?_eq_none_of_not_spells hstart ?_
  rintro w after rfl hspells
  obtain ⟨c, hc, hq⟩ := exists_mem_of_needs hp hspells
  exact absurd hq (by simp [htext c (List.mem_append_left after hc)])

end

end Pattern

end LineLexer
