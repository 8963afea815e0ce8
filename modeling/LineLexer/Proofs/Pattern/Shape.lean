import LineLexer.Proofs.Pattern.Results

/-!
# What the shape of a pattern shows about its matches

Some facts about all matches of a pattern can be read off the pattern itself: that a match
consumes something unless it begins at the end of the text (`Pattern.advances`), and that it
ends at the end of the text (`Pattern.endsAtTextEnd`).  Together with
`Pattern.startsAtTextStart` this is all that the progress of a scan depends on.
-/

namespace LineLexer

namespace Pattern

/-- Every match that begins before the end of the text consumes something, as far as the shape
of the pattern shows. -/
def advances : Pattern → Bool
  | .set _ => true
  | .look l => l == .textEnd
  | .seq p q => p.advances || q.advances
  | .alt p q => p.advances && q.advances
  | .group _ p | .plus _ p => p.advances
  | .empty | .opt _ _ | .star _ _ => false

/-- Every match ends at the end of the text, as far as the shape of the pattern shows. -/
def endsAtTextEnd : Pattern → Bool
  | .look l => l == .textEnd
  | .seq _ q => q.endsAtTextEnd
  | .alt p q => p.endsAtTextEnd && q.endsAtTextEnd
  | .group _ p => p.endsAtTextEnd
  | .empty | .set _ | .opt _ _ | .star _ _ | .plus _ _ => false

theorem holds_textEnd {s : Cursor} (h : Look.textEnd.holds s.before s.rest.head?) :
    s.rest = [] := by
  simpa [Look.holds] using h

theorem left_lt_of_advances {p : Pattern} (hp : p.advances) {s t : Cursor}
    (h : t ∈ p.results s) (hs : s.rest ≠ []) : t.left < s.left := by
  induction p generalizing s t with
  | empty | opt | star => simp [advances] at hp
  | set cs =>
    obtain ⟨c, hc, -⟩ := mem_results_set.1 h
    exact Cursor.next?_left hc
  | look l =>
    obtain rfl : l = .textEnd := by simpa [advances] using hp
    exact absurd (holds_textEnd (mem_results_look.1 h).2) hs
  | seq p q ihp ihq =>
    obtain ⟨u, hu, ht⟩ := List.mem_flatMap.1 h
    have hsu := (reaches_of_mem_results hu).left_le
    have hut := (reaches_of_mem_results ht).left_le
    rw [advances, Bool.or_eq_true] at hp
    rcases hp with hp | hq
    · have := ihp hp hu hs
      omega
    · -- either the first part consumed something, or the second begins where the first does
      by_cases hlt : u.left < s.left
      · omega
      · have hrest := (reaches_of_mem_results hu).eq_rest (by omega)
        have := ihq hq ht (hrest ▸ hs)
        omega
  | alt p q ihp ihq =>
    rw [advances, Bool.and_eq_true] at hp
    rcases List.mem_append.1 h with h | h
    · exact ihp hp.1 h hs
    · exact ihq hp.2 h hs
  | plus greedy p ih =>
    obtain ⟨u, hu, ⟨hlt, ht⟩ | ⟨-, rfl⟩⟩ := mem_roundsAfterFirst.1 h
    · have := (reaches_of_mem_rounds (fun _ _ => reaches_of_mem_results) ht).left_le
      omega
    · exact ih hp hu hs
  | group i p ih =>
    obtain ⟨u, hu, rfl⟩ := List.mem_map.1 h
    have : u.left < s.left := ih hp hu hs
    exact this

theorem rest_eq_nil_of_endsAtTextEnd {p : Pattern} (hp : p.endsAtTextEnd) {s t : Cursor}
    (h : t ∈ p.results s) : t.rest = [] := by
  induction p generalizing s t with
  | empty | set | opt | star | plus => simp [endsAtTextEnd] at hp
  | look l =>
    obtain rfl : l = .textEnd := by simpa [endsAtTextEnd] using hp
    obtain ⟨rfl, hl⟩ := mem_results_look.1 h
    exact holds_textEnd hl
  | seq p q _ ihq =>
    obtain ⟨u, -, ht⟩ := List.mem_flatMap.1 h
    exact ihq hp ht
  | alt p q ihp ihq =>
    rw [endsAtTextEnd, Bool.and_eq_true] at hp
    rcases List.mem_append.1 h with h | h
    · exact ihp hp.1 h
    · exact ihq hp.2 h
  | group i p ih =>
    obtain ⟨u, hu, rfl⟩ := List.mem_map.1 h
    have : u.rest = [] := ih hp hu
    exact this

/-! ### Matches of patterns bound to the start of the text -/

variable {p : Pattern} {text : List Char} {m : Match}

theorem mem_results_of_find? (hp : p.startsAtTextStart) (h : p.find? text = some m) :
    ∃ t ∈ p.results (.start text), m.start = 0 ∧ m.stop = text.length - t.left := by
  rw [find?, if_pos hp] at h
  obtain ⟨t, ht, hstart, hstop, -⟩ := matchAt_eq_some h
  exact ⟨t, ht, hstart.trans (Nat.sub_self _), hstop⟩

theorem find?_start_eq_zero (hp : p.startsAtTextStart) (h : p.find? text = some m) :
    m.start = 0 := by
  obtain ⟨_, _, hstart, _⟩ := mem_results_of_find? hp h
  exact hstart

theorem find?_stop_pos (hp : p.startsAtTextStart) (ha : p.advances)
    (h : p.find? text = some m) (ht : text ≠ []) : 0 < m.stop := by
  obtain ⟨t, hmem, -, hstop⟩ := mem_results_of_find? hp h
  have : t.left < text.length := left_lt_of_advances ha hmem ht
  omega

theorem find?_stop_eq_length (hp : p.startsAtTextStart) (he : p.endsAtTextEnd)
    (h : p.find? text = some m) : m.stop = text.length := by
  obtain ⟨t, hmem, -, hstop⟩ := mem_results_of_find? hp h
  rw [hstop, t.left_eq, rest_eq_nil_of_endsAtTextEnd he hmem]
  rfl

/-- A pattern with a result at the start of a text is found in it. -/
theorem find?_isSome_of_mem {t : Cursor} (h : t ∈ p.results (.start text)) :
    (p.find? text).isSome := by
  have hm : (p.matchAt text.length (.start text)).isSome := by
    rw [matchAt, Option.isSome_map, run_eq, List.findSome?_isSome_iff]
    exact ⟨t, h, rfl⟩
  rw [find?_eq, firstFrom, Option.orElse_eq_or, Option.isSome_or, hm, Bool.true_or]

end Pattern

end LineLexer
