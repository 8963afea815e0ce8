import Mathlib.Data.String.Basic
import LineLexer.Proofs.Outcome
import LineLexer.Proofs.Scan.Tiling

/-!
# Tokens as a partition of a line

`Token.Partition` says in byte offsets that tokens lie side by side and make up the front of a
line.  The tokens of a scan of an anchored table are a partition of the line up to the place
where the scan stops (`Table.Anchored.partition`), which is the end of the line unless the last
rule ends the line before it.
-/

namespace LineLexer

/-! ### Offsets -/

theorem byteSize_eq_utf8Len (cs : List Char) : byteSize cs = String.utf8Len cs := by
  induction cs with
  | nil => rfl
  | cons c cs ih => rw [byteSize_cons, ih, String.utf8Len_cons, Nat.add_comm]

theorem byteSize_toList (s : String) : byteSize s.toList = s.utf8ByteSize := by
  rw [byteSize_eq_utf8Len, String.utf8Len_toList]

section

variable {line : String} {xs ys zs : List Char}

theorem isValid_byteSize (h : line.toList = xs ++ ys) :
    String.Pos.Raw.IsValid line ⟨byteSize xs⟩ := by
  rw [String.Pos.Raw.isValid_iff_exists_append]
  refine ⟨String.ofList xs, String.ofList ys, ?_, ?_⟩
  · rw [← String.ofList_append, ← h, String.ofList_toList]
  · rw [String.rawEndPos_ofList, byteSize_eq_utf8Len]

theorem extract_byteSize (h : line.toList = xs ++ ys ++ zs) :
    String.Pos.Raw.extract line ⟨byteSize xs⟩ ⟨byteSize xs + byteSize ys⟩ = String.ofList ys := by
  rw [← line.ofList_toList, h, byteSize_eq_utf8Len, byteSize_eq_utf8Len]
  exact String.extract_of_valid xs ys zs

end

/-! ### Partitions -/

/-- The tokens are the line up to byte `stop`, cut into pieces at character boundaries. -/
structure Token.Partition (line : String) (stop : Nat) (ts : List Token) : Prop where
  text_ne : ∀ t ∈ ts, t.text ≠ ""
  starts : ∀ t ∈ ts.head?, t.span.start = 0
  touches : ts.IsChain fun t u => t.span.stop = u.span.start
  stops : (ts.getLast?.map fun t => t.span.stop).getD 0 = stop
  isValid : ∀ t ∈ ts, String.Pos.Raw.IsValid line ⟨t.span.start⟩ ∧
    String.Pos.Raw.IsValid line ⟨t.span.stop⟩
  extract_eq : ∀ t ∈ ts, String.Pos.Raw.extract line ⟨t.span.start⟩ ⟨t.span.stop⟩ = t.text

namespace Token.Tile

variable {n : Nat} {xs : List Char} {ts : List Token}

theorem exists_append_of_mem (h : Tile n xs ts) {t : Token} (ht : t ∈ ts) :
    ∃ ys zs, xs = ys ++ t.text.toList ++ zs ∧ t.text ≠ "" ∧
      t.span = ⟨n + byteSize ys, n + byteSize ys + byteSize t.text.toList⟩ := by
  induction h with
  | nil => simp at ht
  | @cons n u text ts hne hspan _ ih =>
    rcases List.mem_cons.1 ht with rfl | ht
    · exact ⟨[], text, by simp, hne, by simpa using hspan⟩
    · obtain ⟨ys, zs, rfl, hne', hspan'⟩ := ih ht
      refine ⟨u.text.toList ++ ys, zs, by simp, hne', ?_⟩
      rw [hspan', byteSize_append, Nat.add_assoc n]

theorem start_eq (h : Tile n xs ts) : ∀ t ∈ ts.head?, t.span.start = n := by
  cases h with
  | nil => simp
  | cons _ hspan _ => simp [hspan]

theorem isChain (h : Tile n xs ts) : ts.IsChain fun t u => t.span.stop = u.span.start := by
  induction h with
  | nil => exact .nil
  | cons _ hspan hts ih =>
    cases hts with
    | nil => exact .singleton _
    | cons _ hspan' _ => exact .cons_cons (by rw [hspan, hspan']) ih

theorem stop_eq (h : Tile n xs ts) :
    (ts.getLast?.map fun t => t.span.stop).getD n = n + byteSize xs := by
  induction h with
  | nil => simp
  | @cons n t text ts _ hspan _ ih =>
    rw [byteSize_append, ← Nat.add_assoc, ← ih, List.getLast?_cons]
    cases ts.getLast? <;> simp [hspan]

theorem join_eq (h : Tile n xs ts) : String.join (ts.map (·.text)) = String.ofList xs := by
  induction h with
  | nil => simp
  | cons _ _ _ ih => rw [List.map_cons, String.join_cons, ih, String.ofList_append,
      String.ofList_toList]

/-- Tokens that lie side by side from the start of a line on are a partition of it. -/
theorem partition (h : Tile 0 xs ts) {line : String} {rest : List Char}
    (hline : line.toList = xs ++ rest) : Partition line (byteSize xs) ts where
  text_ne t ht := by
    obtain ⟨_, _, _, hne, _⟩ := h.exists_append_of_mem ht
    exact hne
  starts := h.start_eq
  touches := h.isChain
  stops := by rw [h.stop_eq, Nat.zero_add]
  isValid t ht := by
    obtain ⟨ys, zs, rfl, -, hspan⟩ := h.exists_append_of_mem ht
    rw [hspan, Nat.zero_add, ← byteSize_append]
    exact ⟨isValid_byteSize (by simpa using hline), isValid_byteSize (by simpa using hline)⟩
  extract_eq t ht := by
    obtain ⟨ys, zs, rfl, -, hspan⟩ := h.exists_append_of_mem ht
    have hparts : line.toList = ys ++ t.text.toList ++ (zs ++ rest) := by simpa using hline
    rw [hspan, Nat.zero_add, extract_byteSize hparts, String.ofList_toList]

end Token.Tile

/-! ### The tokens of a scan -/

namespace Table

variable {t : Table} {line : String} {state : State} {l : ScannedLine}

/-- **The tokens of a scan are a partition of the line** up to the place after the last rule,
and that is the end of the line unless the rule ends the line before it. -/
theorem Anchored.partition (ht : t.Anchored) (h : t.scanLine line state = .ok l) :
    ∃ a, (t.scan line state).applications.getLast? = some a ∧
      (a.place.rest = [] ∨ a.rule.text.endsLine) ∧
      Token.Partition line a.after.offset l.tokens ∧
      a.after.offset = l.text.utf8ByteSize ∧ line.toList = l.text.toList ++ a.after.rest := by
  rw [scanLine] at h
  obtain ⟨endState, hout, rfl⟩ := Outcome.map_eq_ok_iff.1 h
  obtain ⟨a, text, hlast, hisLast, -, hrest, hoffset, htile⟩ := tile_scanFrom ht hout
  have htokens := Token.tile_ofPieces htile
  rw [Nat.zero_add] at hoffset
  refine ⟨a, hlast, by simpa [Application.isLast] using hisLast, ?_, ?_⟩
  · rw [hoffset]
    exact htokens.partition hrest
  · simp only [ScannedLine.text, scan, htokens.join_eq, ← byteSize_toList, String.toList_ofList]
    exact ⟨hoffset, hrest⟩

end Table

end LineLexer
