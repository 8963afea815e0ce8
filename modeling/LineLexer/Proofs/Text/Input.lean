import LineLexer.File
import LineLexer.Proofs.Text.Lines
import LineLexer.Proofs.Text.Runs

/-!
# Typed lines

Input is cut into lines as bytes, before it is known to be text.  No character but the line feed
has its byte among its own, so the lines of the input that is the UTF-8 form of a text are the
lines of the text, each with the line feed that ends it (`inputLines_toUTF8`).

Typed lines can be left out without spoiling the others: what is left are lines of a text as well
(`AreTyped.sublist`).  Where no carriage return is typed, stripping each line of its end gives
what `lines` makes of all of them together (`lines_join_of_sublist`).
-/

namespace LineLexer

/-- The lines of a text, each with the line feed that ends it; only the last may have none. -/
def typedTexts (text : List Char) : List (List Char) :=
  let parts := splitLineFeeds text
  parts.dropLast.map (· ++ ['\n']) ++ (parts.getLast?.toList.filter fun l => !l.isEmpty)

/-- The lines that are typed in where `text` is the input. -/
def typedLines (text : String) : List String := (typedTexts text.toList).map String.ofList

/-! ### Cutting off the first line -/

section

variable {line : List Char}

theorem typedTexts_of_notMem (hline : '\n' ∉ line) (hne : line ≠ []) :
    typedTexts line = [line] := by
  simp [typedTexts, splitLineFeeds_of_notMem hline, hne]

theorem typedTexts_append (hline : '\n' ∉ line) (rest : List Char) :
    typedTexts (line ++ '\n' :: rest) = (line ++ ['\n']) :: typedTexts rest := by
  have hparts := splitLineFeeds_ne_nil rest
  rw [typedTexts, splitLineFeeds_append hline]
  simp only [List.dropLast_cons_of_ne_nil hparts, List.getLast?_cons_of_ne_nil hparts,
    List.map_cons, List.cons_append]
  rfl

end

/-! ### Texts that are lines one after the other -/

/-- The texts are lines one after the other: each ends in its only line feed, and the last may
have none if it is not empty. -/
inductive AreTyped : List (List Char) → Prop where
  | nil : AreTyped []
  | last {line : List Char} (hline : '\n' ∉ line) (hne : line ≠ []) : AreTyped [line]
  | cons {line : List Char} {ls : List (List Char)} (hline : '\n' ∉ line) (hls : AreTyped ls) :
    AreTyped ((line ++ ['\n']) :: ls)

namespace AreTyped

variable {ls part : List (List Char)}

/-- Every text can be typed line by line. -/
theorem exists_flatten_eq (text : List Char) : ∃ ls, AreTyped ls ∧ ls.flatten = text := by
  induction text with
  | nil => exact ⟨[], .nil, rfl⟩
  | cons c cs ih =>
    obtain ⟨ls, hls, rfl⟩ := ih
    by_cases hc : c = '\n'
    · subst hc
      exact ⟨['\n'] :: ls, .cons List.not_mem_nil hls, rfl⟩
    · -- the character goes in front of the first line
      have hfront {line : List Char} (hline : '\n' ∉ line) : '\n' ∉ c :: line := by
        simpa [Ne.symm hc] using hline
      cases hls with
      | nil => exact ⟨[[c]], .last (hfront List.not_mem_nil) (List.cons_ne_nil c []), rfl⟩
      | last hline _ => exact ⟨_, .last (hfront hline) (List.cons_ne_nil c _), rfl⟩
      | cons hline hls => exact ⟨_, .cons (hfront hline) hls, by simp⟩

theorem typedTexts_flatten (h : AreTyped ls) : typedTexts ls.flatten = ls := by
  induction h with
  | nil => rfl
  | last hline hne => rw [List.flatten_singleton, typedTexts_of_notMem hline hne]
  | cons hline _ ih =>
    rw [List.flatten_cons, List.append_assoc, List.singleton_append, typedTexts_append hline, ih]

/-- Lines stay lines where others are left out. -/
theorem sublist (h : AreTyped ls) (hpart : part.Sublist ls) : AreTyped part := by
  induction h generalizing part with
  | nil =>
    obtain rfl := List.sublist_nil.1 hpart
    exact .nil
  | last hline hne =>
    rcases List.sublist_cons_iff.1 hpart with hnil | ⟨rest, rfl, hrest⟩
    · obtain rfl := List.sublist_nil.1 hnil
      exact .nil
    · obtain rfl := List.sublist_nil.1 hrest
      exact .last hline hne
  | cons hline _ ih =>
    rcases List.sublist_cons_iff.1 hpart with hpart | ⟨rest, rfl, hrest⟩
    · exact ih hpart
    · exact .cons hline (ih hrest)

end AreTyped

theorem areTyped_typedTexts (text : List Char) : AreTyped (typedTexts text) := by
  obtain ⟨ls, hls, rfl⟩ := AreTyped.exists_flatten_eq text
  rw [hls.typedTexts_flatten]
  exact hls

theorem flatten_typedTexts (text : List Char) : (typedTexts text).flatten = text := by
  obtain ⟨ls, hls, rfl⟩ := AreTyped.exists_flatten_eq text
  rw [hls.typedTexts_flatten]

/-! ### Stripping lines of their ends -/

section

variable {line : List Char}

/-- The end of a line is only its line feed where no carriage return is typed. -/
theorem trimLineEnd_eq (hline : '\n' ∉ line) (hreturn : '\r' ∉ line) :
    trimLineEnd (String.ofList line) = String.ofList line ∧
      trimLineEnd (String.ofList (line ++ ['\n'])) = String.ofList line := by
  have hlast : ∀ c ∈ line.getLast?, c ≠ '\n' ∧ c ≠ '\r' := by
    intro c hc
    have hmem := List.mem_of_getLast? hc
    exact ⟨ne_of_mem_of_not_mem hmem hline, ne_of_mem_of_not_mem hmem hreturn⟩
  have hkeep : IsStripped (String.ofList line) (String.ofList line) :=
    ⟨[], by simp, by simp, by simpa using hlast⟩
  have hfeed : IsStripped (String.ofList (line ++ ['\n'])) (String.ofList line) :=
    ⟨['\n'], by simp, by simp, by simpa using hlast⟩
  exact ⟨trimLineEnd_eq_iff.2 hkeep, trimLineEnd_eq_iff.2 hfeed⟩

end

/-- **Where no carriage return is typed, a text has the stripped lines.** -/
theorem AreTyped.lineTexts_flatten {ls : List (List Char)} (h : AreTyped ls)
    (hreturn : '\r' ∉ ls.flatten) :
    (lineTexts ls.flatten).map String.ofList = ls.map fun l => trimLineEnd (String.ofList l) := by
  induction h with
  | nil => rfl
  | last hline hne =>
    rw [List.flatten_singleton] at hreturn ⊢
    rw [lineTexts_of_notMem hline hne, List.map_singleton, List.map_singleton,
      (trimLineEnd_eq hline hreturn).1]
  | @cons line ls hline _ ih =>
    simp only [List.flatten_cons, List.append_assoc, List.singleton_append, List.mem_append,
      List.mem_cons, not_or] at hreturn ⊢
    obtain ⟨hreturn, -, hrest⟩ := hreturn
    have hlast : line.getLast? ≠ some '\r' := fun h => hreturn (List.mem_of_getLast? h)
    rw [lineTexts_append hline, dropFinalReturn_of_ne hlast, List.map_cons, List.map_cons, ih hrest,
      (trimLineEnd_eq hline hreturn).2]

theorem join_map_ofList (ls : List (List Char)) :
    String.join (ls.map String.ofList) = String.ofList ls.flatten := by
  induction ls with
  | nil => rfl
  | cons l ls ih =>
    rw [List.map_cons, String.join_cons, ih, List.flatten_cons, String.ofList_append]

/-- **Lines of a typed text, read together again.**  Without carriage returns the text of some of
its lines has these lines stripped. -/
theorem lines_join_of_sublist {text : String} {part : List String}
    (hpart : part.Sublist (typedLines text)) (hreturn : ∀ l ∈ part, '\r' ∉ l.toList) :
    lines (String.join part) = part.map trimLineEnd := by
  obtain ⟨ls, hls, rfl⟩ := List.sublist_map_iff.1 hpart
  have hflat : '\r' ∉ ls.flatten := by
    intro hmem
    obtain ⟨l, hl, hr⟩ := List.mem_flatten.1 hmem
    exact hreturn _ (List.mem_map_of_mem hl) (by simpa using hr)
  have htyped := (areTyped_typedTexts text.toList).sublist hls
  rw [join_map_ofList, lines, String.toList_ofList, htyped.lineTexts_flatten hflat, List.map_map]
  rfl

/-! ### Lines cut from bytes -/

section

variable {bs : List UInt8}

theorem byteLines_of_notMem (hbs : 0x0a ∉ bs) (hne : bs ≠ []) : byteLines bs = [bs] := by
  induction bs with
  | nil => exact absurd rfl hne
  | cons b bs ih =>
    obtain ⟨hb, hbs⟩ := not_or.1 (List.mem_cons.not.1 hbs)
    rw [byteLines, if_neg (Ne.symm hb)]
    by_cases hnil : bs = []
    · rw [hnil]
      rfl
    · rw [ih hbs hnil]

theorem byteLines_append (hbs : 0x0a ∉ bs) (rest : List UInt8) :
    byteLines (bs ++ 0x0a :: rest) = (bs ++ [0x0a]) :: byteLines rest := by
  induction bs with
  | nil => rw [List.nil_append, byteLines, if_pos rfl, List.nil_append]
  | cons b bs ih =>
    obtain ⟨hb, hbs⟩ := not_or.1 (List.mem_cons.not.1 hbs)
    rw [List.cons_append, byteLines, if_neg (Ne.symm hb), ih hbs, List.cons_append]

end

/-- The bytes of a text in UTF-8. -/
def utf8Bytes (cs : List Char) : List UInt8 := cs.flatMap String.utf8EncodeChar

@[simp] theorem utf8Bytes_append (xs ys : List Char) :
    utf8Bytes (xs ++ ys) = utf8Bytes xs ++ utf8Bytes ys := List.flatMap_append

/-- A character other than the line feed has no line feed among its bytes: those of a character
beyond ASCII are all at least 128. -/
theorem feed_notMem_utf8EncodeChar {c : Char} (hc : c ≠ '\n') :
    0x0a ∉ String.utf8EncodeChar c := by
  have hval : c.val.toNat ≠ 10 := fun h => hc (Char.ext (UInt32.toNat_inj.1 h))
  have hbyte {n : Nat} (hn : n < 256) (hne : n ≠ 10) : (0x0a : UInt8) ≠ UInt8.ofNat n := by
    intro h
    have h10 := congrArg UInt8.toNat h
    rw [UInt8.toNat_ofNat_of_lt' hn] at h10
    exact hne h10.symm
  simp only [String.utf8EncodeChar]
  split_ifs <;> simp only [List.mem_cons, List.not_mem_nil, or_false, not_or]
  · exact hbyte (by omega) hval
  · exact ⟨hbyte (by omega) (by omega), hbyte (by omega) (by omega)⟩
  · exact ⟨hbyte (by omega) (by omega), hbyte (by omega) (by omega), hbyte (by omega) (by omega)⟩
  · exact ⟨hbyte (by omega) (by omega), hbyte (by omega) (by omega), hbyte (by omega) (by omega),
      hbyte (by omega) (by omega)⟩

theorem toList_loop_eq (bytes : ByteArray) (i : Nat) (front : List UInt8) :
    ByteArray.toList.loop bytes i front = front.reverse ++ bytes.data.toList.drop i := by
  have hsize : bytes.size = bytes.data.toList.length := rfl
  fun_induction ByteArray.toList.loop bytes i front with
  | case1 i front hi ih =>
    have hlt : i < bytes.data.size := hi
    have hget : bytes.get! i = bytes.data[i] := getElem!_pos bytes.data i hlt
    have hdrop := List.drop_eq_getElem_cons (hsize ▸ hi)
    rw [ih, hdrop, Array.getElem_toList, hget, List.reverse_cons, List.append_assoc,
      List.singleton_append]
  | case2 i front hi =>
    rw [List.drop_of_length_le (hsize ▸ Nat.le_of_not_lt hi), List.append_nil]

theorem toList_eq_toList_data (bytes : ByteArray) : bytes.toList = bytes.data.toList :=
  toList_loop_eq bytes 0 []

theorem toList_toUTF8 (text : String) : text.toUTF8.toList = utf8Bytes text.toList := by
  rw [toList_eq_toList_data, String.toUTF8_eq_toByteArray, ← String.utf8Encode_toList,
    List.utf8Encode, List.toList_data_toByteArray, utf8Bytes]

theorem textOfBytes_utf8Bytes (cs : List Char) :
    textOfBytes ⟨(utf8Bytes cs).toArray⟩ = .ok (String.ofList cs) := by
  have hbytes : (⟨(utf8Bytes cs).toArray⟩ : ByteArray) = cs.utf8Encode := by
    rw [List.utf8Encode, ← List.data_toByteArray, utf8Bytes]
  have hvalid : cs.utf8Encode.IsValidUTF8 := ByteArray.isValidUTF8_utf8Encode
  rw [textOfBytes, hbytes, String.fromUTF8?, dif_pos hvalid]
  exact congrArg Except.ok (String.toByteArray_inj.1 String.toByteArray_ofList.symm)

theorem feed_notMem_utf8Bytes {line : List Char} (hline : '\n' ∉ line) :
    0x0a ∉ utf8Bytes line := by
  intro hmem
  obtain ⟨c, hc, hfeed⟩ := List.mem_flatMap.1 hmem
  exact feed_notMem_utf8EncodeChar (ne_of_mem_of_not_mem hc hline) hfeed

theorem AreTyped.byteLines_utf8Bytes {ls : List (List Char)} (h : AreTyped ls) :
    byteLines (utf8Bytes ls.flatten) = ls.map utf8Bytes := by
  induction h with
  | nil => rfl
  | @last line hline hne =>
    have hbytes : utf8Bytes line ≠ [] := by
      obtain ⟨c, cs, rfl⟩ := List.exists_cons_of_ne_nil hne
      simp [utf8Bytes]
    rw [List.flatten_singleton, byteLines_of_notMem (feed_notMem_utf8Bytes hline) hbytes]
    rfl
  | @cons line ls hline _ ih =>
    have hfeed : utf8Bytes ['\n'] = [0x0a] := by decide
    rw [List.flatten_cons, utf8Bytes_append, utf8Bytes_append, hfeed, List.append_assoc,
      List.singleton_append, byteLines_append (feed_notMem_utf8Bytes hline), ih, List.map_cons,
      utf8Bytes_append, hfeed]

/-- **The lines of an input that is text** are the lines of the text. -/
theorem inputLines_toUTF8 (text : String) :
    inputLines text.toUTF8 = (typedLines text).map .ok := by
  have hlines := (areTyped_typedTexts text.toList).byteLines_utf8Bytes
  rw [flatten_typedTexts] at hlines
  rw [inputLines, toList_toUTF8, hlines, typedLines, List.map_map, List.map_map]
  exact List.map_congr_left fun cs _ => textOfBytes_utf8Bytes cs

end LineLexer
