import LineLexer.Proofs.Document.Scratch
import LineLexer.Proofs.EncryScript.Total

/-!
# Documents of EncryScript

Over a valid vocabulary every text is a document, and the document agrees with a scan from
scratch after any edits (`EncryScript.agrees_after_edits`).
-/

namespace LineLexer

namespace EncryScript

theorem exists_endState_eq_ok (v : Vocabulary) (line : String) (state : State) :
    ∃ stop, (tableOf v).endState line state = .ok stop := by
  obtain ⟨l, hl, -⟩ := (total_tableOf v).exists_scanLine_eq_ok line state
  exact ⟨l.endState, by rw [Table.endState_eq_map_scanLine, hl]; rfl⟩

/-- **Editing a document is as good as scanning it from scratch**, whatever is edited; an edit
succeeds if its place is in range, and otherwise is refused and leaves the document alone. -/
theorem agrees_after_edits {v : Vocabulary} (hv : v.Valid) :
    ∃ t, table v = .ok t ∧ ∀ text, ∃ d₀, Document.ofText t text = .ok d₀ ∧ ∀ es : List Edit,
      (d₀.editAll t es).Agrees t
        (es.foldl Edit.apply ((bufferLines text.toList).map String.ofList)) ∧
      ∀ e : Edit,
        (e.index < e.bound (d₀.editAll t es).size →
          ∃ d n, (d₀.editAll t es).edit t e = .ok (d, n)) ∧
        (e.bound (d₀.editAll t es).size ≤ e.index →
          (d₀.editAll t es).edit t e =
            .error (.rejected (.lineOutOfRange e.index (e.bound (d₀.editAll t es).size))) ∧
          (d₀.editAll t es).after t e = d₀.editAll t es) := by
  have hok := exists_endState_eq_ok v
  refine ⟨tableOf v, table_eq hv, fun text => ?_⟩
  obtain ⟨lines, hlines⟩ := Table.exists_documentLines_eq_ok hok .initial
    ((bufferLines text.toList).map String.ofList)
  have hd : Document.ofText (tableOf v) text = .ok ⟨lines⟩ :=
    Document.ofText_eq_ok_iff.2 (Table.documentLines_eq_ok_iff.1 hlines)
  refine ⟨⟨lines⟩, hd, fun es => ⟨Document.agrees_editAll hok hd es, fun e => ⟨fun he => ?_, ?_⟩⟩⟩
  · obtain ⟨-, hch⟩ := Document.editAll_spec hok (Document.ofText_eq_ok_iff.1 hd).2 es
    obtain ⟨d, n, hedit, -⟩ := Document.exists_edit_eq_ok hok hch he
    exact ⟨d, n, hedit⟩
  · intro hle
    have hedit := Document.edit_of_bound_le (t := tableOf v) hle
    exact ⟨hedit, by rw [Document.after, hedit]⟩

/-- Edits that empty a document of two lines and fill it again.  The first and the fourth are out of
range, and the last lets the line after it end in another state. -/
def refillEdits : List Edit :=
  [.insert 7 "c", .remove 0, .remove 0, .set 0 "c", .insert 0 "x: Int", .insert 0 "def f("]

theorem agrees_after_edits_builtin : Vocabulary.builtin.Valid ∧
    ∃ t, table .builtin = .ok t ∧
      (∀ text, ∃ d₀, Document.ofText t text = .ok d₀ ∧ ∀ es : List Edit, (d₀.editAll t es).Agrees t
        (es.foldl Edit.apply ((bufferLines text.toList).map String.ofList))) ∧
      ∃ d₀, Document.ofText t "'a\\\nb" = .ok d₀ ∧
        d₀.lines = [⟨"'a\\", .quotedString⟩, ⟨"b", .start⟩] ∧
        (d₀.editAll t (refillEdits.take 5)).lines = [⟨"x: Int", .start⟩] ∧
        (d₀.editAll t refillEdits).lines =
          [⟨"def f(", .functionArguments⟩, ⟨"x: Int", .functionArguments⟩] ∧
        (d₀.editAll t refillEdits).Agrees t ["def f(", "x: Int"] ∧
        (∃ d n, (d₀.editAll t refillEdits).edit t (.insert 2 ") 'b'") = .ok (d, n)) ∧
        (d₀.editAll t refillEdits).edit t (.insert 3 "c") =
          .error (.rejected (.lineOutOfRange 3 3)) ∧
        (d₀.editAll t refillEdits).after t (.insert 3 "c") = d₀.editAll t refillEdits := by
  obtain ⟨t, ht, hdoc⟩ := agrees_after_edits Vocabulary.valid_builtin
  obtain rfl : tableOf .builtin = t :=
    Except.ok.inj ((table_eq Vocabulary.valid_builtin).symm.trans ht)
  refine ⟨Vocabulary.valid_builtin, _, ht, ?_, ?_⟩
  · intro text
    obtain ⟨d₀, hd₀, hes⟩ := hdoc text
    exact ⟨d₀, hd₀, fun es => (hes es).1⟩
  · obtain ⟨d₀, hd₀, hes⟩ := hdoc "'a\\\nb"
    have htext : Document.ofText (tableOf .builtin) "'a\\\nb" =
        .ok ⟨[⟨"'a\\", .quotedString⟩, ⟨"b", .start⟩]⟩ := by
      decide +kernel
    have hd : d₀ = ⟨[⟨"'a\\", .quotedString⟩, ⟨"b", .start⟩]⟩ :=
      Except.ok.inj (hd₀.symm.trans htext)
    have hfront : (d₀.editAll (tableOf .builtin) (refillEdits.take 5)).lines =
        [⟨"x: Int", .start⟩] := by
      rw [hd]
      decide +kernel
    have hlines : (d₀.editAll (tableOf .builtin) refillEdits).lines =
        [⟨"def f(", .functionArguments⟩, ⟨"x: Int", .functionArguments⟩] := by
      rw [hd]
      decide +kernel
    have hsize : (d₀.editAll (tableOf .builtin) refillEdits).size = 2 := by
      rw [Document.size, hlines]
      rfl
    obtain ⟨hagrees, hedit⟩ := hes refillEdits
    rw [hsize] at hedit
    obtain ⟨hrefused, hafter⟩ := (hedit (.insert 3 "c")).2 (by decide)
    exact ⟨d₀, hd₀, by rw [hd], hfront, hlines, hagrees,
      (hedit (.insert 2 ") 'b'")).1 (by decide), hrefused, hafter⟩

end EncryScript

end LineLexer
