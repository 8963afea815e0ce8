import LineLexer.Proofs.Scan.Partition
import LineLexer.Proofs.Table.Anchored

/-!
# How far the tokens of a scan reach

The tokens of a scan reach to the end of the line, unless the last rule ends the line before it:
then they reach to the end of its match (`Table.Anchored.partition_to_last`).  The groups of a
rule have no say in this.  However they lie in the match, what they leave open becomes text and
what they would claim twice is passed over, so the pieces of each rule make up its match.
-/

namespace LineLexer

namespace Table

/-- **The tokens of a scan end with its last rule.**  They are a partition of the line up to the
end of that rule's match, if the rule ends the line, and of the whole line otherwise; for the
pieces of every rule are its match, one after the other. -/
theorem Anchored.partition_to_last {t : Table} (ht : t.Anchored) {line : String} {state : State}
    {l : ScannedLine} (h : t.scanLine line state = .ok l) :
    (∀ a ∈ (t.scan line state).applications, Piece.Tile a.place.offset
        (a.place.rest.take a.hit.stop) (a.pieces t.lexicon)) ∧
      ∃ a stop, (t.scan line state).applications.getLast? = some a ∧
        Token.Partition line stop l.tokens ∧
        (a.rule.text.endsLine → stop = a.place.offset + byteSize (a.place.rest.take a.hit.stop)) ∧
        (¬ a.rule.text.endsLine → stop = line.utf8ByteSize) := by
  refine ⟨?_, ?_⟩
  · intro a ha
    exact ht.tile_pieces (mem_applications ha)
  · obtain ⟨a, hlast, hend, hpart, hsize, hline⟩ := ht.partition h
    refine ⟨a, a.after.offset, hlast, hpart, ?_, ?_⟩
    · intro _
      rfl
    · intro hends
      -- nothing was left in front of the rule, so nothing is left after it
      have hrest : a.place.rest = [] := hend.resolve_right hends
      have hafter : a.after.rest = [] := by rw [Application.after, hrest, List.drop_nil]
      rw [hafter, List.append_nil, String.toList_inj] at hline
      rw [hsize, hline]

end Table

namespace TableDraft

/-- A draft with groups that are repeated, nested, absent and empty and that leave gaps, and with
a rule that ends the line. -/
def patchworkDraft : TableDraft :=
  TableDraft.new .builtin
    |>.add .start [
      .perGroup [.identifier, .punctuation, .variable, .keyword, .numeric, .operator]
        "(?:(a)|b)+(,)?((c)d)(e)?(f*).",
      .endLine (.single .string "#"), .single .empty "$", .asFallback (.single .text "(?s).")]
    |>.add .doubleQuotedString (catchAll "(?s).")
    |>.add .quotedString (catchAll "(?s).")
    |>.add .functionArguments (catchAll "(?s).")

theorem patchworkDraft_partition : ∃ t l, patchworkDraft.build = .ok t ∧ t.Anchored ∧
    t.scanLine "aba,cd;#é" .start = .ok l ∧
    l.tokens = [⟨.text, "ab", ⟨0, 2⟩⟩, ⟨.identifier, "a", ⟨2, 3⟩⟩, ⟨.punctuation, ",", ⟨3, 4⟩⟩,
      ⟨.variable, "cd", ⟨4, 6⟩⟩, ⟨.text, ";", ⟨6, 7⟩⟩, ⟨.string, "#", ⟨7, 8⟩⟩] ∧
    ∃ a stop, (t.scan "aba,cd;#é" .start).applications.getLast? = some a ∧
      Token.Partition "aba,cd;#é" stop l.tokens ∧
      (a.rule.text.endsLine → stop = a.place.offset + byteSize (a.place.rest.take a.hit.stop)) := by
  have hscan : patchworkDraft.build.map (·.scanLine "aba,cd;#é" .start) =
      .ok (.ok ⟨[⟨.text, "ab", ⟨0, 2⟩⟩, ⟨.identifier, "a", ⟨2, 3⟩⟩, ⟨.punctuation, ",", ⟨3, 4⟩⟩,
        ⟨.variable, "cd", ⟨4, 6⟩⟩, ⟨.text, ";", ⟨6, 7⟩⟩, ⟨.string, "#", ⟨7, 8⟩⟩], .start⟩) := by
    decide +kernel
  have halone : ∀ entry ∈ patchworkDraft.entries, ∀ text ∈ entry.2,
      Rule.standsAlone text.pattern := by
    decide +kernel
  obtain ⟨t, ht, hline⟩ := Outcome.map_eq_ok_iff.1 hscan
  have hanchored := anchored_of_standsAlone ht halone
  obtain ⟨-, a, stop, hlast, hpart, hends, -⟩ := hanchored.partition_to_last hline
  exact ⟨t, _, ht, hanchored, hline, rfl, a, stop, hlast, hpart, hends⟩

end TableDraft

end LineLexer
