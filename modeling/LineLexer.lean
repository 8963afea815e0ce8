import LineLexer.Main
import LineLexer.Document
import LineLexer.Proofs.Outcome
import LineLexer.Proofs.Text.Lines
import LineLexer.Proofs.Pattern.Results
import LineLexer.Proofs.Pattern.Shape
import LineLexer.Proofs.Pattern.Leftmost
import LineLexer.Proofs.Pattern.Reading
import LineLexer.Proofs.Pattern.Groups
import LineLexer.Proofs.Pattern.Closing
import LineLexer.Proofs.Table.Build
import LineLexer.Proofs.Table.Anchored
import LineLexer.Proofs.Scan.Step
import LineLexer.Proofs.Scan.Progress
import LineLexer.Proofs.Scan.Coverage
import LineLexer.Proofs.Scan.Tiling
import LineLexer.Proofs.Scan.Partition
import LineLexer.Proofs.Scan.Extent
import LineLexer.Proofs.Scan.Lines
import LineLexer.Proofs.Scan.Total
import LineLexer.Proofs.Document.Chain
import LineLexer.Proofs.Document.Edit
import LineLexer.Proofs.Document.Scratch
import LineLexer.Proofs.EncryScript.Grammar
import LineLexer.Proofs.EncryScript.Table
import LineLexer.Proofs.EncryScript.Acceptance
import LineLexer.Proofs.EncryScript.Total
import LineLexer.Proofs.EncryScript.Editing
import LineLexer.Proofs.EncryScript.WholeText
import LineLexer.Proofs.Pattern.Refusal
import LineLexer.Proofs.Pattern.Longest
import LineLexer.Proofs.Pattern.Fields
import LineLexer.Proofs.Scan.Along
import LineLexer.Proofs.EncryScript.Lexemes
import LineLexer.Proofs.Lexicon
import LineLexer.Proofs.Table.Priority
import LineLexer.Proofs.EncryScript.Applied
import LineLexer.Proofs.EncryScript.Parts
import LineLexer.Proofs.EncryScript.Soundness
import LineLexer.Proofs.Scan.Yields
import LineLexer.Proofs.EncryScript.Recognition
import LineLexer.Proofs.EncryScript.Parameters
import LineLexer.Proofs.EncryScript.Headers
import LineLexer.Proofs.Scan.Kinds
import LineLexer.Proofs.Scan.Twins
import LineLexer.Proofs.Document.SameStates
import LineLexer.Proofs.EncryScript.Structure
import LineLexer.Proofs.Scan.Cost
import LineLexer.Proofs.EncryScript.WordSets
import LineLexer.Proofs.Style
import LineLexer.Proofs.Command.Highlight
import LineLexer.Proofs.Json.Grammar
import LineLexer.Proofs.Json.Reading
import LineLexer.Proofs.Json.Pretty
import LineLexer.Proofs.Dump.Json
import LineLexer.Proofs.Text.Quoted
import LineLexer.Proofs.EncryScript.Strings
import LineLexer.Proofs.EncryScript.Identifiers
import LineLexer.Proofs.Command.Session
import LineLexer.Proofs.Scan.Handover
import LineLexer.Proofs.EncryScript.Numbers
import LineLexer.Proofs.EncryScript.ParameterLists
import LineLexer.Proofs.EncryScript.LineEnds
import LineLexer.Proofs.Document.Rescan
import LineLexer.Proofs.Dump.Text
import LineLexer.Proofs.Scan.Runs
import LineLexer.Proofs.Scan.Diagnosis
import LineLexer.Proofs.Table.Additions
