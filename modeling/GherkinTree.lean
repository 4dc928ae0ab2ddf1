import GherkinTree.FeatureFile
import GherkinTree.Tree.Build
import GherkinTree.Proofs.Diagnosis
import GherkinTree.Proofs.Lookahead
import GherkinTree.Proofs.Scope
import GherkinTree.Proofs.Run
import GherkinTree.Proofs.Reading
import GherkinTree.Proofs.Keyword
import GherkinTree.Proofs.Bundled
import GherkinTree.Proofs.KeptLine
import GherkinTree.Proofs.Argument
import GherkinTree.Proofs.Header
import GherkinTree.Proofs.Step
import GherkinTree.Proofs.Section
import GherkinTree.Proofs.Document
import GherkinTree.Proofs.Preamble
import GherkinTree.Proofs.RoundTrip
import GherkinTree.Proofs.Recovery
import GherkinTree.Proofs.Report
import GherkinTree.Proofs.SourceLine
import GherkinTree.Proofs.Ledger
import GherkinTree.Proofs.Fidelity
import GherkinTree.Proofs.Everywhere
import GherkinTree.Proofs.Onward
import GherkinTree.Proofs.Form
import GherkinTree.Proofs.Anatomy
import GherkinTree.Proofs.Slot
import GherkinTree.Proofs.Accessor
import GherkinTree.Proofs.Outline
import GherkinTree.Proofs.Derivation
import GherkinTree.Proofs.Checked
import GherkinTree.Proofs.Unfailing
import GherkinTree.Proofs.Lockstep
import GherkinTree.Proofs.Insertion
import GherkinTree.Proofs.Line
import GherkinTree.Proofs.PureTrivia
import GherkinTree.Proofs.Tiling
import GherkinTree.Proofs.Survey
import GherkinTree.Proofs.Directive
import GherkinTree.Proofs.Selection
import GherkinTree.Proofs.Decoding
import GherkinTree.Proofs.Edge
import GherkinTree.Proofs.Wording
import GherkinTree.Proofs.Value
import GherkinTree.Proofs.LineBreak
import GherkinTree.Proofs.Carriage
import GherkinTree.Proofs.Words
import GherkinTree.Proofs.Unbroken
import GherkinTree.Proofs.KeywordTable
import GherkinTree.Proofs.Place
import GherkinTree.Proofs.Visit
import GherkinTree.Proofs.Progress
import GherkinTree.Proofs.Ownership
import GherkinTree.Proofs.Escape
import GherkinTree.Proofs.Origin
import GherkinTree.Proofs.RowReading
import GherkinTree.Proofs.Position
import GherkinTree.Proofs.Stray
import GherkinTree.Proofs.WrittenTable
import GherkinTree.Proofs.FenceEscape
import GherkinTree.Proofs.WrittenDocString
import GherkinTree.Proofs.Preorder
import GherkinTree.Proofs.Sorted
import GherkinTree.Proofs.TypedWalk
import GherkinTree.Proofs.Layout
import GherkinTree.Proofs.Lexeme
import GherkinTree.Proofs.CutLine
import GherkinTree.Proofs.NormalForm
import GherkinTree.Proofs.Placeholder
import GherkinTree.Proofs.Bar
import GherkinTree.Proofs.TagWord
import GherkinTree.Proofs.FencedText
import GherkinTree.Proofs.Navigation
import GherkinTree.Proofs.LineTable
import GherkinTree.Proofs.LinePosition
import GherkinTree.Proofs.Location
import GherkinTree.Proofs.Walk
import GherkinTree.Proofs.Spaced
import GherkinTree.Proofs.Identity
import GherkinTree.Proofs.Story
