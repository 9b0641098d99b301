import ValueGrammar.Text.Quoted
import ValueGrammar.Text.Blank
import ValueGrammar.Text.Case
import ValueGrammar.Number.Reader
import ValueGrammar.Number.Shortest
import ValueGrammar.Range
import ValueGrammar.Token.Scan
import ValueGrammar.Grammar.Walk
import ValueGrammar.Grammar.Precedence
import ValueGrammar.Grammar.Reader
import ValueGrammar.Grammar.Outline
import ValueGrammar.Recognizer
import ValueGrammar.State.Compile
import ValueGrammar.State.Dump
import ValueGrammar.Matcher
import ValueGrammar.Dictionary
import ValueGrammar.PropertyName
import ValueGrammar.Stylesheet.Value
import ValueGrammar.CommandLine.Program
import ValueGrammar.Main
import ValueGrammar.Proofs.Acceptance
import ValueGrammar.Proofs.Repetition
import ValueGrammar.Proofs.AnyOrder
import ValueGrammar.Proofs.Derivation
import ValueGrammar.Proofs.WellFormed
import ValueGrammar.Proofs.Alternatives
import ValueGrammar.Proofs.Compilation
import ValueGrammar.Proofs.Machine.Coherence
import ValueGrammar.Proofs.Tame
import ValueGrammar.Proofs.Machine.Search
import ValueGrammar.Proofs.Meaning
import ValueGrammar.Proofs.Conformance
import ValueGrammar.Proofs.Machine.Backtracking
import ValueGrammar.Proofs.Preference
import ValueGrammar.Proofs.Machine.Record
import ValueGrammar.Proofs.Machine.Halting
import ValueGrammar.Proofs.Views
import ValueGrammar.Proofs.Safety
import ValueGrammar.Proofs.Termination
import ValueGrammar.Proofs.Folding.Table
import ValueGrammar.Proofs.Folding.Passing
import ValueGrammar.Proofs.Folding.Simulation
import ValueGrammar.Proofs.Folding
import ValueGrammar.Proofs.Number
import ValueGrammar.Proofs.Notation
import ValueGrammar.Proofs.References
import ValueGrammar.Proofs.Folding.Opening
import ValueGrammar.Proofs.Lookups
import ValueGrammar.Proofs.States
import ValueGrammar.Proofs.Notation.Progress
import ValueGrammar.Proofs.Notation.Unrolling
import ValueGrammar.Proofs.Reader
import ValueGrammar.Proofs.Caching.Plain
import ValueGrammar.Proofs.Caching
import ValueGrammar.Proofs.Case.Letters
import ValueGrammar.Proofs.Case.Leaves
import ValueGrammar.Proofs.Case
import ValueGrammar.Proofs.Limit
import ValueGrammar.Proofs.Precedence
import ValueGrammar.Proofs.Furthest
import ValueGrammar.Proofs.Padding.States
import ValueGrammar.Proofs.Padding.Search
import ValueGrammar.Proofs.Padding
import ValueGrammar.Proofs.Brackets
import ValueGrammar.Proofs.NumericRange
import ValueGrammar.Proofs.Literal
import ValueGrammar.Proofs.UpperLimit
import ValueGrammar.Proofs.Stylesheet.Value
import ValueGrammar.Proofs.Loading
import ValueGrammar.Proofs.Stylesheet.Rules
import ValueGrammar.Proofs.Stylesheet.Report
import ValueGrammar.Proofs.Machine.Activation
import ValueGrammar.Proofs.Machine.Trials
import ValueGrammar.Proofs.Activation
import ValueGrammar.Proofs.Combinators
import ValueGrammar.Proofs.Case.Forms
