import FormalMachines.ContextFree.Attempt
import FormalMachines.ContextFree.Basic
import FormalMachines.ContextFree.Cost
import FormalMachines.ContextFree.Derivation
import FormalMachines.ContextFree.Document
import FormalMachines.ContextFree.Leftmost
import FormalMachines.ContextFree.Report
import FormalMachines.ContextFree.Search
import FormalMachines.Declaration
import FormalMachines.Fault
import FormalMachines.Finite.Alphabet
import FormalMachines.Finite.Basic
import FormalMachines.Finite.Closure
import FormalMachines.Finite.Determinism
import FormalMachines.Finite.Document
import FormalMachines.Finite.Draft
import FormalMachines.Finite.Minimal
import FormalMachines.Finite.NameSet
import FormalMachines.Finite.Partition
import FormalMachines.Finite.Path
import FormalMachines.Finite.Report
import FormalMachines.Finite.Run
import FormalMachines.Finite.Subset
import FormalMachines.Finite.Transformation
import FormalMachines.Json.Basic
import FormalMachines.Json.Display
import FormalMachines.Json.Fields
import FormalMachines.Json.Order
import FormalMachines.Json.Parser
import FormalMachines.Json.Printer
import FormalMachines.Number.Binary64
import FormalMachines.Number.Shortest
import FormalMachines.Proofs.ContextFree.Bound
import FormalMachines.Proofs.ContextFree.Cost
import FormalMachines.Proofs.ContextFree.Search
import FormalMachines.Proofs.ContextFree.Shortest
import FormalMachines.Proofs.Distinct
import FormalMachines.Proofs.Finite.Alphabet
import FormalMachines.Proofs.Finite.Classes
import FormalMachines.Proofs.Finite.Closure
import FormalMachines.Proofs.Finite.Coarsest
import FormalMachines.Proofs.Finite.Merged
import FormalMachines.Proofs.Finite.Minimal
import FormalMachines.Proofs.Finite.Refinement
import FormalMachines.Proofs.Finite.Simulation
import FormalMachines.Proofs.Finite.Subset
import FormalMachines.Proofs.Finite.Successor
import FormalMachines.Proofs.Pushdown.Record
import FormalMachines.Proofs.Pushdown.Search
import FormalMachines.Proofs.Worklist
import FormalMachines.Pushdown.Basic
import FormalMachines.Pushdown.Document
import FormalMachines.Pushdown.Reach
import FormalMachines.Pushdown.Report
import FormalMachines.Pushdown.Run
import FormalMachines.Pushdown.Search
import FormalMachines.Run.Budget
import FormalMachines.Run.Cancellation
import FormalMachines.Run.Outcome
import FormalMachines.Service.Endpoint
import FormalMachines.Service.Settings
import FormalMachines.Text.Basic
import FormalMachines.Text.Blank
import FormalMachines.Text.Case
import FormalMachines.Text.CaseTable
import FormalMachines.Text.Encoding
import FormalMachines.Text.Hex
import FormalMachines.Text.Printable
import FormalMachines.Text.Quoted
import FormalMachines.Text.Ranges
import FormalMachines.Turing.Basic
import FormalMachines.Turing.Document
import FormalMachines.Turing.Ideal
import FormalMachines.Turing.Report
import FormalMachines.Turing.Run
import FormalMachines.Turing.Tape
import FormalMachines.Worklist
import FormalMachines.Proofs.ContextFree.Replay
import FormalMachines.Proofs.ContextFree.Confirmation
import FormalMachines.Proofs.Finite.Naming
import FormalMachines.Proofs.Turing.Contents
import FormalMachines.Proofs.Turing.Simulation
import FormalMachines.Proofs.Finite.Nondeterministic
import FormalMachines.Proofs.Pushdown.FirstMatch
import FormalMachines.Proofs.Service.Ceilings
import FormalMachines.Proofs.Discovery
import FormalMachines.Proofs.Finite.Listed
import FormalMachines.Proofs.Finite.Canonical
import FormalMachines.Proofs.Run.Cut
import FormalMachines.Proofs.Run.Early
import FormalMachines.Proofs.Finite.Cut
import FormalMachines.Proofs.Pushdown.Cut
import FormalMachines.Proofs.Turing.Cut
import FormalMachines.Proofs.Checks
import FormalMachines.Proofs.Finite.Document
import FormalMachines.Proofs.Finite.Language
import FormalMachines.Proofs.Finite.Places
import FormalMachines.Proofs.Finite.Chain
import FormalMachines.Turing.Indexed
import FormalMachines.Proofs.ContextFree.Reckoning
import FormalMachines.Proofs.ContextFree.Attempt
import FormalMachines.Proofs.ContextFree.Document
import FormalMachines.Proofs.ContextFree.Tower
import FormalMachines.Proofs.ContextFree.Verdicts
import FormalMachines.Proofs.ContextFree.Safety
import FormalMachines.Proofs.Finite.Safety
import FormalMachines.Proofs.Pushdown.Document
import FormalMachines.Proofs.Pushdown.Safety
import FormalMachines.Proofs.Turing.Document
import FormalMachines.Proofs.Turing.Safety
import FormalMachines.Proofs.Safety
import FormalMachines.Proofs.Fails
import FormalMachines.Proofs.Builders
import FormalMachines.Proofs.Finite.EpsilonInput
import FormalMachines.Proofs.Finite.Determinised
import FormalMachines.Proofs.Service.ServerErrors
import FormalMachines.Proofs.ContextFree.Exact
import FormalMachines.Proofs.Pushdown.Recorded
import FormalMachines.Proofs.Pushdown.Definitive
import FormalMachines.Proofs.Pushdown.Discipline
import FormalMachines.Proofs.Pushdown.StackSymbols
import FormalMachines.Proofs.Pushdown.Furthest
import FormalMachines.Proofs.Finite.Steppers
import FormalMachines.Proofs.Finite.DeadState
import FormalMachines.Proofs.Finite.NameClash
import FormalMachines.Proofs.Finite.ClosureOperator
import FormalMachines.Proofs.Finite.Choices
import FormalMachines.Proofs.Finite.RoundTrip
import FormalMachines.Proofs.Run.Verdict
import FormalMachines.ContextFree.Watch
import FormalMachines.Proofs.ContextFree.Rounds
import FormalMachines.Proofs.ContextFree.Watch
import FormalMachines.Proofs.ContextFree.Thresholds
import FormalMachines.Proofs.Finite.Parameters
import FormalMachines.Proofs.Finite.Pops
