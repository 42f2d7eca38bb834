import Evolution.Program.Record
import Evolution.Program.Blend
import Evolution.Answer.Dominance
import Evolution.Breeding.Record
import Evolution.Evaluation.Record
import Evolution.Factory.Custom
import Evolution.Factory.Record
import Evolution.Json.Parser
import Evolution.Json.Printer
import Evolution.Proofs.Answer.Dominance
import Evolution.Proofs.Breeding.Lineage
import Evolution.Proofs.Checks
import Evolution.Proofs.Execution.Run
import Evolution.Proofs.Factory.Conservation
import Evolution.Proofs.Factory.Floor
import Evolution.Proofs.Factory.Immediate
import Evolution.Proofs.Factory.Sound
import Evolution.Proofs.Factory.Requests
import Evolution.Proofs.Factory.Delivering
import Evolution.Proofs.Factory.Failure
import Evolution.Proofs.Factory.Cycle
import Evolution.Proofs.Factory.Counters
import Evolution.Proofs.Factory.Books
import Evolution.Proofs.Factory.Balance
import Evolution.Proofs.Store.Concurrency
import Evolution.Proofs.Answer.Id
import Evolution.Proofs.Calendar.Instant
import Evolution.Proofs.SortedTable
import Evolution.Proofs.Answer.Record
import Evolution.Proofs.Store.Loading
import Evolution.Proofs.Store.Insertion
import Evolution.Proofs.Store.Refusal
import Evolution.Proofs.Store.Generations
import Evolution.Proofs.Binary.Whole
import Evolution.Proofs.Execution.Builtin
import Evolution.Proofs.Execution.Typed
import Evolution.Proofs.Evaluation.Batch
import Evolution.Proofs.Evaluation.Readings
import Evolution.Proofs.Evaluation.Order
import Evolution.Proofs.Evaluation.Zero
import Evolution.Proofs.Evaluation.Coverage
import Evolution.Proofs.Factory.Wiring
import Evolution.Proofs.Draw.Faults
import Evolution.Proofs.Breeding.Groups
import Evolution.Proofs.Breeding.Descent
import Evolution.Proofs.Program.Texts
import Evolution.Proofs.Breeding.Values
import Evolution.Proofs.Breeding.Faults
import Evolution.Proofs.Breeding.Brood
import Evolution.Proofs.Breeding.Pairing
import Evolution.Proofs.Binary.Magnitude
import Evolution.Proofs.Factory.Independence
import Evolution.Proofs.Execution.Restriction
import Evolution.Proofs.Blueprint.Diagnosis
import Evolution.Proofs.Blueprint.Pool
import Evolution.Proofs.Program.Deletion
import Evolution.Proofs.Program.Rewriting
import Evolution.Proofs.Literal.Compact
import Evolution.Proofs.Program.Blending
import Evolution.Proofs.Breeding.Backbones
import Evolution.Proofs.Breeding.Edits
import Evolution.Proofs.Blueprint.Section
import Evolution.Proofs.Breeding.Layers
import Evolution.Proofs.Draw.Integers
import Evolution.Proofs.Literal.Bounds
import Evolution.Proofs.Binary.Nearest
import Evolution.Proofs.Binary.Operations
import Evolution.Proofs.Binary.Interpolation
import Evolution.Proofs.Decimal.Nearest
import Evolution.Proofs.Decimal.Shortest
import Evolution.Proofs.Decimal.ReadBack
import Evolution.Proofs.Literal.Usable
