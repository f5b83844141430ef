import LinProg.Backend.Encoding
import LinProg.Backend.ParameterKeys
import LinProg.Backend.StatusCodes
import LinProg.Engine.Search
import LinProg.Program.Edit
import LinProg.Solution
import LinProg.Solver.Ingestion
import LinProg.Solver.Replay
import LinProg.Sparse.Compressed
import LinProg.Sparse.Matrix
import LinProg.Proofs.Formulation.Meaning
import LinProg.Proofs.Session.History
import LinProg.Proofs.Formulation.Refusals
import LinProg.Proofs.Session.Lifecycle
import LinProg.Proofs.Session.WellFormed
import LinProg.Proofs.Session.RowBatches
import LinProg.Proofs.Program.Writes
import LinProg.Proofs.Session.Refusal
import LinProg.Proofs.Program.Equality
import LinProg.Proofs.Program.Blocks
import LinProg.Proofs.Session.ColumnBatches
import LinProg.Proofs.Sparse.RoundTrip
import LinProg.Proofs.Program.Chunks
import LinProg.Proofs.Session.Chunks
import LinProg.Proofs.Session.Breakdown
import LinProg.Proofs.Formulation.Columns
import LinProg.Proofs.Session.Readable
import LinProg.Proofs.Formulation.Gathered
import LinProg.Proofs.Session.Gathered
import LinProg.Proofs.Replay.History
import LinProg.Proofs.Sparse.Dense
import LinProg.Proofs.Formulation.Integers
import LinProg.Proofs.Session.StoredColumns
import LinProg.Proofs.Sparse.Validation
import LinProg.Proofs.Program.Removal
import LinProg.Proofs.Formulation.FirstRefusal
import LinProg.Proofs.Formulation.EmptyRanges
import LinProg.Proofs.Session.EmptyRanges
import LinProg.Proofs.Sorting
import LinProg.Proofs.Program.RemovalOrder
import LinProg.Proofs.Program.ConstraintRemoval
import LinProg.Proofs.Formulation.BinaryBounds
import LinProg.Proofs.Session.BinaryBounds
import LinProg.Proofs.Settings
import LinProg.Proofs.Sparse.Pushes
import LinProg.Proofs.Sparse.Transpose
import LinProg.Proofs.Sparse.Extremes
import LinProg.Proofs.Lookup
import LinProg.Proofs.Parameter.Settings
import LinProg.Proofs.Program.Membership
