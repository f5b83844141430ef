/-
# Ingestion of raw data

A session takes whole batches of rows, columns or objective terms as flat lists. A
batch is checked completely before anything is changed. Rows may name columns that
come later, but columns have to name existing rows.
-/
import LinProg.Backend.Encoding
import LinProg.Solver.Session
import LinProg.Sparse.Compressed

namespace LinProg

/-- Compressed entries with two bounds for each, as they are offered. -/
structure RawBatch where
  values : List Binary64
  offsets : List Nat
  indices : List Nat
  lower : List Binary64
  upper : List Binary64
  deriving DecidableEq

/-- A batch for a session. -/
inductive Ingestion where
  /-- Constraints by their rows. -/
  | rows (batch : RawBatch)
  /-- Variables by their columns, real and absent from the objective. -/
  | columns (batch : RawBatch)
  /-- Nonnegative variables by their objective terms. -/
  | objective (coefficients : List Binary64) (types : List VariableType)
  deriving DecidableEq

/-- Report a refused value as a refusal by the solver. -/
def asSolverError {α : Type} : Except InputError α → Except SolverError α
  | .ok value => .ok value
  | .error error => .error (.invalidInput error)

/-- Check a batch as compressed entries with bounds. -/
def RawBatch.compressed? (batch : RawBatch) :
    Except SolverError (CompressedEntries Binary64) := do
  let compressed ← asSolverError
    (CompressedEntries.ofLists? batch.values batch.offsets batch.indices)
  asSolverError (compressed.checkBounds batch.lower batch.upper)
  return compressed

namespace Program

/-- Append the rows of a batch. -/
def ingestRows (program : Program) (batch : RawBatch) : Except SolverError Program := do
  let compressed ← batch.compressed?
  return program.addConstraints
    (List.zipWith (fun row (lower, upper) => ⟨row, lower, upper⟩) compressed.entries
      (batch.lower.zip batch.upper))

/-- Store the terms of a column in the rows that they name. -/
def appendColumn (constraints : List Constraint) (index : Nat)
    (terms : List (Nat × Binary64)) : List Constraint :=
  terms.foldl (fun rows (position, value) =>
    rows.modify position fun constraint =>
      { constraint with row := constraint.row.append index value }) constraints

/-- The columns of a batch with the indices that they get. -/
def newColumns (program : Program) (compressed : CompressedEntries Binary64) :
    List (Entry Binary64 × Nat) :=
  compressed.entries.zipIdx program.vars.length

/-- Whether a row that a column names already has a term at its index. -/
def storesColumn (program : Program) (column : Entry Binary64 × Nat) : Bool :=
  column.1.indices.any fun position =>
    (program.constraints[position]?.bind fun constraint => constraint.row.get? column.2).isSome

/-- Append the columns of a batch. -/
def ingestColumns (program : Program) (batch : RawBatch) : Except SolverError Program := do
  let compressed ← batch.compressed?
  let rows := program.constraints.length
  match compressed.maxIndex?.filter fun index => rows ≤ index with
  | some index => throw (.indexOutOfRange index rows)
  | none => pure ()
  let added ← asSolverError
    ((batch.lower.zip batch.upper).mapM fun (lower, upper) => Variable.between? lower upper)
  let columns := program.newColumns compressed
  match columns.find? program.storesColumn with
  | some column => throw (.invalidInput (.repeatedIndex column.2))
  | none => pure ()
  let extended := program.addVariables added
  return { extended with
    constraints := columns.foldl (fun constraints column =>
      appendColumn constraints column.2 column.1.terms) extended.constraints }

/-- Append objective terms, each with a new variable. -/
def ingestObjective (program : Program) (coefficients : List Binary64)
    (types : List VariableType) : Except SolverError Program := do
  let added ← asSolverError (Objective.ofLists? coefficients types)
  match types.find? fun type => !Backend.inProcess.supportsType type with
  | some type => throw (.unsupportedType type)
  | none => pure ()
  asSolverError (program.setObjective ⟨program.objective.terms ++ added.terms⟩)

/-- Append a batch. -/
def ingest (program : Program) : Ingestion → Except SolverError Program
  | .rows batch => program.ingestRows batch
  | .columns batch => program.ingestColumns batch
  | .objective coefficients types => program.ingestObjective coefficients types

end Program

/-- What a batch brings, in words. -/
def Ingestion.summary : Ingestion → String
  | .rows batch => s!"{naturalText batch.lower.length} rows"
  | .columns batch => s!"{naturalText batch.lower.length} columns"
  | .objective coefficients _ => s!"{naturalText coefficients.length} variables"

namespace Session

/-- Take in a batch. A batch that is refused changes nothing. -/
def ingest (session : Session) (ingestion : Ingestion) : Reply Session Unit :=
  match session.program.ingest ingestion with
  | .error error => .refuse session error
  | .ok program =>
      (Reply.succeed (session.change program) ()).logging
        [backendLine .debug s!"received {ingestion.summary}"]

/-- One operation on a session. -/
inductive Call where
  | request (request : Request)
  | ingest (ingestion : Ingestion)
  deriving DecidableEq

/-- Carry out one operation. -/
def perform (engine : Engine) (session : Session) : Call → Reply Session Response
  | .request request => (contract engine).perform session request
  | .ingest ingestion => (session.ingest ingestion).map fun _ => .done

/-- The state that a run ends in. -/
def run (engine : Engine) (session : Session) (calls : List Call) : Session :=
  calls.foldl (fun state call => (state.perform engine call).next) session

end Session

end LinProg
