/-
# Ingestion as checks and writes

Ingestion gives a changed program or an error, and so cannot leave half of a batch behind.
A holder that takes a batch in where it stands could: it has to append variables before it
can store their terms, and each term is a write of its own. Here a batch comes down to a
list of such writes, all of them edits that may be refused. They are known once the batch
has been checked. If the checks end well the writes do so too, one after the other, unless
there is a single one, and they leave the program that ingestion gives.
-/
import LinProg.Proofs.Program.Batches

namespace LinProg

namespace Program

/-- The checks of a batch of columns, before anything is written. -/
def checkColumns (program : Program) (batch : RawBatch) :
    Except SolverError (CompressedEntries Binary64 × List Variable) := do
  let compressed ← batch.compressed?
  match compressed.maxIndex?.filter fun index => program.constraints.length ≤ index with
  | some index => throw (.indexOutOfRange index program.constraints.length)
  | none => pure ()
  let added ← asSolverError
    ((batch.lower.zip batch.upper).mapM fun range => Variable.between? range.1 range.2)
  match (program.newColumns compressed).find? program.storesColumn with
  | some column => throw (.invalidInput (.repeatedIndex column.2))
  | none => pure ()
  return (compressed, added)

/-- The checks of a batch of objective terms. The size of the new objective is not looked at
before it is set. -/
def checkObjective (coefficients : List Binary64) (types : List VariableType) :
    Except SolverError Objective := do
  let added ← asSolverError (Objective.ofLists? coefficients types)
  match types.find? fun type => !Backend.inProcess.supportsType type with
  | some type => throw (.unsupportedType type)
  | none => pure ()
  return added

/-- The edits that a batch comes down to once it has been checked. -/
def writes? (program : Program) : Ingestion → Except SolverError (List Edit)
  | .rows batch =>
      batch.compressed?.map fun compressed =>
        [.addConstraints (Constraint.ofRows compressed.entries batch.lower batch.upper)]
  | .columns batch =>
      (program.checkColumns batch).map fun checked =>
        .addVariables checked.2 ::
          (PlacedTerm.ofColumns (program.newColumns checked.1)).map PlacedTerm.edit
  | .objective coefficients types =>
      (checkObjective coefficients types).map fun added =>
        [.setObjective ⟨program.objective.terms ++ added.terms⟩]

/-! ## Checks come first -/

theorem ingestRows_eq_map (program : Program) (batch : RawBatch) :
    program.ingestRows batch = batch.compressed?.map fun compressed =>
      program.addConstraints (Constraint.ofRows compressed.entries batch.lower batch.upper) := by
  rw [ingestRows]
  cases batch.compressed? <;> rfl

theorem ingestColumns_eq_map (program : Program) (batch : RawBatch) :
    program.ingestColumns batch = (program.checkColumns batch).map fun checked =>
      { program.addVariables checked.2 with
        constraints := (program.newColumns checked.1).foldl (fun constraints column =>
          appendColumn constraints column.2 column.1.terms) program.constraints } := by
  rw [ingestColumns, checkColumns]
  cases batch.compressed? with
  | error error => rfl
  | ok compressed =>
      dsimp only [bind, Except.bind]
      cases compressed.maxIndex?.filter fun index => program.constraints.length ≤ index with
      | some index => rfl
      | none =>
          dsimp only [pure, Except.pure]
          cases asSolverError
            ((batch.lower.zip batch.upper).mapM fun range => Variable.between? range.1 range.2) with
          | error error => rfl
          | ok added =>
              dsimp only
              cases (program.newColumns compressed).find? program.storesColumn <;> rfl

theorem ingestObjective_eq_bind (program : Program) (coefficients : List Binary64)
    (types : List VariableType) :
    program.ingestObjective coefficients types = checkObjective coefficients types >>= fun added =>
      asSolverError (program.setObjective ⟨program.objective.terms ++ added.terms⟩) := by
  rw [ingestObjective, checkObjective]
  cases asSolverError (Objective.ofLists? coefficients types) with
  | error error => rfl
  | ok added =>
      dsimp only [bind, Except.bind]
      cases types.find? fun type => !Backend.inProcess.supportsType type <;> rfl

/-- Checked columns come from the data of the batch. -/
theorem of_checkColumns_eq_ok {program : Program} {batch : RawBatch}
    {checked : CompressedEntries Binary64 × List Variable}
    (hok : program.checkColumns batch = .ok checked) :
    batch.compressed? = .ok checked.1 ∧
      (batch.lower.zip batch.upper).mapM (fun range => Variable.between? range.1 range.2) =
        .ok checked.2 := by
  rw [checkColumns, bind_eq_ok_iff] at hok
  obtain ⟨compressed, hcompressed, hok⟩ := hok
  cases hrange : compressed.maxIndex?.filter fun index => program.constraints.length ≤ index with
  | some index =>
      rw [hrange] at hok
      cases hok
  | none =>
      simp only [hrange, bind_eq_ok_iff, asSolverError_eq_ok_iff] at hok
      obtain ⟨added, hadded, hok⟩ := hok
      cases hstored : (program.newColumns compressed).find? program.storesColumn with
      | some column =>
          rw [hstored] at hok
          cases hok
      | none =>
          rw [hstored] at hok
          cases hok
          exact ⟨hcompressed, hadded⟩

/-! ## Writes come to an end -/

/-- How a batch is taken in: its checks fail, or all its writes are carried out, or it has a
single write and that one is refused. -/
inductive Ingested (program : Program) (ingestion : Ingestion) : Prop
  | unchecked (error : SolverError) (hwrites : program.writes? ingestion = .error error)
      (hingest : program.ingest ingestion = .error error)
  | written (writes : List Edit) (next : Program) (hwrites : program.writes? ingestion = .ok writes)
      (hwritten : writes.foldlM Program.edit program = .ok next)
      (hingest : program.ingest ingestion = .ok next)
  | unwritten (write : Edit) (error : InputError) (hwrites : program.writes? ingestion = .ok [write])
      (hwritten : program.edit write = .error (.invalid error))
      (hingest : program.ingest ingestion = .error (.invalidInput error))

theorem ingested_rows (program : Program) (batch : RawBatch) :
    program.Ingested (.rows batch) := by
  have hingest : program.ingest (.rows batch) = _ := ingestRows_eq_map program batch
  cases hcompressed : batch.compressed? with
  | error error =>
      apply Ingested.unchecked error
      · rw [writes?, hcompressed]
        rfl
      · rw [hingest, hcompressed]
        rfl
  | ok compressed =>
      apply Ingested.written
      · rw [writes?, hcompressed]
        rfl
      · rfl
      · rw [hingest, hcompressed]
        rfl

/-- Once the variables are there, every row that a column names has room for its term. -/
theorem ingested_columns (program : Program) (batch : RawBatch) :
    program.Ingested (.columns batch) := by
  have hingest : program.ingest (.columns batch) = _ := ingestColumns_eq_map program batch
  cases hchecked : program.checkColumns batch with
  | error error =>
      apply Ingested.unchecked error
      · rw [writes?, hchecked]
        rfl
      · rw [hingest, hchecked]
        rfl
  | ok checked =>
      obtain ⟨hcompressed, hadded⟩ := of_checkColumns_eq_ok hchecked
      rw [hchecked] at hingest
      apply Ingested.written
      · rw [writes?, hchecked]
        rfl
      · rw [List.foldlM_cons]
        exact foldlM_edit_of_ingestColumns hcompressed hadded hingest
      · exact hingest

/-- Objective terms are refused late only if the program has fewer of them than variables. -/
theorem ingested_objective (program : Program) (coefficients : List Binary64)
    (types : List VariableType) : program.Ingested (.objective coefficients types) := by
  have hingest : program.ingest (.objective coefficients types) = _ :=
    ingestObjective_eq_bind program coefficients types
  cases hchecked : checkObjective coefficients types with
  | error error =>
      apply Ingested.unchecked error
      · rw [writes?, hchecked]
        rfl
      · rw [hingest, hchecked]
        rfl
  | ok added =>
      have hwrites : program.writes? (.objective coefficients types) =
          .ok [.setObjective ⟨program.objective.terms ++ added.terms⟩] := by
        rw [writes?, hchecked]
        rfl
      rw [hchecked] at hingest
      cases hset : program.setObjective ⟨program.objective.terms ++ added.terms⟩ with
      | error error =>
          apply Ingested.unwritten _ error hwrites
          · simp [edit, hset]
          · rw [hingest]
            simp [bind, Except.bind, hset, asSolverError]
      | ok next =>
          apply Ingested.written _ next hwrites
          · simp [List.foldlM, edit, hset, bind, Except.bind, pure, Except.pure]
          · rw [hingest]
            simp [bind, Except.bind, hset, asSolverError]

theorem ingested (program : Program) (ingestion : Ingestion) : program.Ingested ingestion := by
  cases ingestion with
  | rows batch => exact ingested_rows program batch
  | columns batch => exact ingested_columns program batch
  | objective coefficients types => exact ingested_objective program coefficients types

end Program

end LinProg
