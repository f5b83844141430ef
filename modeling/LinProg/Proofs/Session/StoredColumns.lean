/-
# Columns taken in by a session

A session takes a batch of columns in exactly if the held program accepts it, and then the
held program has the columns and nothing else that is new. A row that no column names may
already store something at one of the new indices, and keeps it.
-/
import LinProg.Proofs.Program.StoredColumns
import LinProg.Proofs.Program.Consistent
import LinProg.Proofs.Session.Operations

namespace LinProg.Session

/-- A batch of columns is taken in if and only if it is acceptable for the held program. The
held program then has these columns, and the session has to synchronize again. As long as there
was one objective term for each variable, each new variable has the term of an absent one. -/
theorem ingest_columns_exact (engine : Engine) (session : Session) (batch : RawBatch) :
    let program := session.program
    let reply := session.perform engine (.ingest (.columns batch))
    (reply.result = .ok .done ↔ program.AcceptsColumns batch) ∧
      (reply.result = .ok .done →
        program.ColumnsAdded batch reply.next.program ∧ reply.next.state = .configured ∧
          (program.Consistent → ∀ number < batch.columns.length,
            reply.next.program.objective.terms[program.vars.length + number]? =
              some ⟨0, .real⟩)) := by
  intro program reply
  cases hingest : program.ingestColumns batch with
  | error error =>
      have hrefusal : session.program.ingest (.columns batch) = .error error := hingest
      have hresult : reply.result = .error (.solver error) :=
        (perform_ingest_of_error engine session hrefusal).1
      have hrefused : ¬ program.AcceptsColumns batch := fun accepts => by
        have hok := Program.ingestColumns_eq_ok_iff_accepts.mpr ⟨accepts, rfl⟩
        cases hok.symm.trans hingest
      rw [hresult]
      exact ⟨iff_of_false nofun hrefused, nofun⟩
  | ok next =>
      obtain ⟨accepts, rfl⟩ := Program.ingestColumns_eq_ok_iff_accepts.mp hingest
      have hacceptance : session.program.ingest (.columns batch) =
          .ok (program.addColumns batch.vars batch.columns) := hingest
      obtain ⟨hresult, hnext⟩ := perform_ingest_of_ok engine session hacceptance
      have added : program.ColumnsAdded batch reply.next.program := by
        rw [hnext]
        exact accepts.columnsAdded
      refine ⟨iff_of_true hresult accepts, fun _ => ⟨added, ?_, ?_⟩⟩
      · rw [hnext]
        rfl
      · intro consistent number hnumber
        have hsize : program.objective.terms.length = program.vars.length := consistent
        rw [added.objective, List.getElem?_append_right (by omega), hsize,
          Nat.add_sub_cancel_left]
        simp [hnumber, ObjectiveTerm.absent]

/-- Two columns name the same two rows, one of which also names a variable far off. The column
between them is empty, so that the last row keeps the term that it has at its index. -/
theorem ingest_columns_exact_shared_rows :
    let one := Binary64.ofInt 1
    let program := Program.ofObjective .minimize
      [⟨⟨[(7, one), (0, one)]⟩, 0, .posInf⟩, ⟨⟨[]⟩, 0, .posInf⟩, ⟨⟨[(2, one)]⟩, 0, 0⟩]
      ⟨[⟨one, .integer⟩]⟩
    let batch : RawBatch := ⟨[one, one, one, 0], [0, 2, 2, 4], [1, 0, 0, 1],
      [0, .negInf, 0], [.posInf, .posInf, 0]⟩
    let session := start program
    let reply := session.perform (fun _ => .infeasible) (.ingest (.columns batch))
    program.AcceptsColumns batch ∧ program.Consistent ∧ reply.result = .ok .done ∧
      reply.next.program.constraints.map (fun constraint => constraint.row.terms) =
        [[(7, one), (0, one), (1, one), (3, one)], [(1, one), (3, 0)], [(2, one)]] ∧
      (∀ before after : Constraint, program.constraints[2]? = some before →
        reply.next.program.constraints[2]? = some after →
          after.row.get? 2 = before.row.get? 2) ∧
      reply.next.program.objective.terms[session.program.vars.length + 2]? = some ⟨0, .real⟩ ∧
      reply.next.state = .configured := by
  intro one program batch session reply
  have haccepted : (program.ingestColumns batch).toOption.isSome = true := by decide +kernel
  obtain ⟨next, hsome⟩ := Option.isSome_iff_exists.mp haccepted
  have accepts : program.AcceptsColumns batch :=
    (Program.ingestColumns_eq_ok_iff_accepts.mp (toOption_eq_some_iff.mp hsome)).1
  have consistent : program.Consistent := rfl
  obtain ⟨hiff, hdone⟩ := ingest_columns_exact (fun _ => .infeasible) session batch
  have hresult : reply.result = .ok .done := hiff.mpr accepts
  obtain ⟨added, hstate, habsent⟩ := hdone hresult
  have hlast : 2 < batch.columns.length := by decide
  dsimp only [reply] at hresult ⊢
  refine ⟨accepts, consistent, hresult, ?_, ?_, habsent consistent 2 hlast, hstate⟩
  · decide +kernel
  · intro before after hbefore hafter
    exact (added.constraint 2 before after hbefore hafter).unnamed 1 ⟨[]⟩ rfl rfl

end LinProg.Session
