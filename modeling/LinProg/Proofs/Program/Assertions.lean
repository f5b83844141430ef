/-
# Nothing that operations take for granted can fail

Some operations rely on conditions that they do not check. A change of the variables or
of the objective relies on the two agreeing in number afterwards, a row that is made
without a check on its indices being distinct, and a term that is stored without a check
on its index being new. `AssertionsHold` says at which programs these conditions hold
when an operation comes to rely on them, and well-formed programs are such programs.
-/
import LinProg.Proofs.Program.Ingestion

namespace LinProg

/-- Edits of variables and of the objective end with a consistent program, and a term
that passed the check for a repeated index is new to its row. -/
def Edit.AssertionsHold (program : Program) : Edit → Prop
  | .addVariables added => (program.addVariables added).Consistent
  | .removeVariable position =>
      ∀ next, program.removeVariable position = .ok next → next.Consistent
  | .setObjective objective => ∀ next, program.setObjective objective = .ok next → next.Consistent
  | .pushTerm position index value =>
      ∀ constraint row, program.constraints[position]? = some constraint →
        constraint.row.push? index value = .ok row → index ∉ constraint.row.indices
  | _ => True

/-- Rows that are cut out of a batch are rows that the constructor makes. When columns
are stored, the program is consistent after their variables were appended, and none of
their terms would be refused if it were pushed with a check. -/
def Ingestion.AssertionsHold (program : Program) : Ingestion → Prop
  | .rows batch =>
      ∀ compressed, batch.compressed? = .ok compressed → ∀ segment ∈ compressed.segments,
        segment.1.length = segment.2.length ∧ segment.2.Nodup
  | .columns batch =>
      ∀ compressed added next, batch.compressed? = .ok compressed →
        (batch.lower.zip batch.upper).mapM (fun (lower, upper) => Variable.between? lower upper) =
          .ok added →
        program.ingestColumns batch = .ok next →
        (program.addVariables added).Consistent ∧
          ((PlacedTerm.ofColumns (program.newColumns compressed)).map PlacedTerm.edit).foldlM
            Program.edit (program.addVariables added) = .ok next
  | .objective coefficients types =>
      ∀ next, program.ingestObjective coefficients types = .ok next → next.Consistent

namespace Program.WellFormed

variable {program : Program}

theorem edit_assertionsHold (wellFormed : program.WellFormed) (edit : Edit) :
    edit.AssertionsHold program := by
  cases edit with
  | addVariables added => exact wellFormed.consistent.addVariables added
  | removeVariable position => exact fun next hok => (wellFormed.removeVariable hok).objective_size
  | setObjective objective => exact fun next hok => (wellFormed.setObjective hok).objective_size
  | pushTerm position index value =>
      exact fun constraint row _ hpush => ((Entry.push?_eq_ok_iff _ _ _ _).mp hpush).1
  | _ => trivial

theorem ingestion_assertionsHold (wellFormed : program.WellFormed) (ingestion : Ingestion) :
    ingestion.AssertionsHold program := by
  cases ingestion with
  | rows batch =>
      intro compressed hcompressed segment hmem
      have hlists := ((batch.compressed?_eq_ok_iff compressed).mp hcompressed).1
      have hsegment := CompressedEntries.ofLists?_segment hlists hmem
      obtain ⟨hlength, hnodup, -⟩ := (Entry.ofLists?_eq_ok_iff _ _ _).mp hsegment
      exact ⟨hlength, hnodup⟩
  | columns batch =>
      intro compressed added next hcompressed hadded hok
      exact ⟨wellFormed.consistent.addVariables added,
        foldlM_edit_of_ingestColumns hcompressed hadded hok⟩
  | objective coefficients types =>
      exact fun next hok => (wellFormed.ingestObjective hok).objective_size

end Program.WellFormed

end LinProg
