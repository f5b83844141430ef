/-
# Columns and the variables they stand for

The columns of a formulation stand for the variables of the program one by one. A formulation
remembers the whole objective; once it was accepted, each type in it is one of the backend, so
that the values that are rounded are those of the integer and binary variables.
-/
import LinProg.Solver.Session
import LinProg.Proofs.Formulation.Meaning
import LinProg.Proofs.Program.Consistent

namespace LinProg

/-- Whether the variable gets whole numbers only. -/
def ObjectiveTerm.isWhole (term : ObjectiveTerm) : Bool :=
  term.type = .integer || term.type = .binary

/-- The third type of whole numbers has no domain. -/
theorem isInteger_of_domain? {index : Nat} {bounds : Variable} {term : ObjectiveTerm}
    {domain : Domain} (hok : domain? index bounds term.type = .ok domain) :
    term.type.isInteger = term.isWhole := by
  rw [ObjectiveTerm.isWhole]
  cases htype : term.type with
  | real | integer | binary => rfl
  | semiReal => simp [htype, domain?] at hok
  | semiInteger => simp [htype, domain?] at hok

namespace Formulation

variable {program : Program} {formulation : Formulation}

theorem length_variablesOf (consistent : program.Consistent) :
    (variablesOf program).length = program.vars.length := by
  have hsize : program.objective.terms.length = program.vars.length := consistent
  simp [variablesOf, hsize]

theorem map_variablesOf (consistent : program.Consistent) :
    (variablesOf program).map (fun item => item.1.2) = program.objective.terms := by
  have hsize : program.objective.terms.length = program.vars.length := consistent
  have hterms : (variablesOf program).map (fun item => item.1.2) =
      ((variablesOf program).map Prod.fst).map Prod.snd := List.map_map.symm
  rw [hterms, variablesOf, List.zipIdx_map_fst, List.map_snd_zip (Nat.le_of_eq hsize)]

theorem length_columns_of_ofProgram? (consistent : program.Consistent)
    (hok : ofProgram? program = .ok formulation) :
    formulation.problem.columns.length = program.vars.length := by
  obtain ⟨columns, hcolumns, -, rfl⟩ := ofProgram?_eq_ok_iff.mp hok
  rw [List.length_map, ← hcolumns.length_eq, length_variablesOf consistent]

theorem coefficients_of_ofProgram? (hok : ofProgram? program = .ok formulation) :
    formulation.coefficients = program.objective.coefficients := by
  obtain ⟨_, -, -, rfl⟩ := ofProgram?_eq_ok_iff.mp hok
  rfl

/-- Each term was looked at with its variable, so none of them has a type without a domain. -/
theorem integral_of_ofProgram? (consistent : program.Consistent)
    (hok : ofProgram? program = .ok formulation) :
    formulation.integral = program.objective.terms.map ObjectiveTerm.isWhole := by
  obtain ⟨columns, hcolumns, -, rfl⟩ := ofProgram?_eq_ok_iff.mp hok
  show program.objective.types.map VariableType.isInteger = _
  rw [Objective.types, ← map_variablesOf consistent, List.map_map, List.map_map, List.map_map]
  refine List.map_congr_left fun item hmem => ?_
  obtain ⟨column, -, hcolumn⟩ := exists_of_mem_forall₂ hcolumns.flip hmem
  obtain ⟨domain, hdomain, -⟩ := column?_eq_ok_iff.mp hcolumn
  exact isInteger_of_domain? hdomain

/-- The solution at a point is made of the point and the objective of the program. -/
theorem solutionAt_of_ofProgram? (consistent : program.Consistent)
    (hok : ofProgram? program = .ok formulation) {point : List Binary64}
    (hlength : point.length = formulation.problem.columns.length) (value : Binary64) :
    let primal := List.zipWith (fun term value => if term.isWhole then value.round else value)
      program.objective.terms point
    formulation.solutionAt point value =
      { primal, dual := []
        objectiveValue :=
          if program.objective.terms.any ObjectiveTerm.isWhole then
            Binary64.sum (List.zipWith (fun term value => term.coefficient * value)
              program.objective.terms primal)
          else value } := by
  have hcontains : (program.objective.terms.map ObjectiveTerm.isWhole).contains true =
      program.objective.terms.any ObjectiveTerm.isWhole := by
    rw [Bool.eq_iff_iff]
    simp
  simp only [solutionAt, ← hlength, List.take_length, integral_of_ofProgram? consistent hok,
    coefficients_of_ofProgram? hok, Objective.coefficients, List.zipWith_map_left, hcontains]

end Formulation

end LinProg
