/-
# One objective term for each variable

Values that no constructor would accept can make a program ill-formed, but they cannot set
its objective apart from its variables. Edits either leave both in their lengths, or change
both alike, whatever data they bring. Within the objective, the coefficients and the types
change alike too.
-/
import LinProg.Program.Edit

namespace LinProg.Program

variable {program next : Program}

/-! ## What edits do when they happen -/

theorem modifyConstraint_eq_ok_iff {position : Nat}
    {change : Constraint → Except EditError Constraint} :
    program.modifyConstraint position change = .ok next ↔
      ∃ constraint changed, program.constraints[position]? = some constraint ∧
        change constraint = .ok changed ∧
        next = { program with constraints := program.constraints.set position changed } := by
  rw [modifyConstraint]
  cases hat : program.constraints[position]? with
  | none => simp
  | some constraint =>
      cases hchange : change constraint <;> simp [hchange, Except.map, eq_comm]

theorem withObjective_eq_ok_iff {changed : Option Objective} :
    program.withObjective changed = .ok next ↔
      ∃ objective, changed = some objective ∧ next = { program with objective } := by
  cases changed <;> simp [withObjective, eq_comm]

theorem setObjective_eq_ok_iff {objective : Objective} :
    program.setObjective objective = .ok next ↔
      program.vars.length ≤ objective.size ∧
        next = { program with
          objective, initialized := true
          vars := program.vars ++
            List.replicate (objective.size - program.vars.length) .nonnegative } := by
  by_cases hshort : objective.size < program.vars.length
  · simp [setObjective, hshort, Nat.not_le.mpr hshort]
  · simp [setObjective, hshort, Nat.not_lt.mp hshort, eq_comm]

/-- Of the listed positions, only the greatest is compared with the number of constraints. -/
theorem removeConstraintsBy_eq_ok_iff {delete : List Constraint → List Nat → List Constraint}
    {positions : List Nat} :
    program.removeConstraintsBy delete positions = .ok next ↔
      (∀ last ∈ (increasing positions).getLast?, last < program.constraints.length) ∧
        next = { program with
          constraints := delete program.constraints (increasing positions) } := by
  simp only [removeConstraintsBy]
  cases (increasing positions).getLast? with
  | none => simp [eq_comm]
  | some last =>
      by_cases hlast : last < program.constraints.length
      · simp [hlast, eq_comm]
      · simp [hlast]

/-! ## Coefficients and types side by side -/

/-- Each further variable brings a coefficient and a type. -/
theorem lists_addVariables (program : Program) (added : List Variable) :
    (program.addVariables added).objective.coefficients =
        program.objective.coefficients ++ List.replicate added.length 0 ∧
      (program.addVariables added).objective.types =
        program.objective.types ++ List.replicate added.length .real := by
  simp [addVariables, Objective.coefficients, Objective.types, ObjectiveTerm.absent]

/-! ## Keeping objective and variables in equal number -/

/-- The objective and the variables agree in number. -/
def Consistent (program : Program) : Prop :=
  program.objective.size = program.vars.length

namespace Consistent

theorem addVariables (consistent : program.Consistent) (added : List Variable) :
    (program.addVariables added).Consistent := by
  simp only [Consistent, Objective.size, Program.addVariables, List.length_append,
    List.length_replicate] at consistent ⊢
  omega

theorem removeVariable (consistent : program.Consistent) {position : Nat}
    (hok : program.removeVariable position = .ok next) : next.Consistent := by
  simp only [Program.removeVariable] at hok
  split at hok
  · cases hok
    simp only [Consistent, Objective.size, List.length_eraseIdx] at consistent ⊢
    rw [consistent]
  · cases hok

theorem setObjective {objective : Objective} (hok : program.setObjective objective = .ok next) :
    next.Consistent := by
  obtain ⟨hlong, rfl⟩ := setObjective_eq_ok_iff.mp hok
  simp only [Consistent, List.length_append, List.length_replicate]
  omega

/-- An objective that is changed in one term keeps its size. -/
theorem withObjective (consistent : program.Consistent) {changed : Option Objective}
    (hsize : ∀ objective ∈ changed, objective.size = program.objective.size)
    (hok : program.withObjective changed = .ok next) : next.Consistent := by
  obtain ⟨objective, rfl, rfl⟩ := withObjective_eq_ok_iff.mp hok
  exact (hsize objective rfl).trans consistent

theorem modifyConstraint (consistent : program.Consistent) {position : Nat}
    {change : Constraint → Except EditError Constraint}
    (hok : program.modifyConstraint position change = .ok next) : next.Consistent := by
  obtain ⟨_, _, -, -, rfl⟩ := modifyConstraint_eq_ok_iff.mp hok
  exact consistent

/-- An edit that happens leaves objective and variables in equal number. -/
theorem edit (consistent : program.Consistent) {edit : Edit}
    (hok : program.edit edit = .ok next) : next.Consistent := by
  cases edit with
  | touch | setSense sense | addConstraints added =>
      cases hok
      exact consistent
  | addVariables added =>
      cases hok
      exact consistent.addVariables added
  | removeVariable position => exact consistent.removeVariable hok
  | setVariable position bounds =>
      simp only [Program.edit] at hok
      split at hok
      · cases hok
        simpa [Consistent] using consistent
      · cases hok
  | removeConstraint position =>
      simp only [Program.edit, Program.removeConstraint] at hok
      split at hok
      · cases hok
        exact consistent
      · cases hok
  | removeConstraints positions =>
      obtain ⟨-, rfl⟩ := removeConstraintsBy_eq_ok_iff.mp hok
      exact consistent
  | setConstraint position constraint => exact consistent.modifyConstraint hok
  | setRange position lower upper => exact consistent.modifyConstraint hok
  | pushTerm position index value => exact consistent.modifyConstraint hok
  | setTerm position place value => exact consistent.modifyConstraint hok
  | setObjective objective =>
      cases hset : program.setObjective objective with
      | error error => simp [Program.edit, hset] at hok
      | ok changed =>
          obtain rfl : changed = next := by simpa [Program.edit, hset] using hok
          exact setObjective hset
  | setCoefficient position coefficient =>
      refine consistent.withObjective ?_ hok
      intro objective hchanged
      obtain ⟨term, -, rfl⟩ := Option.map_eq_some_iff.mp hchanged
      simp [Objective.size]
  | setType position type =>
      refine consistent.withObjective ?_ hok
      intro objective hchanged
      obtain ⟨term, -, rfl⟩ := Option.map_eq_some_iff.mp hchanged
      simp [Objective.size]

end Consistent

end LinProg.Program
