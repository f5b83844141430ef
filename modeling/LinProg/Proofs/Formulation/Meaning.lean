/-
# A formulation means what the program means

The rows of a formulation are the rows that its constraints turn into, one after the other,
and each of them names existing variables only. So a point meets the constraints of the
program exactly if none of their ranges was given up and it meets the rows of the engine
problem. Where a range was given up, or the domain of a variable turned out empty, there is
no point that meets all demands of the program.
-/
import LinProg.Proofs.Formulation.Domains
import LinProg.Proofs.Formulation.Rows

namespace LinProg

/-- The rows that a constraint turns into, unless its range cannot be met. -/
def Constraint.engineRows? (constraint : Constraint) : Option (List EngineRow) :=
  rangeRows? constraint.row.terms constraint.lower constraint.upper

theorem constraintRows?_eq_ok_iff {columns : Nat} {constraint : Constraint}
    {rows? : Option (List EngineRow)} :
    constraintRows? columns constraint = .ok rows? ↔
      (∀ index ∈ constraint.row.indices, index < columns) ∧ constraint.engineRows? = rows? := by
  have hsearch : constraintRows? columns constraint =
      (constraint.row.indices.find? fun index => columns ≤ index).elim
        (.ok constraint.engineRows?) fun index => .error (.indexOutOfRange index columns) := by
    rw [constraintRows?]
    cases constraint.row.indices.find? fun index => columns ≤ index <;> rfl
  rw [hsearch, elim_find?_eq_ok_iff (by simp), Except.ok.injEq]
  simp

/-- A point meets a constraint exactly if its range was not given up and the point meets
the rows made of it. -/
theorem Constraint.holdsAt_iff {constraint : Constraint} (distinct : constraint.row.Distinct)
    {size : Nat} (hindices : ∀ index ∈ constraint.row.indices, index < size)
    (hlower : constraint.lower ≠ .nan) (hupper : constraint.upper ≠ .nan) (point : Nat → Rat) :
    constraint.HoldsAt size point ↔
      ∃ rows, constraint.engineRows? = some rows ∧ ∀ row ∈ rows, row.HoldsAt point := by
  rw [HoldsAt, distinct.valueAt_eq hindices]
  exact (rangeRows?_holdAt_iff hlower hupper point).symm

namespace Formulation

variable {program : Program} {formulation : Formulation}

/-- What a formulation is made of: a column for each variable, and the rows of all
constraints, which name existing columns. -/
theorem ofProgram?_eq_ok_iff :
    ofProgram? program = .ok formulation ↔
      ∃ columns, List.Forall₂ (fun item column => column? item = .ok column)
          (variablesOf program) columns ∧
        (∀ constraint ∈ program.constraints, ∀ index ∈ constraint.row.indices,
          index < columns.length) ∧
        formulation = {
          problem := {
            sense := program.sense
            columns := columns.map fun column => { column with domain := column.domain.orZero }
            rows := ((program.constraints.map Constraint.engineRows?).filterMap id).flatten }
          coefficients := program.objective.coefficients
          integral := program.objective.types.map VariableType.isInteger
          unsatisfiable := columns.any (fun column => column.domain.isEmpty) ||
            (program.constraints.map Constraint.engineRows?).any Option.isNone } := by
  simp only [ofProgram?, bind_eq_ok_iff, mapM_eq_ok_iff, constraintRows?_eq_ok_iff,
    List.forall₂_and_left]
  apply exists_congr
  intro columns
  apply and_congr_right
  intro _
  apply Iff.intro
  · rintro ⟨rows, ⟨hexist, hrows⟩, ⟨⟩⟩
    rw [← List.forall₂_map_left_iff, List.forall₂_eq_eq_eq] at hrows
    exact ⟨hexist, hrows ▸ rfl⟩
  · rintro ⟨hexist, rfl⟩
    refine ⟨_, ⟨hexist, ?_⟩, rfl⟩
    rw [← List.forall₂_map_left_iff, List.forall₂_eq_eq_eq]

/-- A formulation without errors names existing variables only. -/
theorem indices_lt_of_ofProgram? (hok : ofProgram? program = .ok formulation) :
    ∀ constraint ∈ program.constraints, ∀ index ∈ constraint.row.indices,
      index < program.vars.length := by
  obtain ⟨columns, hcolumns, hexist, -⟩ := ofProgram?_eq_ok_iff.mp hok
  have hlength : columns.length ≤ program.vars.length := by
    rw [← hcolumns.length_eq]
    simp [variablesOf]
  intro constraint hmem index hindex
  exact Nat.lt_of_lt_of_le (hexist constraint hmem index hindex) hlength

theorem column?_eq_ok_iff {item : (Variable × ObjectiveTerm) × Nat} {column : Column} :
    column? item = .ok column ↔
      ∃ domain, domain? item.2 item.1.1 item.1.2.type = .ok domain ∧
        column = ⟨item.1.2.coefficient, domain⟩ := by
  rw [column?]
  cases domain? item.2 item.1.1 item.1.2.type <;> simp [Except.map, eq_comm]

/-- A variable whose column is empty cannot have a number. -/
theorem not_variablesHoldAt_of_isEmpty {columns : List Column}
    (hcolumns : List.Forall₂ (fun item column => column? item = .ok column)
      (variablesOf program) columns) {column : Column} (hmem : column ∈ columns)
    (hempty : column.domain.isEmpty = true) (point : Nat → Rat) :
    ¬ program.VariablesHoldAt point := by
  intro hvariables
  obtain ⟨⟨⟨bounds, term⟩, position⟩, hitem, hcolumn⟩ := exists_of_mem_forall₂ hcolumns hmem
  obtain ⟨hbounds, hterm⟩ := List.getElem?_zip_eq_some.mp (List.mem_zipIdx_iff_getElem?.mp hitem)
  obtain ⟨domain, hdomain, rfl⟩ := column?_eq_ok_iff.mp hcolumn
  exact domain?_isEmpty hdomain hempty (point position)
    (hvariables position bounds term hbounds hterm)

theorem mem_engineRows_iff {constraints : List Constraint} {row : EngineRow} :
    row ∈ ((constraints.map Constraint.engineRows?).filterMap id).flatten ↔
      ∃ constraint ∈ constraints, ∃ rows, constraint.engineRows? = some rows ∧ row ∈ rows := by
  simp only [List.mem_flatten, List.mem_filterMap, List.mem_map, id_eq]
  apply Iff.intro
  · rintro ⟨rows, ⟨_, ⟨constraint, hmem, rfl⟩, hsome⟩, hrow⟩
    exact ⟨constraint, hmem, rows, hsome, hrow⟩
  · rintro ⟨constraint, hmem, rows, hsome, hrow⟩
    exact ⟨rows, ⟨_, ⟨constraint, hmem, rfl⟩, hsome⟩, hrow⟩

section

variable (hok : ofProgram? program = .ok formulation)
  (distinct : ∀ constraint ∈ program.constraints, constraint.row.Distinct)
  (hnumbers : ∀ constraint ∈ program.constraints,
    constraint.lower ≠ .nan ∧ constraint.upper ≠ .nan)

include hok distinct hnumbers

theorem holdsAt_iff_of_mem {constraint : Constraint} (hmem : constraint ∈ program.constraints)
    (point : Nat → Rat) :
    constraint.HoldsAt program.vars.length point ↔
      ∃ rows, constraint.engineRows? = some rows ∧ ∀ row ∈ rows, row.HoldsAt point :=
  Constraint.holdsAt_iff (distinct constraint hmem) (indices_lt_of_ofProgram? hok constraint hmem)
    (hnumbers constraint hmem).1 (hnumbers constraint hmem).2 point

theorem rowsHoldAt_iff (point : Nat → Rat) :
    program.RowsHoldAt point ↔
      (∀ constraint ∈ program.constraints, constraint.engineRows?.isSome) ∧
        ∀ row ∈ formulation.problem.rows, row.HoldsAt point := by
  have hholds (constraint : Constraint) (hmem : constraint ∈ program.constraints) :=
    holdsAt_iff_of_mem hok distinct hnumbers hmem point
  obtain ⟨columns, -, -, rfl⟩ := ofProgram?_eq_ok_iff.mp hok
  refine ⟨fun hrows => ⟨?_, ?_⟩, ?_⟩
  · intro constraint hmem
    obtain ⟨rows, hsome, -⟩ := (hholds constraint hmem).mp (hrows constraint hmem)
    rw [hsome]
    rfl
  · intro row hrow
    obtain ⟨constraint, hmem, rows, hsome, hrow⟩ := mem_engineRows_iff.mp hrow
    obtain ⟨rows', hsome', hrows'⟩ := (hholds constraint hmem).mp (hrows constraint hmem)
    obtain rfl : rows = rows' := by simpa [hsome] using hsome'
    exact hrows' row hrow
  · rintro ⟨hsome, hrows⟩ constraint hmem
    obtain ⟨rows, hrows'⟩ := Option.isSome_iff_exists.mp (hsome constraint hmem)
    apply (hholds constraint hmem).mpr
    refine ⟨rows, hrows', fun row hrow => ?_⟩
    exact hrows row (mem_engineRows_iff.mpr ⟨constraint, hmem, rows, hrows', hrow⟩)

/-- Whichever of the two set the flag, a variable or a constraint, rules out every point. -/
theorem not_holdAt_of_unsatisfiable (hunsatisfiable : formulation.unsatisfiable = true)
    (point : Nat → Rat) : ¬ (program.RowsHoldAt point ∧ program.VariablesHoldAt point) := by
  rintro ⟨hrows, hvariables⟩
  have hsome := ((rowsHoldAt_iff hok distinct hnumbers point).mp hrows).1
  obtain ⟨columns, hcolumns, -, rfl⟩ := ofProgram?_eq_ok_iff.mp hok
  rcases Bool.or_eq_true_iff.mp hunsatisfiable with hempty | hnone
  · obtain ⟨column, hmem, hempty⟩ := List.any_eq_true.mp hempty
    exact not_variablesHoldAt_of_isEmpty hcolumns hmem hempty point hvariables
  · obtain ⟨_, hmem, hnone⟩ := List.any_eq_true.mp hnone
    obtain ⟨constraint, hconstraint, rfl⟩ := List.mem_map.mp hmem
    have hrows := hsome constraint hconstraint
    rw [Option.isNone_iff_eq_none.mp hnone] at hrows
    cases hrows

end

/-- At every point the constraints of a program demand what the rows of its formulation
do, and nothing meets the demands of a program whose formulation is unsatisfiable. -/
theorem ofProgram?_faithful (hok : ofProgram? program = .ok formulation)
    (distinct : ∀ constraint ∈ program.constraints, constraint.row.Distinct)
    (hnumbers : ∀ constraint ∈ program.constraints,
      constraint.lower ≠ .nan ∧ constraint.upper ≠ .nan) :
    (∀ point, program.RowsHoldAt point ↔
        (∀ constraint ∈ program.constraints, constraint.engineRows?.isSome) ∧
          ∀ row ∈ formulation.problem.rows, row.HoldsAt point) ∧
      (formulation.unsatisfiable = true →
        ∀ point, ¬ (program.RowsHoldAt point ∧ program.VariablesHoldAt point)) :=
  ⟨rowsHoldAt_iff hok distinct hnumbers, not_holdAt_of_unsatisfiable hok distinct hnumbers⟩

/-- An integer variable between a quarter and three quarters, in a range without end. -/
theorem ofProgram?_faithful_fraction :
    let one := Binary64.ofInt 1
    let program : Program := {
      Program.ofObjective .minimize [⟨⟨[(0, one)]⟩, one, .posInf⟩] ⟨[⟨one, .integer⟩]⟩ with
      vars := [⟨.ofDecimal false 25 (-2), .ofDecimal false 75 (-2)⟩] }
    ∃ formulation, ofProgram? program = .ok formulation ∧
      formulation.unsatisfiable = true ∧
      (∀ constraint ∈ program.constraints, constraint.row.Distinct) ∧
      (∀ constraint ∈ program.constraints, constraint.lower ≠ .nan ∧ constraint.upper ≠ .nan) ∧
      (∀ point, program.RowsHoldAt point ↔
        (∀ constraint ∈ program.constraints, constraint.engineRows?.isSome) ∧
          ∀ row ∈ formulation.problem.rows, row.HoldsAt point) ∧
      ∀ point, ¬ (program.RowsHoldAt point ∧ program.VariablesHoldAt point) := by
  intro one program
  have hflag : (ofProgram? program).toOption.map Formulation.unsatisfiable = some true := by
    decide +kernel
  obtain ⟨formulation, hsome, hunsatisfiable⟩ := Option.map_eq_some_iff.mp hflag
  have hok : ofProgram? program = .ok formulation := by
    cases hformulated : ofProgram? program with
    | ok other => simpa [hformulated, Except.toOption] using hsome
    | error error => simp [hformulated, Except.toOption] at hsome
  have distinct : ∀ constraint ∈ program.constraints, constraint.row.Distinct := by
    intro constraint hmem
    obtain rfl := List.mem_singleton.mp hmem
    exact List.nodup_singleton 0
  have hnumbers : ∀ constraint ∈ program.constraints,
      constraint.lower ≠ .nan ∧ constraint.upper ≠ .nan := by
    decide +kernel
  obtain ⟨hrows, hnothing⟩ := ofProgram?_faithful hok distinct hnumbers
  exact ⟨formulation, hok, hunsatisfiable, distinct, hnumbers, hrows, hnothing hunsatisfiable⟩

end Formulation

end LinProg
