/-
# Formulating programs for an engine

A program becomes an engine problem column by column and row by row. Integer
variables get the 32-bit integers within their bounds. A range becomes up to two
one-sided rows or an equation; a range that no value satisfies, and a variable that
has no value left, are only recorded, and an engine is not asked then. Variables are
looked at before rows, and the first thing that the engine cannot represent ends the
formulation.
-/
import LinProg.Engine.Problem
import LinProg.Program.Basic
import LinProg.SolverError
import LinProg.Solver.Reply
import LinProg.Backend.Basic

namespace LinProg

/-- The least 32-bit integer. -/
def leastInteger : Int := -2147483648

/-- The greatest 32-bit integer. -/
def greatestInteger : Int := 2147483647

/-- An integer for a bound of a variable: the extreme integers for infinite bounds,
and otherwise the rounded bound, if it has 32 bits. -/
def integerBound? (index : Nat) (value : Binary64) (rounded : Option Int) :
    Except SolverError Int :=
  if value == .negInf then .ok leastInteger
  else if value == .posInf then .ok greatestInteger
  else
    match rounded with
    | some integer =>
        if leastInteger ≤ integer ∧ integer ≤ greatestInteger then .ok integer
        else .error (.unrepresentableBound index value)
    | none => .error (.unrepresentableBound index value)

/-- The integers between two bounds, lower bounds rounded up and upper bounds down. -/
def integersBetween? (index : Nat) (lower upper : Binary64) : Except SolverError Domain := do
  let least ← integerBound? index lower lower.ceil?
  let greatest ← integerBound? index upper upper.floor?
  return .integral least greatest

/-- The domain of a variable. Binary variables have their bounds moved to zero and one
where these are narrower. -/
def domain? (index : Nat) (bounds : Variable) (type : VariableType) :
    Except SolverError Domain :=
  match type with
  | .real => .ok (.continuous bounds.lower bounds.upper)
  | .integer => integersBetween? index bounds.lower bounds.upper
  | .binary =>
      let one := Binary64.ofInt 1
      integersBetween? index (if bounds.lower < 0 then 0 else bounds.lower)
        (if one < bounds.upper then one else bounds.upper)
  | .semiReal | .semiInteger => .error (.unsupportedType type)

/-- The rows of an engine problem that keep the terms in a range, or nothing if the
range cannot be met. -/
def rangeRows? (terms : List (Nat × Binary64)) (lower upper : Binary64) :
    Option (List EngineRow) :=
  if upper < lower ∨ lower == .posInf ∨ upper == .negInf then none
  else if terms.isEmpty then
    if lower ≤ 0 ∧ 0 ≤ upper then some [] else none
  else if lower == upper then some [⟨terms, .equal, lower⟩]
  else
    some ((if lower.isFinite then [⟨terms, .atLeast, lower⟩] else []) ++
      (if upper.isFinite then [⟨terms, .atMost, upper⟩] else []))

/-- The rows for a constraint, or nothing if its range cannot be met. It may only name
existing columns. -/
def constraintRows? (columns : Nat) (constraint : Constraint) :
    Except SolverError (Option (List EngineRow)) :=
  match constraint.row.indices.find? fun index => columns ≤ index with
  | some index => .error (.indexOutOfRange index columns)
  | none => .ok (rangeRows? constraint.row.terms constraint.lower constraint.upper)

/-- A line about the in-process backend. -/
def backendLine (level : LogLevel) (message : String) : LogLine :=
  ⟨level, s!"{Backend.inProcess.name} {message}"⟩

/-- An engine problem, what is needed of the objective to read a solution, and whether the
program was already seen to have no solution. -/
structure Formulation where
  problem : EngineProblem
  /-- Coefficients of the whole objective, also where it has more terms than there are columns. -/
  coefficients : List Binary64
  /-- Whether only integers are allowed, again for the whole objective. -/
  integral : List Bool
  unsatisfiable : Bool
  deriving DecidableEq

namespace Formulation

/-- The variables of a program with their objective terms and positions. -/
def variablesOf (program : Program) : List ((Variable × ObjectiveTerm) × Nat) :=
  (program.vars.zip program.objective.terms).zipIdx

/-- The column of a variable. Its domain may be empty. -/
def column? : (Variable × ObjectiveTerm) × Nat → Except SolverError Column
  | ((bounds, term), index) =>
      (domain? index bounds term.type).map fun domain => ⟨term.coefficient, domain⟩

/-- Formulate a program. -/
def ofProgram? (program : Program) : Except SolverError Formulation := do
  let columns ← (variablesOf program).mapM column?
  let rows ← program.constraints.mapM (constraintRows? columns.length)
  return {
    problem := {
      sense := program.sense
      columns := columns.map fun column => { column with domain := column.domain.orZero }
      rows := (rows.filterMap id).flatten }
    coefficients := program.objective.coefficients
    integral := program.objective.types.map VariableType.isInteger
    unsatisfiable := columns.any (fun column => column.domain.isEmpty) || rows.any Option.isNone }

/-- The line about a variable without a value, if it is one. -/
def variableLine? (item : (Variable × ObjectiveTerm) × Nat) : Option LogLine :=
  match column? item with
  | .ok column =>
      if column.domain.isEmpty then
        some (backendLine .debug s!"variable {naturalText item.2} has an empty domain")
      else none
  | .error _ => none

/-- The lines about a constraint: its text, and that its range cannot be met. -/
def constraintLines (item : Constraint × Nat) : List LogLine :=
  let number := naturalText item.2
  let heading : LogLine := ⟨.trace, s!"row {number}: {item.1.text}"⟩
  match rangeRows? item.1.row.terms item.1.lower item.1.upper with
  | some _ => [heading]
  | none => [heading, backendLine .debug s!"row {number} can't be satisfied"]

/-- The log of a formulation, which ends where the formulation ends. -/
def log (program : Program) : List LogLine :=
  let all := variablesOf program
  let represented := all.takeWhile fun item => (column? item).isOk
  let accepted :=
    if represented.length = all.length then
      program.constraints.zipIdx.takeWhile fun item => (constraintRows? all.length item.1).isOk
    else []
  represented.filterMap variableLine? ++ accepted.flatMap constraintLines

end Formulation

end LinProg
