/-
# Linear programs

A program has a direction, constraints, an objective and variable bounds. It counts
as initialized once an objective was set. Constraint rows may name variables that
do not exist yet; that is checked when the program is formulated for an engine.
-/
import LinProg.Program.Sense
import LinProg.Program.Constraint
import LinProg.Program.Objective
import LinProg.Sparse.Matrix

namespace LinProg

/-- A linear program held in memory. -/
structure Program where
  sense : Sense
  constraints : List Constraint
  objective : Objective
  /-- Bounds of each variable. -/
  vars : List Variable
  initialized : Bool
  deriving DecidableEq

namespace Program

/-- A program without anything in it. -/
def empty (sense : Sense) : Program :=
  ⟨sense, [], .empty, [], false⟩

/-- A program with constraints that has no objective yet. -/
def ofConstraints (sense : Sense) (constraints : List Constraint) : Program :=
  { empty sense with constraints }

/-- A complete program over nonnegative variables. -/
def ofObjective (sense : Sense) (constraints : List Constraint) (objective : Objective) :
    Program :=
  { sense, constraints, objective, initialized := true
    vars := List.replicate objective.size .nonnegative }

/-- The constraint rows as a matrix. -/
def matrix (program : Program) : SparseMatrix Binary64 :=
  .ofRows (program.constraints.map Constraint.row)

/-- One objective term for each variable, bounds in order, and no index twice in a row. -/
structure WellFormed (program : Program) : Prop where
  objective_size : program.objective.size = program.vars.length
  ordered : ∀ bounds ∈ program.vars, bounds.Ordered
  distinct : ∀ constraint ∈ program.constraints, constraint.row.Distinct

/-- Equal parts. -/
def isSame (left right : Program) : Bool :=
  left.sense = right.sense && left.constraints == right.constraints &&
    left.objective == right.objective && left.vars == right.vars &&
    left.initialized == right.initialized

instance : BEq Program where
  beq := isSame

/-- The program in words: objective, constraints and bounds. -/
def text (program : Program) : String :=
  lines ([s!"{program.sense.text} {program.objective.text}", "subject to"] ++
    (program.constraints.map fun constraint => s!"    {constraint.text}") ++
    ["with bounds"] ++
    program.vars.zipIdx.map fun (bounds, position) =>
      s!"    {bounds.lower.text} <= x{naturalText position} <= {bounds.upper.text}")

end Program

end LinProg
