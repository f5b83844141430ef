/-
# Solutions

Values for the variables, values for the constraints where a solver reports them,
and the value of the objective.
-/
import LinProg.Binary64.Text
import LinProg.Listing

namespace LinProg

/-- The values that a solve ended with. -/
structure Solution where
  /-- One value for each variable. -/
  primal : List Binary64
  /-- One value for each constraint, or nothing. -/
  dual : List Binary64
  objectiveValue : Binary64
  deriving DecidableEq

namespace Solution

/-- No values and an objective of zero. -/
def empty : Solution :=
  ⟨[], [], 0⟩

/-- Equal values. -/
def isSame (left right : Solution) : Bool :=
  left.primal == right.primal && left.dual == right.dual &&
    left.objectiveValue == right.objectiveValue

instance : BEq Solution where
  beq := isSame

/-- The objective value and both lists. -/
def text (solution : Solution) : String :=
  s!"Objective value: {solution.objectiveValue.text}\n" ++
    s!"Primal: {bracketed (solution.primal.map Binary64.listedText)}\n" ++
    s!"Dual: {bracketed (solution.dual.map Binary64.listedText)}"

end Solution

end LinProg
