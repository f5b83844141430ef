/-
# Problems for an engine

What an engine is given: columns with domains, and rows that are each an equation or
a one-sided inequality. What it gives back is an optimal point, or that there is none
because the rows contradict each other or the objective has no limit. An engine is
any function between the two; nothing else in this library depends on how it works.
-/
import LinProg.Program.Sense
import LinProg.Binary64.Rounding

namespace LinProg

/-- The values that a variable may take. -/
inductive Domain where
  /-- Real numbers between two bounds. -/
  | continuous (lower upper : Binary64)
  /-- Integers between two bounds. -/
  | integral (lower upper : Int)
  deriving DecidableEq

namespace Domain

/-- Whether only integers are allowed. -/
def isIntegral : Domain → Bool
  | .continuous .. => false
  | .integral .. => true

/-- Whether there is no integer between the bounds of an integral domain. Bounds of
real numbers come in order. -/
def isEmpty : Domain → Bool
  | .continuous .. => false
  | .integral lower upper => decide (upper < lower)

/-- The domain itself, or zero alone in place of an empty one. -/
def orZero (domain : Domain) : Domain :=
  if domain.isEmpty then .integral 0 0 else domain

end Domain

/-- A variable of an engine problem. -/
structure Column where
  coefficient : Binary64
  domain : Domain
  deriving DecidableEq

/-- How the value of a row relates to its bound. -/
inductive Relation where
  | equal
  | atLeast
  | atMost
  deriving DecidableEq

/-- A condition on the columns that its terms name. -/
structure EngineRow where
  terms : List (Nat × Binary64)
  relation : Relation
  bound : Binary64
  deriving DecidableEq

/-- A problem as an engine receives it. -/
structure EngineProblem where
  sense : Sense
  columns : List Column
  rows : List EngineRow
  deriving DecidableEq

/-- How an engine ends. -/
inductive Outcome where
  /-- A best point, with one value for each column, and its objective value. -/
  | optimal (point : List Binary64) (objectiveValue : Binary64)
  | infeasible
  | unbounded
  deriving DecidableEq

/-- A way of solving problems. -/
abbrev Engine := EngineProblem → Outcome

end LinProg
