/-
# Search for integers

The engine that runs solves the relaxation exactly, and splits the interval of an
integer variable at a value between two integers until the best point has none left.
A part of the search is left out when its relaxation is no better than a point that is
known. The values of the best point are rounded to doubles at the end.
-/
import LinProg.Engine.Relaxation
import LinProg.Engine.Simplex

namespace LinProg

/-- Number of integers above the lower bound. -/
def Domain.width : Domain → Nat
  | .integral lower upper => (upper - lower).toNat
  | .continuous .. => 0

/-- Distance to the nearest integer. -/
def integerDistance (value : Rat) : Rat :=
  let above := value - value.floor
  if 2 * above ≤ 1 then above else 1 - above

namespace EngineProblem

/-- Where the interval of an integer variable is cut. -/
structure Split where
  column : Nat
  /-- The largest integer of the lower part. -/
  below : Int
  /-- Whether the value is nearer to the upper part. -/
  nearerUp : Bool

/-- The cut at the integer variable whose value is farthest from an integer. -/
def split? (problem : EngineProblem) (point : Array Rat) : Option Split :=
  let cuts := (problem.columns.zip point.toList).zipIdx.filterMap fun ((column, value), index) =>
    if column.domain.isIntegral ∧ tolerance < integerDistance value then
      some (⟨-integerDistance value, index,
        ⟨index, value.floor, decide (1 ≤ 2 * (value - value.floor))⟩⟩ : Ranked Split)
    else none
  (Ranked.best? cuts).map Ranked.item

/-- The two parts of a tableau at a cut, the one with the nearer integer first. -/
def parts (tableau : Tableau) (split : Split) : Tableau × Tableau :=
  let within (change : Span → Span) : Tableau :=
    { tableau with spans := tableau.spans.modify split.column change }
  let lower := within fun span => { span with upper := some split.below }
  let upper := within fun span => { span with lower := some (split.below + 1 : Int) }
  if split.nearerUp then (upper, lower) else (lower, upper)

/-- A number that all differences of objective values at points with integers are
multiples of, or zero if a variable that is not integral counts. -/
def granularity (problem : EngineProblem) : Rat :=
  if problem.columns.all fun column => column.domain.isIntegral || column.coefficient == 0 then
    commonStep problem.coefficients
  else 0

/-- A point with its cost, which is to become small. -/
structure Candidate where
  cost : Rat
  point : Array Rat
  /-- A better point has a cost that is less by at least this. -/
  margin : Rat

/-- A candidate at a point. Only the costs of exact integers keep to the steps of the
objective. -/
def candidate (problem : EngineProblem) (cost : Rat) (point : Array Rat) : Candidate :=
  let isExact := (problem.columns.zip point.toList).all fun (column, value) =>
    !column.domain.isIntegral || value.den == 1
  ⟨cost, point, if isExact then problem.granularity else 0⟩

/-- Whether no point can be better, by the cost of a relaxation. -/
def Candidate.isUnbeaten (known : Candidate) (cost : Rat) : Bool :=
  decide (known.cost ≤ cost ∨ known.cost - known.margin < cost)

/-- Search the part of the points that a tableau allows for one that is better than the
best so far. Each split leaves both parts with fewer integers. -/
def search (problem : EngineProblem) : Nat → Tableau → Option Candidate → Option Candidate
  | 0, _, best => best
  | splits + 1, tableau, best =>
      match tableau.solve with
      | .infeasible | .unbounded => best
      | .optimal solved =>
          let cost := solved.costValue
          if best.any fun known => known.isUnbeaten cost then best
          else
            let point := solved.point problem.columns.length
            match problem.split? point with
            | none => some (problem.candidate cost point)
            | some split =>
                let (first, second) := parts solved split
                problem.search splits second (problem.search splits first best)

/-- More splits than any branch of the search has. -/
def splits (problem : EngineProblem) : Nat :=
  problem.columns.foldl (fun total column => total + column.domain.width) 1

/-- Objective value of rounded values, summed in the order of the variables. -/
def objectiveOf (problem : EngineProblem) (values : List Binary64) : Binary64 :=
  .sum (List.zipWith (fun column value => column.coefficient * value) problem.columns values)

/-- Solve a problem. If the relaxation has no limit, then neither has the objective,
unless there is no point with integers at all. -/
def solve : Engine := fun problem =>
  match problem.relaxation.solve with
  | .infeasible => .infeasible
  | .unbounded =>
      if (problem.search problem.splits problem.relaxation.withoutCost none).isSome then .unbounded
      else .infeasible
  | .optimal solved =>
      match problem.search problem.splits solved none with
      | none => .infeasible
      | some best =>
          let values := best.point.toList.map Binary64.ofRat
          .optimal values (problem.objectiveOf values)

end EngineProblem

end LinProg
