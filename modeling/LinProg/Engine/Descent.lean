/-
# Lowering the objective

From a tableau within its bounds, a nonbasic variable is moved until it or a basic
variable reaches a bound. Of all such moves the one that lowers the objective most is
made. When no move lowers it at all, the ranks are all equal, so that the variable
numbers decide; no arrangement comes back then, and none comes back after a move that
lowers the objective.
-/
import LinProg.Engine.Ranked
import LinProg.Engine.Tableau

namespace LinProg.Tableau

/-- A nonbasic variable whose movement lowers the objective. -/
structure Descent where
  place : Nat
  owner : Nat
  /-- Whether the value grows. -/
  up : Bool
  /-- How much the objective falls for each unit of the way. -/
  rate : Rat

/-- All variables whose movement lowers the objective. -/
def descents (tableau : Tableau) : List Descent :=
  tableau.places.filterMap fun (place, owner, value) =>
    let slope := tableau.cost.getD place 0
    let span := tableau.spanOf owner
    if slope < 0 ∧ span.hasRoomAbove value then some ⟨place, owner, true, -slope⟩
    else if 0 < slope ∧ span.hasRoomBelow value then some ⟨place, owner, false, slope⟩
    else none

/-- Where a moving variable has to stop: the bound, and the row of the variable that
reaches it, if it is not the moving one. -/
structure Stop where
  row : Option Nat
  bound : Rat

/-- Every bound that is reached while a variable moves, ranked by the way to it. -/
def stops (tableau : Tableau) (descent : Descent) : List (Ranked Stop) :=
  let value := tableau.resting.getD descent.place 0
  let span := tableau.spanOf descent.owner
  let own := (if descent.up then span.upper else span.lower).map fun bound =>
    let distance := if descent.up then bound - value else value - bound
    (⟨distance, descent.owner, ⟨none, bound⟩⟩ : Ranked Stop)
  let others := tableau.basics.filterMap fun (row, owner, value) =>
    let coefficient := tableau.coefficient row descent.place
    let rate := if descent.up then coefficient else -coefficient
    let span := tableau.spanOf owner
    let limit := if 0 < rate then span.upper else if rate < 0 then span.lower else none
    limit.map fun bound =>
      (⟨(bound - value) / rate, owner, ⟨some row, bound⟩⟩ : Ranked Stop)
  own.toList ++ others

/-- A variable that moves to its first stop. -/
structure Move where
  place : Nat
  stop : Stop

/-- What can be done to lower the objective. -/
inductive Step where
  /-- Nothing lowers it. -/
  | settled
  /-- A variable can move for ever. -/
  | boundless
  | move (move : Move)

/-- The step that lowers the objective most. -/
def step (tableau : Tableau) : Step :=
  let ways := tableau.descents.map fun descent =>
    (descent, Ranked.best? (tableau.stops descent))
  if ways.any fun (_, stop) => stop.isNone then .boundless
  else
    let moves := ways.filterMap fun (descent, stop) => stop.map fun stop =>
      (⟨-(descent.rate * stop.rank), descent.owner, ⟨descent.place, stop.item⟩⟩ : Ranked Move)
    match Ranked.best? moves with
    | none => .settled
    | some best => .move best.item

/-- Make a move. -/
def make (tableau : Tableau) (move : Move) : Tableau :=
  match move.stop.row with
  | none =>
      tableau.shift move.place (move.stop.bound - tableau.resting.getD move.place 0)
  | some row => tableau.exchange row move.place move.stop.bound

/-- Lower the objective as far as possible, or find that there is no limit. -/
def improve? : Nat → Tableau → Option Tableau
  | 0, tableau => some tableau
  | steps + 1, tableau =>
      match tableau.step with
      | .settled => some tableau
      | .boundless => none
      | .move move => improve? steps (tableau.make move)

end LinProg.Tableau
