/-
# Tableaus

A system of linear rows over bounded variables, solved for some of its variables.
Each basic variable is a combination of the nonbasic ones; the nonbasic ones rest at
chosen values, and the basic ones follow. Variables are numbered, the columns of the
problem first and the values of its rows after them. All numbers are exact.
-/

namespace LinProg

/-- How far a variable may stay out of bounds when the bounds of all variables cannot be
met at once, and from an integer. Decimals that agree before rounding differ by less. -/
def tolerance : Rat :=
  mkRat 1 10000000000

/-- Bounds that may be missing. -/
structure Span where
  lower : Option Rat
  upper : Option Rat
  deriving DecidableEq

namespace Span

/-- Without bounds. -/
def all : Span :=
  ⟨none, none⟩

/-- Whether no number lies between the bounds. -/
def isEmpty (span : Span) : Bool :=
  match span.lower, span.upper with
  | some lower, some upper => decide (upper < lower)
  | _, _ => false

/-- The lower bound if a value is below it. -/
def raisedTo? (span : Span) (value : Rat) : Option Rat :=
  span.lower.filter fun lower => decide (value < lower)

/-- The upper bound if a value is above it. -/
def loweredTo? (span : Span) (value : Rat) : Option Rat :=
  span.upper.filter fun upper => decide (upper < value)

/-- Whether a value within the bounds can become larger. -/
def hasRoomAbove (span : Span) (value : Rat) : Bool :=
  match span.upper with
  | some upper => decide (value < upper)
  | none => true

/-- Whether a value within the bounds can become smaller. -/
def hasRoomBelow (span : Span) (value : Rat) : Bool :=
  match span.lower with
  | some lower => decide (lower < value)
  | none => true

/-- Widened so that a value lies within the bounds. -/
def including (span : Span) (value : Rat) : Span :=
  { lower := span.lower.map fun lower => if value < lower then value else lower
    upper := span.upper.map fun upper => if upper < value then value else upper }

/-- A value within the bounds: a bound, or zero where there is none. -/
def rest (span : Span) : Rat :=
  (span.lower.orElse fun _ => span.upper).getD 0

end Span

/-- Bounded variables and rows solved for the basic ones. -/
structure Tableau where
  /-- Bounds of every variable. -/
  spans : Array Span
  /-- The variable that each row is solved for. -/
  basic : Array Nat
  /-- The variable of each place in the rows. -/
  nonbasic : Array Nat
  /-- The value of each nonbasic variable. -/
  resting : Array Rat
  /-- The value of each basic variable. -/
  following : Array Rat
  /-- Coefficients over the nonbasic variables. -/
  rows : Array (Array Rat)
  /-- Coefficients of the objective, which is to become small. -/
  cost : Array Rat

namespace Tableau

/-- A combination of values. -/
def combine (coefficients values : Array Rat) : Rat :=
  (Array.zipWith (· * ·) coefficients values).foldl (· + ·) 0

/-- The tableau in which the columns are nonbasic and the rows basic. -/
def ofRows (columns bounds : Array Span) (rows : Array (Array Rat)) (cost : Array Rat) :
    Tableau :=
  let resting := columns.map Span.rest
  { spans := columns ++ bounds
    basic := rows.mapIdx fun number _ => columns.size + number
    nonbasic := columns.mapIdx fun number _ => number
    resting := resting
    following := rows.map fun row => combine row resting
    rows := rows
    cost := cost }

/-- Value of the objective. -/
def costValue (tableau : Tableau) : Rat :=
  combine tableau.cost tableau.resting

/-- The same values, all equally good. -/
def withoutCost (tableau : Tableau) : Tableau :=
  { tableau with cost := tableau.cost.map fun _ => 0 }

/-- Bounds of a variable. -/
def spanOf (tableau : Tableau) (owner : Nat) : Span :=
  tableau.spans.getD owner .all

/-- Rows with their numbers, variables and values. -/
def basics (tableau : Tableau) : List (Nat × Nat × Rat) :=
  (tableau.basic.zip tableau.following).toList.zipIdx.map fun ((owner, value), number) =>
    (number, owner, value)

/-- Places with their variables and values. -/
def places (tableau : Tableau) : List (Nat × Nat × Rat) :=
  (tableau.nonbasic.zip tableau.resting).toList.zipIdx.map fun ((owner, value), place) =>
    (place, owner, value)

/-- Coefficient of a row at a place. -/
def coefficient (tableau : Tableau) (row place : Nat) : Rat :=
  (tableau.rows.getD row #[]).getD place 0

/-- Values of the first variables. -/
def point (tableau : Tableau) (count : Nat) : Array Rat :=
  let atRest := tableau.places.foldl (fun values (_, owner, value) =>
    values.setIfInBounds owner value) (Array.replicate count 0)
  tableau.basics.foldl (fun values (_, owner, value) => values.setIfInBounds owner value) atRest

/-- Move the variable of a place by a distance. -/
def shift (tableau : Tableau) (place : Nat) (distance : Rat) : Tableau :=
  if distance = 0 then tableau
  else
    { tableau with
      resting := tableau.resting.modify place (· + distance)
      following := Array.zipWith (fun value row => value + row.getD place 0 * distance)
        tableau.following tableau.rows }

/-- A row solved for the variable of one of its places. -/
def solvedFor (row : Array Rat) (place : Nat) : Array Rat :=
  let divisor := row.getD place 0
  row.mapIdx fun index coefficient =>
    if index = place then 1 / divisor
    else if coefficient = 0 then 0
    else -coefficient / divisor

/-- A combination with the variable of a place expressed by a solved row. -/
def substitute (solved : Array Rat) (place : Nat) (row : Array Rat) : Array Rat :=
  let factor := row.getD place 0
  if factor = 0 then row
  else
    row.mapIdx fun index coefficient =>
      let weight := solved.getD index 0
      if index = place then factor * weight
      else if weight = 0 then coefficient
      else coefficient + factor * weight

/-- Exchange the variable of a row with that of a place, which moves until the variable
that leaves the row rests at a value. -/
def exchange (tableau : Tableau) (row place : Nat) (value : Rat) : Tableau :=
  let solved := solvedFor (tableau.rows.getD row #[]) place
  let distance := (value - tableau.following.getD row 0) * solved.getD place 0
  let moved := tableau.shift place distance
  { moved with
    rows := moved.rows.mapIdx fun index other =>
      if index = row then solved else substitute solved place other
    cost := substitute solved place moved.cost
    basic := moved.basic.setIfInBounds row (moved.nonbasic.getD place 0)
    nonbasic := moved.nonbasic.setIfInBounds place (moved.basic.getD row 0)
    following := moved.following.setIfInBounds row (moved.resting.getD place 0)
    resting := moved.resting.setIfInBounds place value }

/-- A bound on the number of exchanges: every variable is basic or rests at one of two
bounds, and no method returns to an arrangement. -/
def arrangements (tableau : Tableau) : Nat :=
  Nat.pow 3 tableau.spans.size

end Tableau

end LinProg
