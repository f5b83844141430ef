/-
# Shortest decimals that read back

A double stands for every real number that rounds to it. Among the decimals in
that interval, `shortest` picks one on the coarsest power of ten that has any, and
of two on that grid the nearer, a tie going up. All comparisons are between whole
numbers.
-/
import LinProg.Binary64.Rounding

namespace LinProg.Binary64

/-- The decimal number `digits * 10^exponent`. -/
structure Decimal where
  digits : Nat
  exponent : Int
  deriving DecidableEq

/-- The reals that round to a positive double, in quarters of a step. The ends
belong to the interval when the last of the leading digits is even. -/
structure RoundingInterval where
  lower : Nat
  upper : Nat
  closed : Bool

/-- Halfway to both neighbours. The lower neighbour of a power of two is only half
as far away, unless the spacing is already the smallest. -/
def roundingInterval (steps : Nat) : RoundingInterval :=
  let width := spacing steps
  let lowerGap := if steps = twoPow 52 * width ∧ 1 < width then width else 2 * width
  { lower := 4 * steps - lowerGap
    upper := 4 * steps + 2 * width
    closed := steps / width % 2 = 0 }

/-- Whether a point, given with the interval's ends on one common scale, lies inside. -/
def RoundingInterval.holds (interval : RoundingInterval) (scale point : Nat) : Bool :=
  if interval.closed then
    decide (interval.lower * scale ≤ point ∧ point ≤ interval.upper * scale)
  else
    decide (interval.lower * scale < point ∧ point < interval.upper * scale)

/-- The better of the two multiples of `10^exponent` around a positive double, if one
of them reads back. -/
def decimalOnGrid? (steps : Nat) (exponent : Int) : Option Decimal :=
  let interval := roundingInterval steps
  let scale := Nat.pow 10 (-exponent).toNat
  let grid := 4 * stepsInOne * Nat.pow 10 exponent.toNat
  let point := 4 * steps * scale
  let below := point / grid
  let lowerFits := interval.holds scale (below * grid)
  let upperFits := interval.holds scale ((below + 1) * grid)
  let lowerNearer := decide (point - below * grid < (below + 1) * grid - point)
  if lowerFits && (lowerNearer || !upperFits) then some ⟨below, exponent⟩
  else if upperFits then some ⟨below + 1, exponent⟩
  else none

/-- An exponent of ten above every grid that could hold a decimal for this magnitude. -/
def coarsestExponent (steps : Nat) : Int :=
  Int.fdiv (((steps.log2 : Int) + 1 - stepDigits) * 30103) 100000 + 1

/-- The shortest decimal that reads back as a positive double. Seventeen digits are
always enough; a magnitude is also exactly a decimal, which the last case writes out. -/
def shortest (steps : Nat) : Decimal :=
  ((List.range 20).findSome? fun (finer : Nat) =>
      decimalOnGrid? steps (coarsestExponent steps - finer)).getD
    ⟨steps * Nat.pow 5 stepDigits, -stepDigits⟩

end LinProg.Binary64
