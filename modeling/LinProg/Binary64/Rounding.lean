/-
# Rounding to doubles

One function, `nearest`, rounds an exact nonnegative ratio of steps to the double
closest to it, a tie going to the even neighbour. Sums, products, decimals and
rationals are computed exactly and rounded once by it. The rounding to whole
numbers at the end does not depend on the grid of doubles.
-/
import LinProg.Binary64.Basic

namespace LinProg.Binary64

/-- Closest whole number to a ratio, a half going to the even neighbour. -/
def roundHalfEven (numerator denominator : Nat) : Nat :=
  let quotient := numerator / denominator
  let remainder := numerator % denominator
  if 2 * remainder < denominator then quotient
  else if denominator < 2 * remainder then quotient + 1
  else quotient + quotient % 2

/-- The magnitude with 53 leading binary digits that is closest to a ratio of
steps, without a limit on its size. -/
def nearestSteps (numerator denominator : Nat) : Nat :=
  let width := spacing (numerator / denominator)
  roundHalfEven numerator (denominator * width) * width

private theorem roundHalfEven_le (numerator denominator : Nat) :
    roundHalfEven numerator denominator ≤ numerator / denominator + 1 := by
  simp only [roundHalfEven]
  split
  · omega
  · split <;> omega

/-- The leading digits of a quotient number fewer than 54, also after rounding up. -/
private theorem roundHalfEven_spacing_le (numerator denominator : Nat) :
    roundHalfEven numerator (denominator * spacing (numerator / denominator)) ≤ twoPow 53 := by
  refine Nat.le_trans (roundHalfEven_le _ _) ?_
  rw [← Nat.div_div_eq_div_mul]
  have below : numerator / denominator <
      2 ^ ((numerator / denominator).log2 + 1) := Nat.lt_log2_self
  generalize numerator / denominator = quotient at below ⊢
  have fits : quotient < 2 ^ 53 * spacing quotient := by
    refine Nat.lt_of_lt_of_le below ?_
    rw [show spacing quotient = 2 ^ (quotient.log2 - 52) from rfl, ← Nat.pow_add]
    exact Nat.pow_le_pow_right (by decide) (by omega)
  exact Nat.div_lt_of_lt_mul (by rw [Nat.mul_comm]; exact fits)

/-- Digits beyond the leading 53 are zero in a product of at most `2^53` and a power
of two. -/
private theorem mul_twoPow_mod_spacing {leading exponent : Nat} (short : leading ≤ twoPow 53) :
    leading * twoPow exponent % spacing (leading * twoPow exponent) = 0 := by
  show leading * 2 ^ exponent % 2 ^ ((leading * 2 ^ exponent).log2 - 52) = 0
  rcases Nat.eq_zero_or_pos leading with rfl | positive
  · simp
  have nonzero : leading * 2 ^ exponent ≠ 0 :=
    Nat.mul_ne_zero (by omega) (Nat.ne_of_gt (Nat.two_pow_pos _))
  rcases Nat.lt_or_eq_of_le (show leading ≤ 2 ^ 53 from short) with below | rfl
  · have small : (leading * 2 ^ exponent).log2 < 53 + exponent := by
      rw [Nat.log2_lt nonzero, Nat.pow_add]
      exact Nat.mul_lt_mul_of_pos_right below (Nat.two_pow_pos _)
    refine Nat.mod_eq_zero_of_dvd (Nat.dvd_trans ?_ (Nat.dvd_mul_left _ _))
    exact Nat.pow_dvd_pow 2 (by omega)
  · rw [← Nat.pow_add, Nat.log2_two_pow]
    exact Nat.mod_eq_zero_of_dvd (Nat.pow_dvd_pow 2 (by omega))

/-- A rounded magnitude below the overflow is that of a double. -/
theorem representable_nearestSteps {numerator denominator : Nat}
    (bounded : nearestSteps numerator denominator < overflowSteps) :
    Representable (nearestSteps numerator denominator) :=
  ⟨bounded, mul_twoPow_mod_spacing (roundHalfEven_spacing_le numerator denominator)⟩

/-- The double closest to a signed ratio of steps. Magnitudes that round to the
overflow become infinite. -/
def nearest (negative : Bool) (numerator denominator : Nat) : Binary64 :=
  if bounded : nearestSteps numerator denominator < overflowSteps then
    .finite negative (nearestSteps numerator denominator) (representable_nearestSteps bounded)
  else
    .infinity negative

/-- The double closest to a whole number of steps. Zero takes the sign given for it. -/
def ofSteps (negativeIfZero : Bool) (steps : Int) : Binary64 :=
  nearest (if steps = 0 then negativeIfZero else decide (steps < 0)) steps.natAbs 1

/-- Rounded sum. An exact zero is negative only if both sides are. -/
def add : Binary64 → Binary64 → Binary64
  | .finite leftSign left _, .finite rightSign right _ =>
      ofSteps (leftSign && rightSign) (signed leftSign left + signed rightSign right)
  | .infinity leftSign, .infinity rightSign =>
      if leftSign = rightSign then .infinity leftSign else .nan
  | .infinity sign, .finite .. => .infinity sign
  | .finite .., .infinity sign => .infinity sign
  | .nan, _ => .nan
  | _, .nan => .nan

/-- Rounded product. An infinity times a zero is undefined. -/
def mul : Binary64 → Binary64 → Binary64
  | .finite leftSign left _, .finite rightSign right _ =>
      nearest (leftSign != rightSign) (left * right) stepsInOne
  | .infinity leftSign, .infinity rightSign => .infinity (leftSign != rightSign)
  | .infinity leftSign, .finite rightSign right _ =>
      if right = 0 then .nan else .infinity (leftSign != rightSign)
  | .finite leftSign left _, .infinity rightSign =>
      if left = 0 then .nan else .infinity (leftSign != rightSign)
  | .nan, _ => .nan
  | _, .nan => .nan

instance : Add Binary64 where
  add := add

instance : Sub Binary64 where
  sub left right := add left (neg right)

instance : Mul Binary64 where
  mul := mul

/-- Sum in the order of the list, each partial sum rounded. -/
def sum (values : List Binary64) : Binary64 :=
  values.foldl (· + ·) negativeZero

/-- The double closest to an integer. -/
def ofInt (value : Int) : Binary64 :=
  ofSteps false (value * stepsInOne)

/-- The double closest to a rational number. -/
def ofRat (value : Rat) : Binary64 :=
  nearest (decide (value.num < 0)) (value.num.natAbs * stepsInOne) value.den

/-- The double closest to a decimal number `digits * 10^exponent`. Whole numbers from
`10^309` on are infinite, and what is below `10^-324` is zero. -/
def ofDecimal (negative : Bool) (digits : Nat) (exponent : Int) : Binary64 :=
  if digits = 0 ∨ exponent + digits.log2 + 1 ≤ -324 then .finite negative 0 representable_zero
  else if 309 ≤ exponent then .infinity negative
  else nearest negative (digits * stepsInOne * Nat.pow 10 exponent.toNat)
    (Nat.pow 10 (-exponent).toNat)

/-- Greatest integer that is at most the value of a finite double. -/
def floor? : Binary64 → Option Int
  | .finite negative steps _ => some (Int.fdiv (signed negative steps) stepsInOne)
  | _ => none

/-- Least integer that is at least the value of a finite double. -/
def ceil? (value : Binary64) : Option Int :=
  (neg value).floor?.map fun below => -below

/-- Closest integer, a half going away from zero. The sign stays, also of a zero. -/
def round : Binary64 → Binary64
  | .finite negative steps _ =>
      nearest negative ((2 * steps + stepsInOne) / (2 * stepsInOne) * stepsInOne) 1
  | value => value

end LinProg.Binary64
