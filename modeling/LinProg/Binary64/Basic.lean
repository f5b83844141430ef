/-
# Double precision numbers

A coefficient or a bound is a double: not a number, a signed infinity, or a
signed whole number of the smallest steps, which are `2^-1074` wide. Counting
steps makes every finite double an exact integer, so that comparisons and
rounding are questions about integers. The two zeros are different doubles that
compare as equal, and the order leaves the undefined value out.
-/

namespace LinProg

/-- The power of two with this exponent. -/
def twoPow (exponent : Nat) : Nat :=
  Nat.pow 2 exponent

theorem twoPow_pos (exponent : Nat) : 0 < twoPow exponent :=
  Nat.two_pow_pos exponent

namespace Binary64

/-- Binary digits after the point of the smallest step. -/
def stepDigits : Nat := 1074

/-- The number of smallest steps in one. -/
def stepsInOne : Nat := twoPow stepDigits

/-- The first power of two that is too large for a finite double, in steps. -/
def overflowSteps : Nat := twoPow 2098

/-- Distance between neighbouring doubles around a magnitude: all but the leading
53 binary digits are zero. -/
def spacing (steps : Nat) : Nat :=
  twoPow (steps.log2 - 52)

/-- A magnitude in steps that some finite double has. -/
def Representable (steps : Nat) : Prop :=
  steps < overflowSteps ∧ steps % spacing steps = 0

instance (steps : Nat) : Decidable (Representable steps) :=
  inferInstanceAs (Decidable (_ ∧ _))

theorem representable_zero : Representable 0 :=
  ⟨twoPow_pos _, Nat.zero_mod _⟩

end Binary64

/-- A double. Zero carries a sign as every other finite magnitude does. -/
inductive Binary64 where
  | nan
  | infinity (negative : Bool)
  | finite (negative : Bool) (steps : Nat) (representable : Binary64.Representable steps)
  deriving DecidableEq

namespace Binary64

/-- Positive zero. -/
def zero : Binary64 :=
  .finite false 0 representable_zero

/-- Negative zero, the neutral element of addition. -/
def negativeZero : Binary64 :=
  .finite true 0 representable_zero

/-- The upper side of everything that has no upper bound. -/
def posInf : Binary64 :=
  .infinity false

/-- The lower side of everything that has no lower bound. -/
def negInf : Binary64 :=
  .infinity true

instance : OfNat Binary64 0 where
  ofNat := zero

instance : Inhabited Binary64 where
  default := zero

/-- A magnitude with its sign. -/
def signed (negative : Bool) (magnitude : Nat) : Int :=
  if negative then -(magnitude : Int) else magnitude

/-- Position on the line of steps. The infinities lie outside all finite doubles,
and only the undefined value has no position. -/
def rank? : Binary64 → Option Int
  | .nan => none
  | .infinity negative => some (signed negative overflowSteps)
  | .finite negative steps _ => some (signed negative steps)

/-- Exact value of a finite double. -/
def toRat? : Binary64 → Option Rat
  | .finite negative steps _ => some (mkRat (signed negative steps) stepsInOne)
  | _ => none

/-- Neither infinite nor undefined. -/
def isFinite : Binary64 → Bool
  | .finite .. => true
  | _ => false

/-- Strictly smaller; false whenever a side is undefined. -/
def isLess (left right : Binary64) : Bool :=
  match left.rank?, right.rank? with
  | some leftRank, some rightRank => decide (leftRank < rightRank)
  | _, _ => false

/-- At most; false whenever a side is undefined. -/
def isAtMost (left right : Binary64) : Bool :=
  match left.rank?, right.rank? with
  | some leftRank, some rightRank => decide (leftRank ≤ rightRank)
  | _, _ => false

/-- Equality of values: the zeros agree, and the undefined value differs from
everything. -/
def isSame (left right : Binary64) : Bool :=
  match left.rank?, right.rank? with
  | some leftRank, some rightRank => decide (leftRank = rightRank)
  | _, _ => false

instance : BEq Binary64 where
  beq := isSame

instance : LT Binary64 where
  lt left right := left.isLess right = true

instance : LE Binary64 where
  le left right := left.isAtMost right = true

instance (left right : Binary64) : Decidable (left < right) :=
  inferInstanceAs (Decidable (left.isLess right = true))

instance (left right : Binary64) : Decidable (left ≤ right) :=
  inferInstanceAs (Decidable (left.isAtMost right = true))

/-- The opposite sign; the undefined value stays. -/
def neg : Binary64 → Binary64
  | .nan => .nan
  | .infinity negative => .infinity (!negative)
  | .finite negative steps representable => .finite (!negative) steps representable

/-- The same magnitude without its sign. -/
def abs : Binary64 → Binary64
  | .nan => .nan
  | .infinity _ => .infinity false
  | .finite _ steps representable => .finite false steps representable

instance : Neg Binary64 where
  neg := neg

end Binary64

end LinProg
