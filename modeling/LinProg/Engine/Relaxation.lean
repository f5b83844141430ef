/-
# Relaxations of problems

A problem without the demand for integers, as a tableau over exact numbers. A row over
integers only takes multiples of the greatest common step of its coefficients, and its
bounds are moved inwards to such multiples.
-/
import LinProg.Binary64.Basic
import LinProg.Engine.Problem
import LinProg.Engine.Tableau

namespace LinProg

/-- Exact value of a coefficient. One that is not finite counts as zero. -/
def Binary64.exact (value : Binary64) : Rat :=
  value.toRat?.getD 0

/-- The greatest number of which all the given ones are multiples. -/
def commonStep (values : List Rat) : Rat :=
  mkRat (values.foldl (fun common value => common.gcd value.num.natAbs) 0 : Nat)
    (values.foldl (fun common value => common.lcm value.den) 1)

namespace Span

/-- A bound that no multiple of a step comes near moves inwards to such a multiple. What
is near is what the tolerance allows. -/
def onSteps (span : Span) (step : Rat) : Span :=
  let raised (lower : Rat) : Rat :=
    let multiple := ((lower - tolerance) / step).ceil * step
    if lower < multiple - tolerance then multiple else lower
  let lowered (upper : Rat) : Rat :=
    let multiple := ((upper + tolerance) / step).floor * step
    if multiple + tolerance < upper then multiple else upper
  ⟨span.lower.map raised, span.upper.map lowered⟩

end Span

/-- The bounds of a domain as exact numbers. An infinite bound on its own side is no
bound, and on the other side it leaves nothing. -/
def Domain.span : Domain → Span
  | .integral lower upper => ⟨some lower, some upper⟩
  | .continuous lower upper =>
      if lower == .posInf ∨ upper == .negInf then ⟨some 1, some 0⟩
      else ⟨lower.toRat?, upper.toRat?⟩

namespace EngineRow

/-- The range of a row's value. -/
def span (row : EngineRow) : Span :=
  match row.relation with
  | .equal => ⟨row.bound.toRat?, row.bound.toRat?⟩
  | .atLeast => ⟨row.bound.toRat?, none⟩
  | .atMost => ⟨none, row.bound.toRat?⟩

/-- Coefficients of a row over a number of columns. -/
def dense (row : EngineRow) (count : Nat) : Array Rat :=
  row.terms.foldl (fun coefficients (index, value) =>
    coefficients.modify index (· + value.exact)) (Array.replicate count 0)

/-- Whether all the variables of a row are integral. -/
def isIntegral (row : EngineRow) (columns : Array Column) : Bool :=
  row.terms.all fun (index, _) => columns[index]?.any fun column => column.domain.isIntegral

/-- The range of a row's value, also by the steps in which it changes. -/
def steppedSpan (row : EngineRow) (columns : Array Column) : Span :=
  let step := commonStep (row.terms.map fun (_, value) => value.exact)
  if row.isIntegral columns ∧ step ≠ 0 then row.span.onSteps step else row.span

end EngineRow

namespace EngineProblem

/-- Exact objective coefficients. -/
def coefficients (problem : EngineProblem) : List Rat :=
  problem.columns.map fun column => column.coefficient.exact

/-- The tableau of the relaxation. -/
def relaxation (problem : EngineProblem) : Tableau :=
  let columns := problem.columns.toArray
  let rows := problem.rows.toArray
  let cost := problem.coefficients.toArray
  .ofRows (columns.map fun column => column.domain.span)
    (rows.map fun row => row.steppedSpan columns)
    (rows.map fun row => row.dense columns.size)
    (match problem.sense with
      | .minimize => cost
      | .maximize => cost.map fun coefficient => -coefficient)

end EngineProblem

end LinProg
