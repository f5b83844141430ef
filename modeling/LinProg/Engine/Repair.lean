/-
# Bringing variables within their bounds

Two methods. If no move lowers the objective, a basic variable that is out of bounds
is brought to the bound by an exchange that keeps it so, and the objective rises; the
exchange with the greatest rise comes first. When no exchange raises the objective,
or none kept it in the first place, the sum of all violations is lowered instead, by
the moves that lower any objective. What is left then is forgiven if it is within the
tolerance.
-/
import LinProg.Engine.Descent

namespace LinProg.Tableau

/-- A basic variable that is out of bounds. -/
structure Violation where
  row : Nat
  owner : Nat
  value : Rat
  /-- The bound to move to. -/
  bound : Rat
  /-- Whether the value has to grow. -/
  up : Bool

/-- Whether a violation is within the tolerance. -/
def Violation.isSmall (violation : Violation) : Bool :=
  decide ((violation.bound - violation.value).abs ≤ tolerance)

/-- All variables that are out of bounds. -/
def violations (tableau : Tableau) : List Violation :=
  tableau.basics.filterMap fun (row, owner, value) =>
    let span := tableau.spanOf owner
    match span.raisedTo? value, span.loweredTo? value with
    | some bound, _ => some ⟨row, owner, value, bound, true⟩
    | none, some bound => some ⟨row, owner, value, bound, false⟩
    | none, none => none

/-- The place whose variable has room to move the value of a row the right way, and the
least slope for that way, which is the rank. -/
def relief? (tableau : Tableau) (violation : Violation) : Option (Ranked Nat) :=
  let able := tableau.places.filterMap fun (place, owner, value) =>
    let coefficient := tableau.coefficient violation.row place
    let span := tableau.spanOf owner
    let moves :=
      if 0 < coefficient then
        if violation.up then span.hasRoomAbove value else span.hasRoomBelow value
      else if coefficient < 0 then
        if violation.up then span.hasRoomBelow value else span.hasRoomAbove value
      else false
    if moves then
      some (⟨(tableau.cost.getD place 0 / coefficient).abs, owner, place⟩ : Ranked Nat)
    else none
  Ranked.best? able

/-- Bring variables within their bounds while the objective rises. There is no way at
all if a variable that is well out of bounds has no room. -/
def raise? : Nat → Tableau → Option Tableau
  | 0, tableau => some tableau
  | steps + 1, tableau =>
      let ways := tableau.violations.map fun violation => (violation, tableau.relief? violation)
      if ways.any fun (violation, relief) => relief.isNone && !violation.isSmall then none
      else
        let exchanges := ways.filterMap fun (violation, relief) => relief.map fun relief =>
          (⟨-(relief.rank * (violation.bound - violation.value).abs), violation.owner,
            (violation, relief.item)⟩ : Ranked (Violation × Nat))
        match Ranked.best? exchanges with
        | none => some tableau
        | some best =>
            if best.rank = 0 then some tableau
            else
              let (violation, place) := best.item
              raise? steps (tableau.exchange violation.row place violation.bound)

/-- The tableau whose objective is the sum of some violations. A variable that is out of
bounds may move up to the bound and not past it. -/
def charged (tableau : Tableau) (violations : List Violation) : Tableau :=
  let span (violation : Violation) : Span :=
    if violation.up then ⟨none, some violation.bound⟩ else ⟨some violation.bound, none⟩
  let weight (violation : Violation) (sum coefficient : Rat) : Rat :=
    if violation.up then sum - coefficient else sum + coefficient
  { tableau with
    spans := violations.foldl (fun spans violation =>
      spans.setIfInBounds violation.owner (span violation)) tableau.spans
    cost := violations.foldl (fun sums violation =>
      Array.zipWith (weight violation) sums (tableau.rows.getD violation.row #[]))
      (tableau.cost.map fun _ => 0) }

/-- The tableau with bounds that allow some violations. -/
def forgiving (tableau : Tableau) (violations : List Violation) : Tableau :=
  { tableau with
    spans := violations.foldl (fun spans violation =>
      spans.modify violation.owner fun span => span.including violation.value) tableau.spans }

/-- Bring all variables within their bounds, or find that this cannot be done. -/
def repair? : Nat → Tableau → Option Tableau
  | 0, tableau => if tableau.violations.isEmpty then some tableau else none
  | steps + 1, tableau =>
      let violations := tableau.violations
      if violations.isEmpty then some tableau
      else
        match (tableau.charged violations).step with
        | .move move => repair? steps (tableau.make move)
        | .settled | .boundless =>
            if violations.all Violation.isSmall then some (tableau.forgiving violations) else none

end LinProg.Tableau
