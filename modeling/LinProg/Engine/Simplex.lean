/-
# Exact simplex method

All variables are brought within their bounds first, and then the objective is
lowered.
-/
import LinProg.Engine.Repair

namespace LinProg.Tableau

/-- How the simplex method ends. -/
inductive Ending where
  | optimal (tableau : Tableau)
  | infeasible
  /-- The objective has no limit within the bounds. -/
  | unbounded

/-- A tableau within its bounds that allows the same values. -/
def feasible? (tableau : Tableau) : Option Tableau :=
  if tableau.spans.any Span.isEmpty then none
  else
    let raised :=
      if tableau.descents.isEmpty then tableau.raise? tableau.arrangements else some tableau
    raised.bind fun raised => raised.repair? raised.arrangements

/-- Solve from any tableau. -/
def solve (tableau : Tableau) : Ending :=
  match tableau.feasible? with
  | none => .infeasible
  | some feasible =>
      match feasible.improve? feasible.arrangements with
      | none => .unbounded
      | some improved => .optimal improved

end LinProg.Tableau
