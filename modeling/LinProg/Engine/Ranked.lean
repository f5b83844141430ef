/-
# Choices by rank

Wherever the simplex method may choose, the candidates carry a rank and a variable
number. The least rank wins, and the least number among equal ranks, so that a choice
never depends on the order in which the candidates are listed.
-/

namespace LinProg

/-- A candidate of a choice: its rank, its variable, and what it is. -/
structure Ranked (α : Type) where
  rank : Rat
  owner : Nat
  item : α

namespace Ranked

/-- The better of two candidates. -/
def better {α : Type} (left right : Ranked α) : Ranked α :=
  if right.rank < left.rank then right
  else if right.rank = left.rank ∧ right.owner < left.owner then right
  else left

/-- The best of several candidates. -/
def best? {α : Type} : List (Ranked α) → Option (Ranked α)
  | [] => none
  | first :: rest => some (rest.foldl better first)

end Ranked

end LinProg
