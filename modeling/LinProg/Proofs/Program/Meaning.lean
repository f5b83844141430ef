/-
# What programs and rows demand of numbers

A point gives every variable an exact number. A program demands that the value of each of
its rows lies in its range, and that each number is one that the bounds and the type of
its variable admit. The value of a row is taken from its coefficient at every variable,
where a coefficient that is not stored is zero. Over distinct indices it is the sum of the
stored terms, which is how an engine takes it.
-/
import LinProg.Program.Basic
import LinProg.Proofs.Binary64.Exact
import LinProg.Proofs.Sparse.Entry
import Mathlib.Algebra.BigOperators.Ring.Finset

namespace LinProg

open Finset

/-- Value of stored terms at a point. -/
def termsValue (terms : List (Nat × Binary64)) (point : Nat → Rat) : Rat :=
  (terms.map fun term => term.2.exact * point term.1).sum

/-- Value of a row over so many variables, by its coefficients. -/
def Entry.valueAt (row : Entry Binary64) (size : Nat) (point : Nat → Rat) : Rat :=
  ∑ position ∈ range size, (row.get position).exact * point position

/-- A number lies between two bounds. -/
def Variable.Contains (bounds : Variable) (number : Rat) : Prop :=
  bounds.lower.IsLowerBound number ∧ bounds.upper.IsUpperBound number

instance (bounds : Variable) (number : Rat) : Decidable (bounds.Contains number) :=
  inferInstanceAs (Decidable (_ ∧ _))

/-- A variable of a type may take a number. -/
def Variable.Admits (bounds : Variable) (type : VariableType) (number : Rat) : Prop :=
  match type with
  | .real => bounds.Contains number
  | .integer => bounds.Contains number ∧ ∃ integer : Int, number = integer
  | .binary => bounds.Contains number ∧ (number = 0 ∨ number = 1)
  | .semiReal => number = 0 ∨ bounds.Contains number
  | .semiInteger => number = 0 ∨ bounds.Contains number ∧ ∃ integer : Int, number = integer

/-- The value of the row lies in the range. -/
def Constraint.HoldsAt (constraint : Constraint) (size : Nat) (point : Nat → Rat) : Prop :=
  constraint.lower.IsLowerBound (constraint.row.valueAt size point) ∧
    constraint.upper.IsUpperBound (constraint.row.valueAt size point)

namespace Program

def RowsHoldAt (program : Program) (point : Nat → Rat) : Prop :=
  ∀ constraint ∈ program.constraints, constraint.HoldsAt program.vars.length point

def VariablesHoldAt (program : Program) (point : Nat → Rat) : Prop :=
  ∀ (position : Nat) (bounds : Variable) (term : ObjectiveTerm),
    program.vars[position]? = some bounds → program.objective.terms[position]? = some term →
      bounds.Admits term.type (point position)

end Program

/-! ## Values of rows -/

namespace Entry

/-- The coefficients of a row with distinct indices below the size add up to its terms. -/
theorem Distinct.valueAt_eq {row : Entry Binary64} (distinct : row.Distinct) {size : Nat}
    (hindices : ∀ index ∈ row.indices, index < size) (point : Nat → Rat) :
    row.valueAt size point = termsValue row.terms point := by
  obtain ⟨terms⟩ := row
  induction terms with
  | nil => simp [valueAt, termsValue, get, get?, Binary64.exact_zero]
  | cons term rest ih =>
      obtain ⟨index, value⟩ := term
      obtain ⟨hnew, hrest⟩ := List.nodup_cons.mp distinct
      have hzero : (⟨rest⟩ : Entry Binary64).get index = 0 := by
        rw [get, (get?_eq_none_iff _ _).mpr hnew, Option.getD_none]
      -- At its own index the first term counts, and nothing of the rest does.
      have hsplit (position : Nat) :
          ((⟨(index, value) :: rest⟩ : Entry Binary64).get position).exact * point position =
            (if position = index then value.exact * point position else 0) +
              ((⟨rest⟩ : Entry Binary64).get position).exact * point position := by
        by_cases hposition : position = index
        · simp [get_cons, hposition, hzero, Binary64.exact_zero]
        · simp [get_cons, hposition]
      calc
        _ = ∑ position ∈ range size,
              ((if position = index then value.exact * point position else 0) +
                ((⟨rest⟩ : Entry Binary64).get position).exact * point position) :=
          sum_congr rfl fun position _ => hsplit position
        _ = value.exact * point index + (⟨rest⟩ : Entry Binary64).valueAt size point := by
          rw [sum_add_distrib, sum_ite_eq',
            if_pos (mem_range.mpr (hindices index List.mem_cons_self))]
          rfl
        _ = _ := by
          rw [ih hrest fun other hmem => hindices other (List.mem_cons_of_mem _ hmem)]
          simp [termsValue]

end Entry

end LinProg
