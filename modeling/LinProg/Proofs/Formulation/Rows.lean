/-
# Ranges and the rows made of them

A range of a row becomes no row, one row or two rows of an engine problem, depending on
which of its bounds are finite and whether they are equal. The cases are taken in the
order of the definition. In each of them the rows that are made demand of a point what
the range demands, and where none are made because the range cannot be met, no number
lies in it.
-/
import LinProg.Solver.Formulation
import LinProg.Proofs.Program.Meaning

namespace LinProg

open Binary64

/-- The value of the terms relates to the bound as the row says. -/
def EngineRow.HoldsAt (row : EngineRow) (point : Nat → Rat) : Prop :=
  match row.relation with
  | .equal => row.bound.toRat? = some (termsValue row.terms point)
  | .atLeast => row.bound.IsLowerBound (termsValue row.terms point)
  | .atMost => row.bound.IsUpperBound (termsValue row.terms point)

variable {terms : List (Nat × Binary64)} {lower upper : Binary64} {number : Rat}

/-- A range that is seen to contain nothing contains nothing. -/
theorem not_between_of_far
    (hfar : upper < lower ∨ (lower == .posInf) = true ∨ (upper == .negInf) = true) :
    ¬ (lower.IsLowerBound number ∧ upper.IsUpperBound number) := by
  rintro ⟨hlower, hupper⟩
  rcases hfar with hreversed | hposInf | hnegInf
  · exact not_lt_of_le (le_of_bounds hlower hupper) hreversed
  · rw [beq_posInf_iff] at hposInf
    rw [hposInf, posInf, isLowerBound_infinity_iff] at hlower
    cases hlower
  · rw [beq_negInf_iff] at hnegInf
    rw [hnegInf, negInf, isUpperBound_infinity_iff] at hupper
    cases hupper

theorem between_zero_iff :
    lower.IsLowerBound 0 ∧ upper.IsUpperBound 0 ↔ lower ≤ 0 ∧ 0 ≤ upper := by
  rw [← exact_zero, isLowerBound_exact_iff rfl, isUpperBound_exact_iff rfl]

theorem atLeast_holdsAt_iff (hnan : lower ≠ .nan) (hposInf : lower ≠ .posInf) (point : Nat → Rat) :
    (∀ row ∈ if lower.isFinite then [(⟨terms, .atLeast, lower⟩ : EngineRow)] else [],
        row.HoldsAt point) ↔ lower.IsLowerBound (termsValue terms point) := by
  cases lower with
  | nan => exact absurd rfl hnan
  | finite negative steps representable => simp [isFinite, EngineRow.HoldsAt]
  | infinity negative =>
      cases negative with
      | true => simp [isFinite, isLowerBound_infinity_iff]
      | false => exact absurd rfl hposInf

theorem atMost_holdsAt_iff (hnan : upper ≠ .nan) (hnegInf : upper ≠ .negInf) (point : Nat → Rat) :
    (∀ row ∈ if upper.isFinite then [(⟨terms, .atMost, upper⟩ : EngineRow)] else [],
        row.HoldsAt point) ↔ upper.IsUpperBound (termsValue terms point) := by
  cases upper with
  | nan => exact absurd rfl hnan
  | finite negative steps representable => simp [isFinite, EngineRow.HoldsAt]
  | infinity negative =>
      cases negative with
      | true => exact absurd rfl hnegInf
      | false => simp [isFinite, isUpperBound_infinity_iff]

/-- The rows for a range exist and hold exactly where the value of the terms lies in it. -/
theorem rangeRows?_holdAt_iff (hlower : lower ≠ .nan) (hupper : upper ≠ .nan)
    (point : Nat → Rat) :
    (∃ rows, rangeRows? terms lower upper = some rows ∧ ∀ row ∈ rows, row.HoldsAt point) ↔
      lower.IsLowerBound (termsValue terms point) ∧
        upper.IsUpperBound (termsValue terms point) := by
  by_cases hfar : upper < lower ∨ (lower == .posInf) = true ∨ (upper == .negInf) = true
  · rw [rangeRows?, if_pos hfar]
    exact iff_of_false (by simp) (not_between_of_far hfar)
  · have hnear : lower ≠ .posInf ∧ upper ≠ .negInf := by
      simpa only [not_or, beq_posInf_iff, beq_negInf_iff] using (not_or.mp hfar).2
    rw [rangeRows?, if_neg hfar]
    cases terms with
    | nil =>
        rw [if_pos List.isEmpty_nil]
        show _ ↔ lower.IsLowerBound 0 ∧ upper.IsUpperBound 0
        rw [between_zero_iff]
        split <;> simp_all
    | cons term rest =>
        rw [if_neg (by simp)]
        by_cases hequal : (lower == upper) = true
        · rw [if_pos hequal, bounds_iff_of_beq hequal hnear.1 hnear.2]
          simp [EngineRow.HoldsAt]
        · rw [if_neg hequal]
          simp only [Option.some.injEq, exists_eq_left', List.forall_mem_append]
          rw [atLeast_holdsAt_iff hlower hnear.1, atMost_holdsAt_iff hupper hnear.2]

end LinProg
