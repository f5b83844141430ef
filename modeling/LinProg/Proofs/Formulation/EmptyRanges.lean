/-
# Ranges without a number

No number lies in a range whose bounds are reversed or undefined, or whose lower bound is
positive or upper bound negative infinity. A row without terms gets none of these past the
formulation. A row with terms does if a bound is undefined: no comparison with it is true, so
neither is the one that would give the range up, and the other bound is all that is left. The
row is made as if the undefined bound were open.
-/
import LinProg.Proofs.Formulation.Meaning
import Mathlib.Data.Real.Basic

namespace LinProg

variable {lower upper bound : Binary64}

namespace Binary64

/-- The bound is at most the real number, as doubles are compared. -/
def AtMostReal (bound : Binary64) (number : ℝ) : Prop :=
  bound = .negInf ∨ bound.isFinite = true ∧ (bound.exact : ℝ) ≤ number

/-- The bound is at least the real number, as doubles are compared. -/
def AtLeastReal (bound : Binary64) (number : ℝ) : Prop :=
  bound = .posInf ∨ bound.isFinite = true ∧ number ≤ (bound.exact : ℝ)

theorem atMostReal_cast_iff {number : Rat} :
    bound.AtMostReal (number : ℝ) ↔ bound.IsLowerBound number := by
  simp only [AtMostReal, IsLowerBound, Rat.cast_le]

theorem atLeastReal_cast_iff {number : Rat} :
    bound.AtLeastReal (number : ℝ) ↔ bound.IsUpperBound number := by
  simp only [AtLeastReal, IsUpperBound, Rat.cast_le]

end Binary64

open Binary64

/-- Where there is a real number between bounds, there is a fraction: a finite bound, or zero. -/
theorem exists_between_iff_exists_rat :
    (∃ number : ℝ, lower.AtMostReal number ∧ upper.AtLeastReal number) ↔
      ∃ number : Rat, lower.IsLowerBound number ∧ upper.IsUpperBound number := by
  apply Iff.intro
  · rintro ⟨number, hlower, hupper⟩
    -- The lower bound serves if it is finite, then the upper one, and otherwise anything does.
    cases hlower with
    | inl hlower =>
        cases hupper with
        | inl hupper => exact ⟨0, .inl hlower, .inl hupper⟩
        | inr hupper => exact ⟨upper.exact, .inl hlower, .inr ⟨hupper.1, le_rfl⟩⟩
    | inr hlower =>
        refine ⟨lower.exact, .inr ⟨hlower.1, le_rfl⟩, ?_⟩
        rw [← atLeastReal_cast_iff]
        exact hupper.imp_right fun hupper => ⟨hupper.1, hlower.2.trans hupper.2⟩
  · rintro ⟨number, hlower, hupper⟩
    exact ⟨number, atMostReal_cast_iff.mpr hlower, atLeastReal_cast_iff.mpr hupper⟩

/-- A number lies between two bounds exactly if these are in order and none of them is the
infinity on the wrong side. -/
theorem exists_between_iff :
    (∃ number : ℝ, lower.AtMostReal number ∧ upper.AtLeastReal number) ↔
      lower ≤ upper ∧ lower ≠ .posInf ∧ upper ≠ .negInf := by
  rw [exists_between_iff_exists_rat]
  apply Iff.intro
  · rintro ⟨number, hlower, hupper⟩
    exact ⟨le_of_bounds hlower hupper, hlower.ne_posInf, hupper.ne_negInf⟩
  · rintro ⟨horder, hposInf, hnegInf⟩
    have hnumbers := ne_nan_of_le horder
    cases hlower : lower.isFinite with
    | true =>
        have hself : lower.IsLowerBound lower.exact := .inr ⟨hlower, le_rfl⟩
        exact ⟨lower.exact, hself, (isUpperBound_exact_iff hlower).mpr horder⟩
    | false =>
        have hnegative : lower = .negInf := eq_negInf_of_not_isFinite hnumbers.1 hlower hposInf
        cases hupper : upper.isFinite with
        | true => exact ⟨upper.exact, .inl hnegative, .inr ⟨hupper, le_rfl⟩⟩
        | false =>
            have hpositive : upper = .posInf := eq_posInf_of_not_isFinite hnumbers.2 hupper hnegInf
            exact ⟨0, .inl hnegative, .inl hpositive⟩

/-! ## Undefined bounds -/

section Undefined

variable {terms : List (Nat × Binary64)} (hterms : terms ≠ [])

include hterms

/-- An undefined lower bound of terms passes for none: no test tells the two apart. -/
theorem rangeRows?_nan_lower : rangeRows? terms .nan upper = rangeRows? terms .negInf upper := by
  have hempty : ¬ terms.isEmpty = true := by simpa using hterms
  simp only [rangeRows?, beq_posInf_iff, beq_negInf_iff, if_neg hempty]
  by_cases hupper : upper = .negInf
  · rw [if_pos (.inr (.inr hupper)), if_pos (.inr (.inr hupper))]
  · have hundefined : ¬ upper < .nan := fun horder => (ne_nan_of_le (le_of_lt horder)).2 rfl
    have hopen : ¬ upper < .negInf := fun horder => hupper (eq_negInf_of_le (le_of_lt horder))
    have hequal : ¬ (nan == upper) = true := by simp [beq_iff_rank, rank?]
    have hsame : ¬ (negInf == upper) = true := by rwa [beq_comm, beq_negInf_iff]
    rw [if_neg (not_or.mpr ⟨hundefined, not_or.mpr ⟨by decide, hupper⟩⟩), if_neg hequal,
      if_neg (not_or.mpr ⟨hopen, not_or.mpr ⟨by decide, hupper⟩⟩), if_neg hsame]
    rfl

/-- An undefined upper bound of terms passes for none as well. -/
theorem rangeRows?_nan_upper : rangeRows? terms lower .nan = rangeRows? terms lower .posInf := by
  have hempty : ¬ terms.isEmpty = true := by simpa using hterms
  simp only [rangeRows?, beq_posInf_iff, beq_negInf_iff, if_neg hempty]
  by_cases hlower : lower = .posInf
  · rw [if_pos (.inr (.inl hlower)), if_pos (.inr (.inl hlower))]
  · have hundefined : ¬ nan < lower := fun horder => (ne_nan_of_le (le_of_lt horder)).1 rfl
    have hopen : ¬ posInf < lower := fun horder => hlower (eq_posInf_of_le (le_of_lt horder))
    have hequal : ¬ (lower == nan) = true := by simp [beq_iff_rank, rank?]
    rw [if_neg (not_or.mpr ⟨hundefined, not_or.mpr ⟨hlower, by decide⟩⟩), if_neg hequal,
      if_neg (not_or.mpr ⟨hopen, not_or.mpr ⟨hlower, by decide⟩⟩), if_neg hlower]
    rfl

end Undefined

namespace Constraint

variable {constraint : Constraint}

/-- The constraint without its undefined bounds. -/
def dropUndefined (constraint : Constraint) : Constraint where
  row := constraint.row
  lower := if constraint.lower = .nan then .negInf else constraint.lower
  upper := if constraint.upper = .nan then .posInf else constraint.upper

/-- Rows with terms are made as if their undefined bounds were not there. -/
theorem engineRows?_dropUndefined (hterms : constraint.row.terms ≠ []) :
    constraint.dropUndefined.engineRows? = constraint.engineRows? := by
  have hlower (upper : Binary64) :
      rangeRows? constraint.row.terms (if constraint.lower = .nan then .negInf else constraint.lower)
        upper = rangeRows? constraint.row.terms constraint.lower upper := by
    split
    · case isTrue hnan => rw [hnan, rangeRows?_nan_lower hterms]
    · rfl
  have hupper (lower : Binary64) :
      rangeRows? constraint.row.terms lower
        (if constraint.upper = .nan then .posInf else constraint.upper) =
          rangeRows? constraint.row.terms lower constraint.upper := by
    split
    · case isTrue hnan => rw [hnan, rangeRows?_nan_upper hterms]
    · rfl
  exact (hlower _).trans (hupper _)

/-- No real number lies in the range. -/
def RangeEmpty (constraint : Constraint) : Prop :=
  ∀ number : ℝ, ¬ (constraint.lower.AtMostReal number ∧ constraint.upper.AtLeastReal number)

theorem rangeEmpty_iff : constraint.RangeEmpty ↔
    ¬ constraint.lower ≤ constraint.upper ∨ constraint.lower = .posInf ∨
      constraint.upper = .negInf := by
  have hexists : constraint.RangeEmpty ↔ ¬ ∃ number : ℝ,
      constraint.lower.AtMostReal number ∧ constraint.upper.AtLeastReal number :=
    not_exists.symm
  rw [hexists, exists_between_iff]
  tauto

/-- When a range is given up. -/
theorem engineRows?_eq_none_iff : constraint.engineRows? = none ↔
    (constraint.upper < constraint.lower ∨ constraint.lower = .posInf ∨
        constraint.upper = .negInf) ∨
      constraint.row.terms = [] ∧ ¬ (constraint.lower ≤ 0 ∧ 0 ≤ constraint.upper) := by
  rw [engineRows?, rangeRows?]
  simp only [beq_posInf_iff, beq_negInf_iff]
  split
  · case isTrue hfar => exact iff_of_true rfl (.inl hfar)
  · case isFalse hnear =>
      cases constraint.row.terms with
      | nil => simp [hnear]
      | cons term rest =>
          rw [if_neg (by simp)]
          split <;> simp [hnear]

/-- An empty range is given up, unless the row has terms, a bound is undefined and the other one
is no infinity on the wrong side. -/
theorem RangeEmpty.engineRows?_eq_none_iff (hempty : constraint.RangeEmpty) :
    constraint.engineRows? = none ↔
      constraint.row.terms = [] ∨ constraint.lower = .posInf ∨ constraint.upper = .negInf ∨
        constraint.lower ≠ .nan ∧ constraint.upper ≠ .nan := by
  rw [Constraint.engineRows?_eq_none_iff]
  apply Iff.intro
  · intro hnone
    rcases hnone with (hreversed | hfar) | hterms
    · exact .inr (.inr (.inr (ne_nan_of_le (le_of_lt hreversed)).symm))
    · exact .inr (hfar.imp_right .inl)
    · exact .inl hterms.1
  · intro hseen
    rcases hseen with hterms | hlower | hupper | hnumbers
    · -- Zero, the value of no terms, is not in the range either.
      refine .inr ⟨hterms, fun hzero => ?_⟩
      obtain ⟨number, hbetween⟩ :=
        exists_between_iff_exists_rat.mpr ⟨0, between_zero_iff.mpr hzero⟩
      exact hempty number hbetween
    · exact .inl (.inr (.inl hlower))
    · exact .inl (.inr (.inr hupper))
    · -- Only numbers that are not in order are reversed, which is what is tested.
      refine .inl ((rangeEmpty_iff.mp hempty).imp_left fun hdisordered => ?_)
      by_contra hreversed
      exact hdisordered (le_of_not_lt hnumbers.2 hnumbers.1 hreversed)

end Constraint

end LinProg
