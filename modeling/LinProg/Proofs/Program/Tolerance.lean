/-
# Bounds within the tolerance

Two bounds of constraints agree if they are equal, or if their rounded difference is small. The
difference the other way round has the same magnitude, so that agreement is symmetric. The two
zeros, which are equal without being the same, are within the tolerance anyway, and a difference
with an infinity is infinite or undefined, so an infinite bound agrees with itself alone.
-/
import LinProg.Program.Constraint
import LinProg.Proofs.Binary64.Exact

namespace LinProg

namespace Binary64

/-! ## Magnitudes of differences -/

-- The range of finite doubles plays no part here, and it should not be evaluated.
attribute [local irreducible] stepsInOne overflowSteps

variable {left right : Binary64}

theorem signed_not (negative : Bool) (magnitude : Nat) :
    signed (!negative) magnitude = -signed negative magnitude := by
  cases negative <;> simp [signed]

theorem abs_nearest (negative : Bool) (numerator denominator : Nat) :
    (nearest negative numerator denominator).abs = nearest false numerator denominator := by
  rw [nearest, nearest]
  split <;> rfl

/-- The distance of finite doubles is counted in steps and rounded. -/
theorem abs_sub_finite (leftSign rightSign : Bool) {leftSteps rightSteps : Nat}
    (hleft : Representable leftSteps) (hright : Representable rightSteps) :
    (finite leftSign leftSteps hleft - finite rightSign rightSteps hright).abs =
      nearest false (signed leftSign leftSteps - signed rightSign rightSteps).natAbs 1 := by
  show (ofSteps _ (signed leftSign leftSteps + signed (!rightSign) rightSteps)).abs = _
  rw [ofSteps, abs_nearest, signed_not, ← Int.sub_eq_add_neg]

theorem abs_sub_comm (left right : Binary64) : (left - right).abs = (right - left).abs := by
  cases left with
  | nan => cases right <;> rfl
  | infinity leftSign =>
      cases right with
      | nan => rfl
      | infinity rightSign => cases leftSign <;> cases rightSign <;> rfl
      | finite rightSign rightSteps hright => rfl
  | finite leftSign leftSteps hleft =>
      cases right with
      | nan => rfl
      | infinity rightSign => rfl
      | finite rightSign rightSteps hright =>
          rw [abs_sub_finite, abs_sub_finite, ← Int.natAbs_neg, Int.neg_sub]

/-- Finite doubles of one value have no distance. -/
theorem abs_sub_of_beq (hequal : (left == right) = true) (hfinite : left.isFinite = true) :
    (left - right).abs = 0 := by
  obtain ⟨rank, hleft, hright⟩ := beq_iff_rank.mp hequal
  cases left with
  | finite leftSign leftSteps leftRepresentable =>
      cases right with
      | nan => cases hright
      | infinity sign => cases (beq_infinity_iff _ sign).mp hequal
      | finite rightSign rightSteps rightRepresentable =>
          rw [rank_finite, Option.some.injEq] at hleft hright
          rw [abs_sub_finite, hleft, hright, Int.sub_self]
          decide +kernel
  | _ => cases hfinite

end Binary64

/-! ## The tolerance -/

theorem isFinite_boundTolerance : boundTolerance.isFinite = true := by
  decide +kernel

theorem zero_le_boundTolerance : 0 ≤ boundTolerance := by
  decide +kernel

/-- Bounds that are the same, or whose rounded distance is within the tolerance. -/
def Binary64.Near (left right : Binary64) : Prop :=
  left = right ∨ (left - right).abs ≤ boundTolerance

instance (left right : Binary64) : Decidable (left.Near right) :=
  inferInstanceAs (Decidable (_ ∨ _))

variable {left right : Binary64}

theorem boundsAgree_self {bound : Binary64} (hdefined : bound ≠ .nan) :
    boundsAgree bound bound = true := by
  rw [boundsAgree, (Binary64.beq_self_iff bound).mpr hdefined]
  rfl

theorem boundsAgree_comm (left right : Binary64) :
    boundsAgree left right = boundsAgree right left := by
  rw [boundsAgree, boundsAgree, Binary64.beq_comm, Binary64.abs_sub_comm]

/-- Bounds agree exactly if they are near, infinite ones included. -/
theorem boundsAgree_iff_near (hdefined : left ≠ .nan) :
    boundsAgree left right = true ↔ left.Near right := by
  rw [boundsAgree, Bool.or_eq_true, decide_eq_true_iff]
  apply Iff.intro
  · rintro (hequal | hclose)
    · cases hfinite : left.isFinite with
      | true =>
          apply Or.inr
          rw [Binary64.abs_sub_of_beq hequal hfinite]
          exact zero_le_boundTolerance
      | false =>
          cases left with
          | nan => exact absurd rfl hdefined
          | infinity negative =>
              rw [Binary64.beq_comm, Binary64.beq_infinity_iff] at hequal
              exact .inl hequal.symm
          | finite negative steps representable => cases hfinite
    · exact .inr hclose
  · rintro (rfl | hclose)
    · exact .inl ((Binary64.beq_self_iff left).mpr hdefined)
    · exact .inr hclose

/-- An infinite bound is near itself and nothing else. -/
theorem Binary64.near_infinity_iff (negative : Bool) :
    (infinity negative).Near right ↔ right = infinity negative := by
  -- The magnitude of a difference with an infinity is no number, or it is beyond the tolerance.
  have hfar : ¬ posInf ≤ boundTolerance := by
    intro hle
    have hfinite := isFinite_boundTolerance
    rw [eq_posInf_of_le hle] at hfinite
    cases hfinite
  have hundefined : ¬ nan ≤ boundTolerance := fun hle => (ne_nan_of_le hle).1 rfl
  apply Iff.intro
  · rintro (hsame | hclose)
    · exact hsame.symm
    · cases right with
      | nan => exact absurd hclose hundefined
      | finite sign steps representable => exact absurd hclose hfar
      | infinity sign =>
          cases negative <;> cases sign
          · exact absurd hclose hundefined
          · exact absurd hclose hfar
          · exact absurd hclose hfar
          · exact absurd hclose hundefined
  · rintro rfl
    exact .inl rfl

end LinProg
