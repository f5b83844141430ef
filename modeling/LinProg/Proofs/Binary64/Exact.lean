/-
# Doubles as bounds on exact numbers

Finite doubles are compared by counting steps, and this agrees with the order of their
exact values. A double can bound an exact number from below or from above: the infinities
bound every number on their own side and none on the other, and the undefined value bounds
nothing. The comparisons of doubles are related to these two notions here, so that a
statement about bounds does not have to look at steps.
-/
import LinProg.Binary64.Rounding
import LinProg.Engine.Relaxation
import Mathlib.Data.Rat.Floor

namespace LinProg.Binary64

theorem stepsInOne_pos : 0 < stepsInOne :=
  twoPow_pos _

theorem overflowSteps_pos : 0 < overflowSteps :=
  twoPow_pos _

-- That they are positive is all that matters below, and they should not be evaluated.
attribute [local irreducible] stepsInOne overflowSteps

/-- The bound allows the number from below. -/
def IsLowerBound (bound : Binary64) (number : Rat) : Prop :=
  bound = .negInf ∨ bound.isFinite = true ∧ bound.exact ≤ number

/-- The bound allows the number from above. -/
def IsUpperBound (bound : Binary64) (number : Rat) : Prop :=
  bound = .posInf ∨ bound.isFinite = true ∧ number ≤ bound.exact

instance (bound : Binary64) (number : Rat) : Decidable (bound.IsLowerBound number) :=
  inferInstanceAs (Decidable (_ ∨ _))

instance (bound : Binary64) (number : Rat) : Decidable (bound.IsUpperBound number) :=
  inferInstanceAs (Decidable (_ ∨ _))

/-! ## Comparisons of finite doubles -/

variable {left right bound : Binary64} {number : Rat}

theorem exact_finite (negative : Bool) (steps : Nat) (representable : Representable steps) :
    (finite negative steps representable).exact = (signed negative steps : Rat) / stepsInOne := by
  rw [exact, toRat?, Option.getD_some, Rat.mkRat_eq_div]

theorem exact_zero : (0 : Binary64).exact = 0 := by
  show (finite false 0 representable_zero).exact = 0
  simp [exact_finite, signed]

theorem exact_neg (value : Binary64) : value.neg.exact = -value.exact := by
  cases value with
  | finite negative steps representable =>
      show (finite (!negative) steps representable).exact = _
      cases negative <;> simp [exact_finite, signed, neg_div]
  | _ => simp [neg, exact, toRat?]

theorem toRat?_eq_some_iff (hfinite : bound.isFinite = true) :
    bound.toRat? = some number ↔ bound.exact = number := by
  cases bound with
  | finite negative steps representable => simp [exact, toRat?]
  | _ => cases hfinite

theorem exact_le_exact_iff (hleft : left.isFinite = true) (hright : right.isFinite = true) :
    left.exact ≤ right.exact ↔ left ≤ right := by
  cases left with
  | finite leftSign leftSteps leftRepresentable =>
      cases right with
      | finite rightSign rightSteps rightRepresentable =>
          have hpos : (0 : Rat) < stepsInOne := Nat.cast_pos.mpr stepsInOne_pos
          rw [exact_finite, exact_finite, div_le_div_iff_of_pos_right hpos, Int.cast_le]
          exact decide_eq_true_iff.symm
      | _ => cases hright
  | _ => cases hleft

/-! ## Ranks -/

theorem le_iff_rank : left ≤ right ↔
    ∃ leftRank ∈ left.rank?, ∃ rightRank ∈ right.rank?, leftRank ≤ rightRank := by
  show left.isAtMost right = true ↔ _
  cases hleft : left.rank? <;> cases hright : right.rank? <;> simp [isAtMost, hleft, hright]

theorem lt_iff_rank : left < right ↔
    ∃ leftRank ∈ left.rank?, ∃ rightRank ∈ right.rank?, leftRank < rightRank := by
  show left.isLess right = true ↔ _
  cases hleft : left.rank? <;> cases hright : right.rank? <;> simp [isLess, hleft, hright]

theorem beq_iff_rank : (left == right) = true ↔
    ∃ rank, left.rank? = some rank ∧ right.rank? = some rank := by
  show left.isSame right = true ↔ _
  cases hleft : left.rank? <;> cases hright : right.rank? <;>
    simp [isSame, hleft, hright, eq_comm]

theorem beq_comm : (left == right) = (right == left) := by
  rw [Bool.eq_iff_iff, beq_iff_rank, beq_iff_rank]
  exact exists_congr fun _ => and_comm

/-- Only the undefined value differs from itself. -/
theorem beq_self_iff (value : Binary64) : (value == value) = true ↔ value ≠ .nan := by
  rw [beq_iff_rank]
  cases value <;> simp [rank?]

theorem ne_nan_of_isFinite (hfinite : bound.isFinite = true) : bound ≠ .nan := by
  intro hnan
  rw [hnan] at hfinite
  cases hfinite

/-- What compares at all is a number. -/
theorem ne_nan_of_le (horder : left ≤ right) : left ≠ .nan ∧ right ≠ .nan := by
  obtain ⟨_, hleft, _, hright, -⟩ := le_iff_rank.mp horder
  apply And.intro
  · intro hnan
    rw [hnan] at hleft
    cases hleft
  · intro hnan
    rw [hnan] at hright
    cases hright

theorem eq_negInf_of_not_isFinite (hnumber : bound ≠ .nan) (hinfinite : bound.isFinite = false)
    (hposInf : bound ≠ .posInf) : bound = .negInf := by
  cases bound with
  | nan => exact absurd rfl hnumber
  | finite negative steps representable => cases hinfinite
  | infinity negative =>
      cases negative with
      | true => rfl
      | false => exact absurd rfl hposInf

theorem eq_posInf_of_not_isFinite (hnumber : bound ≠ .nan) (hinfinite : bound.isFinite = false)
    (hnegInf : bound ≠ .negInf) : bound = .posInf := by
  cases bound with
  | nan => exact absurd rfl hnumber
  | finite negative steps representable => cases hinfinite
  | infinity negative =>
      cases negative with
      | true => exact absurd rfl hnegInf
      | false => rfl

theorem not_lt_of_le (horder : left ≤ right) : ¬ right < left := by
  obtain ⟨leftRank, hleft, rightRank, hright, hle⟩ := le_iff_rank.mp horder
  intro hlt
  obtain ⟨rightRank', hright', leftRank', hleft', hlt⟩ := lt_iff_rank.mp hlt
  obtain rfl : leftRank = leftRank' := Option.mem_unique hleft hleft'
  obtain rfl : rightRank = rightRank' := Option.mem_unique hright hright'
  omega

theorem lt_of_le_of_lt {middle : Binary64} (hfirst : left ≤ middle) (hsecond : middle < right) :
    left < right := by
  obtain ⟨leftRank, hleft, middleRank, hmiddle, hle⟩ := le_iff_rank.mp hfirst
  obtain ⟨middleRank', hmiddle', rightRank, hright, hlt⟩ := lt_iff_rank.mp hsecond
  obtain rfl : middleRank = middleRank' := Option.mem_unique hmiddle hmiddle'
  exact lt_iff_rank.mpr ⟨leftRank, hleft, rightRank, hright, hle.trans_lt hlt⟩

theorem lt_of_lt_of_le {middle : Binary64} (hfirst : left < middle) (hsecond : middle ≤ right) :
    left < right := by
  obtain ⟨leftRank, hleft, middleRank, hmiddle, hlt⟩ := lt_iff_rank.mp hfirst
  obtain ⟨middleRank', hmiddle', rightRank, hright, hle⟩ := le_iff_rank.mp hsecond
  obtain rfl : middleRank = middleRank' := Option.mem_unique hmiddle hmiddle'
  exact lt_iff_rank.mpr ⟨leftRank, hleft, rightRank, hright, hlt.trans_le hle⟩

theorem le_of_lt (horder : left < right) : left ≤ right := by
  obtain ⟨leftRank, hleft, rightRank, hright, hlt⟩ := lt_iff_rank.mp horder
  exact le_iff_rank.mpr ⟨leftRank, hleft, rightRank, hright, hlt.le⟩

theorem not_lt_nan : ¬ left < nan := by
  simp [lt_iff_rank, rank?]

theorem nan_not_lt : ¬ nan < right := by
  simp [lt_iff_rank, rank?]

theorem lt_irrefl (value : Binary64) : ¬ value < value :=
  fun hlt => not_lt_of_le (le_of_lt hlt) hlt

/-- Numbers that are not in one order are in the other. -/
theorem le_of_not_lt (hleft : left ≠ .nan) (hright : right ≠ .nan) (horder : ¬ left < right) :
    right ≤ left := by
  have hrank (value : Binary64) (hnumber : value ≠ .nan) : ∃ rank, value.rank? = some rank := by
    cases value with
    | nan => exact absurd rfl hnumber
    | infinity negative => exact ⟨_, rfl⟩
    | finite negative steps representable => exact ⟨_, rfl⟩
  obtain ⟨leftRank, hleftRank⟩ := hrank left hleft
  obtain ⟨rightRank, hrightRank⟩ := hrank right hright
  refine le_iff_rank.mpr ⟨rightRank, hrightRank, leftRank, hleftRank, ?_⟩
  by_contra hlt
  exact horder (lt_iff_rank.mpr ⟨leftRank, hleftRank, rightRank, hrightRank, not_le.mp hlt⟩)

/-- Beyond every finite rank there are the infinities. -/
theorem rank_finite_lt (negative : Bool) {steps : Nat} (representable : Representable steps) :
    -(overflowSteps : Int) < signed negative steps ∧ signed negative steps < overflowSteps := by
  have hbelow : steps < overflowSteps := representable.1
  cases negative <;> simp only [signed] <;> split <;> omega

theorem rank_infinity (negative : Bool) :
    (infinity negative).rank? = some (signed negative overflowSteps) :=
  rfl

theorem rank_finite (negative : Bool) (steps : Nat) (representable : Representable steps) :
    (finite negative steps representable).rank? = some (signed negative steps) :=
  rfl

theorem eq_posInf_of_le (horder : posInf ≤ right) : right = .posInf := by
  rw [posInf, le_iff_rank, rank_infinity] at horder
  cases right with
  | nan => simp [rank?] at horder
  | infinity negative =>
      have hpos : (0 : Int) < overflowSteps := Int.natCast_pos.mpr overflowSteps_pos
      cases negative with
      | false => rfl
      | true =>
          simp [rank_infinity, signed] at horder
          omega
  | finite negative steps representable =>
      have hrank := rank_finite_lt negative representable
      simp [rank_finite, signed] at horder hrank
      omega

theorem eq_negInf_of_le (horder : left ≤ negInf) : left = .negInf := by
  rw [negInf, le_iff_rank, rank_infinity] at horder
  cases left with
  | nan => simp [rank?] at horder
  | infinity negative =>
      have hpos : (0 : Int) < overflowSteps := Int.natCast_pos.mpr overflowSteps_pos
      cases negative with
      | true => rfl
      | false =>
          simp [rank_infinity, signed] at horder
          omega
  | finite negative steps representable =>
      have hrank := rank_finite_lt negative representable
      simp [rank_finite, signed] at horder hrank
      omega

/-- Only an infinity equals itself. -/
theorem beq_infinity_iff (value : Binary64) (negative : Bool) :
    (value == .infinity negative) = true ↔ value = .infinity negative := by
  rw [beq_iff_rank, rank_infinity]
  cases value with
  | nan => simp [rank?]
  | infinity sign =>
      have hpos : (0 : Int) < overflowSteps := Int.natCast_pos.mpr overflowSteps_pos
      cases sign <;> cases negative <;> simp [rank_infinity, signed] <;> omega
  | finite sign steps representable =>
      have hrank := rank_finite_lt sign representable
      rw [rank_finite]
      cases negative <;> simp [signed] at hrank ⊢ <;> omega

theorem beq_posInf_iff (value : Binary64) : (value == .posInf) = true ↔ value = .posInf :=
  beq_infinity_iff value false

theorem beq_negInf_iff (value : Binary64) : (value == .negInf) = true ↔ value = .negInf :=
  beq_infinity_iff value true

/-! ## Bounds -/

theorem isLowerBound_iff_of_isFinite (hfinite : bound.isFinite = true) :
    bound.IsLowerBound number ↔ bound.exact ≤ number := by
  cases bound with
  | finite negative steps representable => simp [IsLowerBound, isFinite, negInf]
  | _ => cases hfinite

theorem isUpperBound_iff_of_isFinite (hfinite : bound.isFinite = true) :
    bound.IsUpperBound number ↔ number ≤ bound.exact := by
  cases bound with
  | finite negative steps representable => simp [IsUpperBound, isFinite, posInf]
  | _ => cases hfinite

theorem isLowerBound_infinity_iff (negative : Bool) :
    (infinity negative).IsLowerBound number ↔ negative = true := by
  simp [IsLowerBound, isFinite, negInf]

theorem isUpperBound_infinity_iff (negative : Bool) :
    (infinity negative).IsUpperBound number ↔ negative = false := by
  simp [IsUpperBound, isFinite, posInf]

theorem not_isLowerBound_nan : ¬ nan.IsLowerBound number := by
  simp [IsLowerBound, isFinite, negInf]

theorem not_isUpperBound_nan : ¬ nan.IsUpperBound number := by
  simp [IsUpperBound, isFinite, posInf]

theorem IsLowerBound.ne_posInf (hbound : bound.IsLowerBound number) : bound ≠ .posInf := by
  rintro rfl
  cases (isLowerBound_infinity_iff false).mp hbound

theorem IsUpperBound.ne_negInf (hbound : bound.IsUpperBound number) : bound ≠ .negInf := by
  rintro rfl
  cases (isUpperBound_infinity_iff true).mp hbound

theorem isLowerBound_exact_iff (hfinite : right.isFinite = true) :
    bound.IsLowerBound right.exact ↔ bound ≤ right := by
  cases bound with
  | finite negative steps representable =>
      rw [isLowerBound_iff_of_isFinite rfl]
      exact exact_le_exact_iff rfl hfinite
  | nan => simp [not_isLowerBound_nan, le_iff_rank, rank?]
  | infinity negative =>
      cases right with
      | finite sign steps representable =>
          have hrank := rank_finite_lt sign representable
          rw [isLowerBound_infinity_iff, le_iff_rank, rank_infinity, rank_finite]
          cases negative <;> simp [signed] at hrank ⊢ <;> omega
      | _ => cases hfinite

theorem isUpperBound_exact_iff (hfinite : left.isFinite = true) :
    bound.IsUpperBound left.exact ↔ left ≤ bound := by
  cases bound with
  | finite negative steps representable =>
      rw [isUpperBound_iff_of_isFinite rfl]
      exact exact_le_exact_iff hfinite rfl
  | nan => simp [not_isUpperBound_nan, le_iff_rank, rank?]
  | infinity negative =>
      cases left with
      | finite sign steps representable =>
          have hrank := rank_finite_lt sign representable
          rw [isUpperBound_infinity_iff, le_iff_rank, rank_infinity, rank_finite]
          cases negative <;> simp [signed] at hrank ⊢ <;> omega
      | _ => cases hfinite

theorem IsLowerBound.ite {condition : Prop} [Decidable condition]
    (hleft : left.IsLowerBound number) (hright : right.IsLowerBound number) :
    (if condition then left else right).IsLowerBound number := by
  split
  · exact hleft
  · exact hright

theorem IsUpperBound.ite {condition : Prop} [Decidable condition]
    (hleft : left.IsUpperBound number) (hright : right.IsUpperBound number) :
    (if condition then left else right).IsUpperBound number := by
  split
  · exact hleft
  · exact hright

theorem IsLowerBound.mono {larger : Rat} (hbound : bound.IsLowerBound number)
    (hlarger : number ≤ larger) : bound.IsLowerBound larger := by
  rcases hbound with hinfinite | ⟨hfinite, hbound⟩
  · exact .inl hinfinite
  · exact .inr ⟨hfinite, hbound.trans hlarger⟩

theorem IsUpperBound.mono {smaller : Rat} (hbound : bound.IsUpperBound number)
    (hsmaller : smaller ≤ number) : bound.IsUpperBound smaller := by
  rcases hbound with hinfinite | ⟨hfinite, hbound⟩
  · exact .inl hinfinite
  · exact .inr ⟨hfinite, hsmaller.trans hbound⟩

/-- What lies above a bound lies above every smaller one. -/
theorem IsLowerBound.of_le (hbound : right.IsLowerBound number) (horder : left ≤ right) :
    left.IsLowerBound number := by
  rcases hbound with rfl | ⟨hfinite, hbound⟩
  · exact .inl (eq_negInf_of_le horder)
  · exact ((isLowerBound_exact_iff hfinite).mpr horder).mono hbound

/-- What lies below a bound lies below every larger one. -/
theorem IsUpperBound.of_le (hbound : left.IsUpperBound number) (horder : left ≤ right) :
    right.IsUpperBound number := by
  rcases hbound with rfl | ⟨hfinite, hbound⟩
  · exact .inl (eq_posInf_of_le horder)
  · exact ((isUpperBound_exact_iff hfinite).mpr horder).mono hbound

/-- Bounds with a number between them are in order. -/
theorem le_of_bounds (hlower : left.IsLowerBound number) (hupper : right.IsUpperBound number) :
    left ≤ right := by
  rcases hlower with rfl | ⟨hfinite, hlower⟩
  · rcases hupper with rfl | ⟨hfinite, -⟩
    · simp [le_iff_rank, negInf, posInf, rank_infinity, signed]
    · exact (isLowerBound_exact_iff hfinite).mp (.inl rfl)
  · exact (isUpperBound_exact_iff hfinite).mp (hupper.mono hlower)

/-- Equal bounds that are not both on one far side leave one number. -/
theorem bounds_iff_of_beq (hequal : (left == right) = true) (hleft : left ≠ .posInf)
    (hright : right ≠ .negInf) :
    left.IsLowerBound number ∧ right.IsUpperBound number ↔ left.toRat? = some number := by
  obtain ⟨rank, hleftRank, hrightRank⟩ := beq_iff_rank.mp hequal
  cases left with
  | nan => cases hleftRank
  | infinity negative =>
      have hsame : (right == infinity negative) = true :=
        beq_iff_rank.mpr ⟨rank, hrightRank, hleftRank⟩
      rw [beq_infinity_iff] at hsame
      cases negative with
      | true => exact absurd hsame hright
      | false => exact absurd rfl hleft
  | finite negative steps representable =>
      cases right with
      | nan => cases hrightRank
      | infinity sign => cases (beq_infinity_iff _ sign).mp hequal
      | finite sign steps' representable' =>
          have hexact : (finite sign steps' representable').exact =
              (finite negative steps representable).exact := by
            rw [rank_finite, Option.some.injEq] at hleftRank hrightRank
            rw [exact_finite, exact_finite, hleftRank, hrightRank]
          rw [toRat?_eq_some_iff rfl, le_antisymm_iff, isLowerBound_iff_of_isFinite rfl,
            isUpperBound_iff_of_isFinite rfl, hexact]

/-! ## Rounding to integers -/

theorem floor?_eq_some_iff (hfinite : bound.isFinite = true) {below : Int} :
    bound.floor? = some below ↔ ⌊bound.exact⌋ = below := by
  cases bound with
  | finite negative steps representable =>
      rw [exact_finite, Rat.floor_intCast_div_natCast, floor?, Option.some.injEq,
        Int.fdiv_eq_ediv_of_nonneg _ (Int.natCast_nonneg _)]
  | _ => cases hfinite

theorem ceil?_eq_some_iff (hfinite : bound.isFinite = true) {above : Int} :
    bound.ceil? = some above ↔ ⌈bound.exact⌉ = above := by
  have hopposite : bound.neg.isFinite = true := by
    cases bound with
    | finite negative steps representable => rfl
    | _ => cases hfinite
  have hfloor : bound.neg.floor? = some (-⌈bound.exact⌉) := by
    rw [floor?_eq_some_iff hopposite, exact_neg, Int.floor_neg]
  simp [ceil?, hfloor]

end LinProg.Binary64
