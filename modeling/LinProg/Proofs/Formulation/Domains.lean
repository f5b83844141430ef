/-
# Domains that turn out empty

Integer variables get the 32-bit integers within their bounds. Where this leaves none, the
bounds and the type of the variable admit no number at all: what is cut off at the ends of
the 32-bit range is never the last integer within the bounds.
-/
import LinProg.Solver.Formulation
import LinProg.Proofs.Checks
import LinProg.Proofs.Program.Meaning

namespace LinProg

variable {index : Nat} {bound lower upper : Binary64} {least greatest integer : Int}
  {domain : Domain}

theorem leastInteger_le_greatestInteger : leastInteger ≤ greatestInteger := by
  decide

/-- Infinite bounds become the extreme integers, and what other bounds are rounded to has
32 bits. -/
theorem integerBound?_eq_ok_iff {rounded : Option Int} {result : Int} :
    integerBound? index bound rounded = .ok result ↔
      if bound = .negInf then result = leastInteger
      else if bound = .posInf then result = greatestInteger
      else rounded = some result ∧ leastInteger ≤ result ∧ result ≤ greatestInteger := by
  simp only [integerBound?, Binary64.beq_negInf_iff, Binary64.beq_posInf_iff]
  split
  · simp [eq_comm]
  · split
    · simp [eq_comm]
    · cases rounded with
      | none => simp
      | some integer =>
          by_cases hrange : leastInteger ≤ integer ∧ integer ≤ greatestInteger
          · simp only [if_pos hrange, Except.ok.injEq, Option.some.injEq]
            refine ⟨?_, fun h => h.1⟩
            rintro rfl
            exact ⟨rfl, hrange⟩
          · simp only [if_neg hrange, reduceCtorEq, Option.some.injEq, false_iff]
            rintro ⟨rfl, hresult⟩
            exact hrange hresult

theorem integerBound?_mem {rounded : Option Int} {result : Int}
    (hok : integerBound? index bound rounded = .ok result) :
    leastInteger ≤ result ∧ result ≤ greatestInteger := by
  have hextreme := leastInteger_le_greatestInteger
  rw [integerBound?_eq_ok_iff] at hok
  split at hok
  · omega
  · split at hok
    · omega
    · exact hok.2

/-- Among the 32-bit integers, those above a bound begin at its integer. -/
theorem integerBound?_ceil_le_iff (hok : integerBound? index bound bound.ceil? = .ok least)
    (hbound : bound ≠ .posInf) (hrange : leastInteger ≤ integer) :
    least ≤ integer ↔ bound.IsLowerBound integer := by
  rw [integerBound?_eq_ok_iff] at hok
  cases bound with
  | nan =>
      rw [if_neg nofun, if_neg nofun] at hok
      cases hok.1
  | infinity negative =>
      cases negative with
      | true =>
          rw [if_pos (show Binary64.infinity true = .negInf by rfl)] at hok
          exact iff_of_true (hok ▸ hrange) ((Binary64.isLowerBound_infinity_iff true).mpr rfl)
      | false => exact absurd rfl hbound
  | finite negative steps representable =>
      rw [if_neg nofun, if_neg nofun, Binary64.ceil?_eq_some_iff rfl] at hok
      rw [Binary64.isLowerBound_iff_of_isFinite rfl, ← Int.ceil_le, hok.1]

/-- Among the 32-bit integers, those below a bound end at its integer. -/
theorem le_integerBound?_floor_iff (hok : integerBound? index bound bound.floor? = .ok greatest)
    (hbound : bound ≠ .negInf) (hrange : integer ≤ greatestInteger) :
    integer ≤ greatest ↔ bound.IsUpperBound integer := by
  rw [integerBound?_eq_ok_iff] at hok
  cases bound with
  | nan =>
      rw [if_neg nofun, if_neg nofun] at hok
      cases hok.1
  | infinity negative =>
      cases negative with
      | true => exact absurd rfl hbound
      | false =>
          rw [if_neg nofun, if_pos (show Binary64.infinity false = .posInf by rfl)] at hok
          exact iff_of_true (hok ▸ hrange) ((Binary64.isUpperBound_infinity_iff false).mpr rfl)
  | finite negative steps representable =>
      rw [if_neg nofun, if_neg nofun, Binary64.floor?_eq_some_iff rfl] at hok
      rw [Binary64.isUpperBound_iff_of_isFinite rfl, ← Int.le_floor, hok.1]

/-- A lower bound for an integer is passed on, unless that is below all 32-bit integers. -/
theorem integerBound?_ceil_le (hok : integerBound? index lower lower.ceil? = .ok least)
    (hlower : lower.IsLowerBound integer) : least ≤ max integer leastInteger := by
  have hraised : lower.IsLowerBound (max integer leastInteger : Int) :=
    hlower.mono (Int.cast_le.mpr (le_max_left _ _))
  exact (integerBound?_ceil_le_iff hok hlower.ne_posInf (le_max_right _ _)).mpr hraised

/-- An upper bound for an integer is passed on, unless that is above all 32-bit integers. -/
theorem le_integerBound?_floor (hok : integerBound? index upper upper.floor? = .ok greatest)
    (hupper : upper.IsUpperBound integer) : min integer greatestInteger ≤ greatest := by
  have hlowered : upper.IsUpperBound (min integer greatestInteger : Int) :=
    hupper.mono (Int.cast_le.mpr (min_le_left _ _))
  exact (le_integerBound?_floor_iff hok hupper.ne_negInf (min_le_right _ _)).mpr hlowered

theorem integersBetween?_eq_ok_iff :
    integersBetween? index lower upper = .ok domain ↔
      ∃ least greatest, integerBound? index lower lower.ceil? = .ok least ∧
        integerBound? index upper upper.floor? = .ok greatest ∧
          domain = .integral least greatest := by
  simp only [integersBetween?, bind_eq_ok_iff, pure, Except.pure, Except.ok.injEq,
    exists_and_left, @eq_comm _ domain]

/-- No integer lies between bounds that leave an empty domain. -/
theorem integersBetween?_isEmpty
    (hok : integersBetween? index lower upper = .ok domain) (hempty : domain.isEmpty = true)
    (integer : Int) : ¬ (lower.IsLowerBound integer ∧ upper.IsUpperBound integer) := by
  rintro ⟨hlower, hupper⟩
  obtain ⟨least, greatest, hleast, hgreatest, rfl⟩ := integersBetween?_eq_ok_iff.mp hok
  have hreversed : greatest < least := by simpa [Domain.isEmpty] using hempty
  have hbelow := integerBound?_ceil_le hleast hlower
  have habove := le_integerBound?_floor hgreatest hupper
  have hleastRange := integerBound?_mem hleast
  have hgreatestRange := integerBound?_mem hgreatest
  omega

theorem exact_ofInt_one : (Binary64.ofInt 1).exact = 1 := by
  have hexact : (Binary64.ofInt 1).toRat? = some 1 := by decide +kernel
  rw [Binary64.exact, hexact, Option.getD_some]

theorem isFinite_ofInt_one : (Binary64.ofInt 1).isFinite = true := by
  decide +kernel

/-- The bounds of a binary variable may be moved to zero and one. -/
theorem isLowerBound_clamped {number : Rat} (hlower : lower.IsLowerBound number)
    (hnumber : 0 ≤ number) : (if lower < 0 then 0 else lower).IsLowerBound number := by
  apply Binary64.IsLowerBound.ite
  · rwa [Binary64.isLowerBound_iff_of_isFinite rfl, Binary64.exact_zero]
  · exact hlower

theorem isUpperBound_clamped {one : Binary64} (hfinite : one.isFinite = true)
    (hexact : one.exact = 1) {number : Rat} (hupper : upper.IsUpperBound number)
    (hnumber : number ≤ 1) : (if one < upper then one else upper).IsUpperBound number := by
  apply Binary64.IsUpperBound.ite
  · rwa [Binary64.isUpperBound_iff_of_isFinite hfinite, hexact]
  · exact hupper

/-- A variable whose domain is empty admits no number. -/
theorem domain?_isEmpty {bounds : Variable} {type : VariableType}
    (hok : domain? index bounds type = .ok domain) (hempty : domain.isEmpty = true)
    (number : Rat) : ¬ bounds.Admits type number := by
  intro hadmits
  cases type with
  | real =>
      cases hok
      cases hempty
  | integer =>
      obtain ⟨hcontains, integer, rfl⟩ := hadmits
      exact integersBetween?_isEmpty hok hempty integer hcontains
  | binary =>
      obtain ⟨⟨hlower, hupper⟩, hbinary⟩ := hadmits
      have hbits : ∃ integer : Int, number = integer ∧ 0 ≤ number ∧ number ≤ 1 := by
        rcases hbinary with rfl | rfl
        · exact ⟨0, by simp⟩
        · exact ⟨1, by simp⟩
      obtain ⟨integer, rfl, hzero, hone⟩ := hbits
      simp only [domain?] at hok
      apply integersBetween?_isEmpty hok hempty integer
      refine ⟨isLowerBound_clamped hlower hzero, ?_⟩
      exact isUpperBound_clamped isFinite_ofInt_one exact_ofInt_one hupper hone
  | semiReal => cases hok
  | semiInteger => cases hok

end LinProg
