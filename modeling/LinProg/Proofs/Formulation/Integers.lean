/-
# The integers that an engine is given

A variable of an integer type may take the 32-bit integers within its bounds, and a binary
one only zero and one of them. An engine is given the first and the last of these, or the
variable is reported to have none. This is exact for all bounds of a binary variable. For an
integer variable it is not if both bounds are the same infinity: no integer is within them,
but each infinity stands for the extreme integer on its side, and so this one is let through.
-/
import LinProg.Proofs.Formulation.Domains
import LinProg.Proofs.Program.WellFormed
import Mathlib.Order.Bounds.Basic

namespace LinProg

variable {index : Nat} {bound lower upper : Binary64} {least greatest integer : Int}
  {bounds : Variable} {type : VariableType} {domain : Domain}

/-- The 32-bit integers that a variable of a type may take. -/
def Variable.integers (bounds : Variable) (type : VariableType) : Set Int :=
  {integer | leastInteger ≤ integer ∧ integer ≤ greatestInteger ∧ bounds.Admits type integer}

/-- A domain is reported empty if there are no such values. Otherwise an engine is given the
least and the greatest of them. -/
def Domain.Spans (domain : Domain) (values : Set Int) : Prop :=
  (domain.isEmpty = true ↔ values = ∅) ∧
    (domain.isEmpty = false → ∃ least greatest, domain.orZero = .integral least greatest ∧
      IsLeast values least ∧ IsGreatest values greatest)

/-- The integers from one to another. -/
def integersFrom (least greatest : Int) : Set Int :=
  {integer | least ≤ integer ∧ integer ≤ greatest}

theorem integersFrom_eq_empty_iff : integersFrom least greatest = ∅ ↔ greatest < least := by
  rw [Set.eq_empty_iff_forall_notMem]
  apply Iff.intro
  · intro hnone
    exact not_le.mp fun horder => hnone least ⟨le_rfl, horder⟩
  · rintro hreversed integer ⟨hleast, hgreatest⟩
    exact not_le.mpr hreversed (hleast.trans hgreatest)

theorem Domain.spans_integersFrom (least greatest : Int) :
    (Domain.integral least greatest).Spans (integersFrom least greatest) := by
  have hempty : (Domain.integral least greatest).isEmpty = true ↔ greatest < least := by
    simp [Domain.isEmpty]
  refine ⟨hempty.trans integersFrom_eq_empty_iff.symm, fun hvalues => ?_⟩
  have horder : least ≤ greatest :=
    not_lt.mp fun hreversed => by simp [hempty.mpr hreversed] at hvalues
  have hkept : (Domain.integral least greatest).orZero = .integral least greatest := by
    simp [Domain.orZero, hvalues]
  refine ⟨least, greatest, hkept, ⟨⟨le_rfl, horder⟩, ?_⟩, ⟨⟨horder, le_rfl⟩, ?_⟩⟩
  · exact fun integer hinside => hinside.1
  · exact fun integer hinside => hinside.2

/-! ## Integer variables -/

/-- The integers between other bounds than the far infinities are those of the domain. -/
theorem integers_integer_eq_integersFrom
    (hleast : integerBound? index bounds.lower bounds.lower.ceil? = .ok least)
    (hgreatest : integerBound? index bounds.upper bounds.upper.floor? = .ok greatest)
    (hlower : bounds.lower ≠ .posInf) (hupper : bounds.upper ≠ .negInf) :
    bounds.integers .integer = integersFrom least greatest := by
  have hleastRange := integerBound?_mem hleast
  have hgreatestRange := integerBound?_mem hgreatest
  ext integer
  apply Iff.intro
  · rintro ⟨hbelow, habove, ⟨hcontainsLower, hcontainsUpper⟩, -⟩
    exact ⟨(integerBound?_ceil_le_iff hleast hlower hbelow).mpr hcontainsLower,
      (le_integerBound?_floor_iff hgreatest hupper habove).mpr hcontainsUpper⟩
  · rintro ⟨hleastLe, hleGreatest⟩
    have hbelow : leastInteger ≤ integer := hleastRange.1.trans hleastLe
    have habove : integer ≤ greatestInteger := hleGreatest.trans hgreatestRange.2
    exact ⟨hbelow, habove, ⟨(integerBound?_ceil_le_iff hleast hlower hbelow).mp hleastLe,
      (le_integerBound?_floor_iff hgreatest hupper habove).mp hleGreatest⟩, integer, rfl⟩

/-- Nothing lies above positive infinity, or below negative infinity. -/
theorem integers_integer_eq_empty (hfar : bounds.lower = .posInf ∨ bounds.upper = .negInf) :
    bounds.integers .integer = ∅ := by
  rw [Set.eq_empty_iff_forall_notMem]
  rintro integer ⟨-, -, ⟨hlower, hupper⟩, -⟩
  rcases hfar with hfar | hfar
  · exact hlower.ne_posInf hfar
  · exact hupper.ne_negInf hfar

/-- If both bounds are the same infinity, the engine is given one extreme integer. -/
theorem isEmpty_of_far (ordered : bounds.Ordered)
    (hfar : bounds.lower = .posInf ∨ bounds.upper = .negInf)
    (hok : domain? index bounds .integer = .ok domain) : domain.isEmpty = false := by
  obtain ⟨least, greatest, hleast, hgreatest, rfl⟩ := integersBetween?_eq_ok_iff.mp hok
  have hleastRange := integerBound?_mem hleast
  have hgreatestRange := integerBound?_mem hgreatest
  rw [integerBound?_eq_ok_iff] at hleast hgreatest
  have horder : least ≤ greatest := by
    rcases hfar with hlower | hupper
    · have hupper : bounds.upper = .posInf :=
        Binary64.eq_posInf_of_le (by rw [← hlower]; exact ordered)
      rw [hupper, if_neg nofun, if_pos rfl] at hgreatest
      omega
    · have hlower : bounds.lower = .negInf :=
        Binary64.eq_negInf_of_le (by rw [← hupper]; exact ordered)
      rw [hlower, if_pos rfl] at hleast
      omega
  simpa [Domain.isEmpty] using horder

/-! ## Binary variables -/

section Binary

-- The double one is known by its value only, so that nothing tries to evaluate it.
variable {one : Binary64} (hfinite : one.isFinite = true) (hexact : one.exact = 1)

/-- The bounds of a binary variable, moved to zero and one where these are narrower. -/
def Variable.clamped (one : Binary64) (bounds : Variable) : Variable where
  lower := if bounds.lower < 0 then 0 else bounds.lower
  upper := if one < bounds.upper then one else bounds.upper

/-- Binary variables get the domain of an integer variable with moved bounds. -/
theorem domain?_binary (index : Nat) (bounds : Variable) :
    domain? index bounds .binary = domain? index (bounds.clamped (.ofInt 1)) .integer := by
  simp only [domain?, Variable.clamped]

theorem zero_le_clamped_lower (hnumber : bounds.lower ≠ .nan) :
    0 ≤ (bounds.clamped one).lower := by
  simp only [Variable.clamped]
  split
  · decide +kernel
  · case isFalse hpositive => exact Binary64.le_of_not_lt hnumber nofun hpositive

include hfinite in
theorem clamped_upper_le (hnumber : bounds.upper ≠ .nan) :
    (bounds.clamped one).upper ≤ one := by
  simp only [Variable.clamped]
  split
  · exact (Binary64.exact_le_exact_iff hfinite hfinite).mp le_rfl
  · case isFalse hsmall =>
      exact Binary64.le_of_not_lt (Binary64.ne_nan_of_isFinite hfinite) hnumber hsmall

include hfinite hexact

/-- Moving the bounds leaves the numbers from zero to one as they were, and no others. -/
theorem contains_clamped_iff (ordered : bounds.Ordered) {number : Rat} :
    (bounds.clamped one).Contains number ↔
      (0 ≤ number ∧ number ≤ 1) ∧ bounds.Contains number := by
  apply Iff.intro
  · rintro ⟨hlower, hupper⟩
    have hzero := (Binary64.isLowerBound_iff_of_isFinite rfl).mp
      (hlower.of_le (zero_le_clamped_lower ordered.ne_nan.1))
    have hone := (Binary64.isUpperBound_iff_of_isFinite hfinite).mp
      (hupper.of_le (clamped_upper_le hfinite ordered.ne_nan.2))
    rw [Binary64.exact_zero] at hzero
    rw [hexact] at hone
    simp only [Variable.clamped] at hlower hupper
    refine ⟨⟨hzero, hone⟩, ?_, ?_⟩
    · by_cases hnegative : bounds.lower < 0
      · rw [if_pos hnegative] at hlower
        exact hlower.of_le (Binary64.le_of_lt hnegative)
      · rwa [if_neg hnegative] at hlower
    · by_cases hlarge : one < bounds.upper
      · rw [if_pos hlarge] at hupper
        exact hupper.of_le (Binary64.le_of_lt hlarge)
      · rwa [if_neg hlarge] at hupper
  · rintro ⟨⟨hzero, hone⟩, hlower, hupper⟩
    exact ⟨isLowerBound_clamped hlower hzero, isUpperBound_clamped hfinite hexact hupper hone⟩

theorem integers_binary (ordered : bounds.Ordered) :
    bounds.integers .binary = (bounds.clamped one).integers .integer := by
  ext integer
  have hbits : (integer : Rat) = 0 ∨ (integer : Rat) = 1 ↔
      (0 : Rat) ≤ integer ∧ (integer : Rat) ≤ 1 := by
    norm_cast
    omega
  have hinteger : ∃ other : Int, (integer : Rat) = other := ⟨integer, rfl⟩
  simp only [Variable.integers, Variable.Admits, Set.mem_ofPred_eq,
    contains_clamped_iff hfinite hexact ordered, hbits, and_iff_left hinteger,
    and_comm (b := bounds.Contains _)]

/-- A bound that is not above one ends at an integer that is not above one. -/
theorem integerBound?_floor_le_one (hbound : bound ≤ one)
    (hok : integerBound? index bound bound.floor? = .ok greatest) : greatest ≤ 1 := by
  by_cases hfar : bound = .negInf
  · rw [integerBound?_eq_ok_iff, if_pos hfar] at hok
    rw [hok]
    decide
  · have hrange := integerBound?_mem hok
    have hupper : bound.IsUpperBound greatest :=
      (le_integerBound?_floor_iff hok hfar hrange.2).mp le_rfl
    have hone := (Binary64.isUpperBound_iff_of_isFinite hfinite).mp (hupper.of_le hbound)
    rw [hexact] at hone
    exact_mod_cast hone

omit hfinite hexact in
/-- A bound that is not negative begins at an integer that is not negative. -/
theorem zero_le_integerBound?_ceil (hbound : 0 ≤ bound)
    (hok : integerBound? index bound bound.ceil? = .ok least) : 0 ≤ least := by
  by_cases hfar : bound = .posInf
  · rw [integerBound?_eq_ok_iff, hfar, if_neg nofun, if_pos rfl] at hok
    rw [hok]
    decide
  · have hrange := integerBound?_mem hok
    have hlower : bound.IsLowerBound least :=
      (integerBound?_ceil_le_iff hok hfar hrange.1).mp le_rfl
    have hzero := (Binary64.isLowerBound_iff_of_isFinite rfl).mp (hlower.of_le hbound)
    rw [Binary64.exact_zero] at hzero
    exact_mod_cast hzero

/-- The domain of a binary variable is exact for all bounds: of the two moved bounds, an
infinite one lies far beyond the other, so that both leave nothing. -/
theorem integers_binary_eq_integersFrom (ordered : bounds.Ordered)
    (hleast : integerBound? index (bounds.clamped one).lower
      (bounds.clamped one).lower.ceil? = .ok least)
    (hgreatest : integerBound? index (bounds.clamped one).upper
      (bounds.clamped one).upper.floor? = .ok greatest) :
    bounds.integers .binary = integersFrom least greatest := by
  rw [integers_binary hfinite hexact ordered]
  by_cases hfar : (bounds.clamped one).lower = .posInf ∨ (bounds.clamped one).upper = .negInf
  · have hzero := zero_le_integerBound?_ceil (zero_le_clamped_lower ordered.ne_nan.1) hleast
    have hone := integerBound?_floor_le_one hfinite hexact
      (clamped_upper_le hfinite ordered.ne_nan.2) hgreatest
    have hextremes : leastInteger < 0 ∧ 1 < greatestInteger := by decide
    rw [integers_integer_eq_empty hfar, eq_comm, integersFrom_eq_empty_iff]
    rw [integerBound?_eq_ok_iff] at hleast hgreatest
    rcases hfar with hlower | hupper
    · rw [hlower, if_neg nofun, if_pos rfl] at hleast
      omega
    · rw [if_pos hupper] at hgreatest
      omega
  · rw [not_or] at hfar
    exact integers_integer_eq_integersFrom hleast hgreatest hfar.1 hfar.2

end Binary

/-! ## Both types -/

/-- An engine is given the first and the last integer that an integer or binary variable may
take, or the variable is reported to have none, for all bounds but one kind: an integer
variable whose bounds are the same infinity. -/
theorem domain?_spans_iff (accepted : bounds.Accepted) (htype : type = .integer ∨ type = .binary)
    (hok : domain? index bounds type = .ok domain) :
    domain.Spans (bounds.integers type) ↔
      ¬ (type = .integer ∧ (bounds.lower = .posInf ∨ bounds.upper = .negInf)) := by
  have ordered := accepted.ordered
  rcases htype with rfl | rfl
  · by_cases hfar : bounds.lower = .posInf ∨ bounds.upper = .negInf
    · refine iff_of_false (fun spans => ?_) (fun hexact => hexact ⟨rfl, hfar⟩)
      have hempty := spans.1.mpr (integers_integer_eq_empty hfar)
      rw [isEmpty_of_far ordered hfar hok] at hempty
      cases hempty
    · refine iff_of_true ?_ (fun hsame => hfar hsame.2)
      obtain ⟨least, greatest, hleast, hgreatest, rfl⟩ := integersBetween?_eq_ok_iff.mp hok
      rw [not_or] at hfar
      rw [integers_integer_eq_integersFrom hleast hgreatest hfar.1 hfar.2]
      exact Domain.spans_integersFrom least greatest
  · refine iff_of_true ?_ (fun hsame => nomatch hsame.1)
    rw [domain?_binary] at hok
    obtain ⟨least, greatest, hleast, hgreatest, rfl⟩ := integersBetween?_eq_ok_iff.mp hok
    rw [integers_binary_eq_integersFrom isFinite_ofInt_one exact_ofInt_one ordered hleast hgreatest]
    exact Domain.spans_integersFrom least greatest

/-- Without a lower bound and up to two and a half. -/
theorem domain?_spans_iff_unbounded :
    let bounds : Variable := ⟨.negInf, .ofDecimal false 25 (-1)⟩
    bounds.Accepted ∧ domain? 0 bounds .integer = .ok (.integral leastInteger 2) ∧
      IsLeast (bounds.integers .integer) leastInteger ∧
      IsGreatest (bounds.integers .integer) 2 := by
  intro bounds
  have accepted : bounds.Accepted :=
    ⟨_, _, (Variable.between?_eq_ok_iff _ _ _).mpr ⟨by decide +kernel, rfl⟩⟩
  have hok : domain? 0 bounds .integer = .ok (.integral leastInteger 2) :=
    toOption_eq_some_iff.mp (by decide +kernel)
  have hnear : ¬ (VariableType.integer = .integer ∧
      (bounds.lower = .posInf ∨ bounds.upper = .negInf)) := by
    decide +kernel
  have spans := (domain?_spans_iff accepted (.inl rfl) hok).mpr hnear
  obtain ⟨least, greatest, hkept, hleast, hgreatest⟩ := spans.2 (by decide)
  obtain ⟨rfl, rfl⟩ : leastInteger = least ∧ 2 = greatest := by
    simpa [Domain.orZero, Domain.isEmpty, leastInteger] using hkept
  exact ⟨accepted, hok, hleast, hgreatest⟩

/-- The greatest 32-bit integer is offered for a variable that is to be infinite. -/
theorem domain?_not_spans_infinite :
    let bounds : Variable := ⟨.posInf, .posInf⟩
    let domain : Domain := .integral greatestInteger greatestInteger
    Variable.between? .posInf .posInf = .ok bounds ∧ domain? 0 bounds .integer = .ok domain ∧
      domain.isEmpty = false ∧ bounds.integers .integer = ∅ ∧
      ¬ domain.Spans (bounds.integers .integer) := by
  intro bounds domain
  have hbetween : Variable.between? .posInf .posInf = .ok bounds :=
    (Variable.between?_eq_ok_iff _ _ _).mpr ⟨by decide +kernel, rfl⟩
  have hempty : bounds.integers .integer = ∅ := integers_integer_eq_empty (.inl rfl)
  refine ⟨hbetween, integersBetween?_eq_ok_iff.mpr ⟨_, _, ?_, ?_, rfl⟩, rfl, hempty, ?_⟩
  · exact integerBound?_eq_ok_iff.mpr rfl
  · exact integerBound?_eq_ok_iff.mpr rfl
  · intro spans
    exact absurd (spans.1.mpr hempty) (by decide)

end LinProg
