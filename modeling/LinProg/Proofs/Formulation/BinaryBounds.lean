/-
# Bounds of binary variables

Of the bounds of a binary variable nothing counts but which of zero and one lie between them.
Before they become 32-bit integers, the bounds are moved to zero and one, but each of them from
one side only: a lower bound above one stays where it is, and so does an upper bound below zero.
Most of these make an empty domain. But where the bounds are so far away that all numbers
between them lie beyond the 32-bit integers, the variable is refused, although it has no value
either.
-/
import LinProg.Proofs.Formulation.FirstRefusal

namespace LinProg

variable {index : Nat} {nearest : Binary64} {bounds : Variable} {domain : Domain}
  {error : SolverError} {number : Rat}

/-- All numbers between the bounds lie beyond the 32-bit integers on one side, and this is the
bound that they begin with there. -/
def Variable.Remote (bounds : Variable) (nearest : Binary64) : Prop :=
  nearest.isFinite = true ∧
    (nearest = bounds.lower ∧ (greatestInteger : Rat) < nearest.exact ∨
      nearest = bounds.upper ∧ nearest.exact < (leastInteger : Rat))

instance (bounds : Variable) (nearest : Binary64) : Decidable (bounds.Remote nearest) :=
  inferInstanceAs (Decidable (_ ∧ _))

theorem Variable.Remote.ofLower (hfinite : bounds.lower.isFinite = true)
    (hexact : (greatestInteger : Rat) < bounds.lower.exact) : bounds.Remote bounds.lower :=
  ⟨hfinite, .inl ⟨rfl, hexact⟩⟩

theorem Variable.Remote.ofUpper (hfinite : bounds.upper.isFinite = true)
    (hexact : bounds.upper.exact < (leastInteger : Rat)) : bounds.Remote bounds.upper :=
  ⟨hfinite, .inr ⟨rfl, hexact⟩⟩

/-- None of the numbers from the least to the greatest integer is between the bounds. -/
theorem Variable.Remote.not_contains (remote : bounds.Remote nearest)
    (hleast : (leastInteger : Rat) ≤ number) (hgreatest : number ≤ (greatestInteger : Rat)) :
    ¬ bounds.Contains number := by
  intro hcontains
  obtain ⟨hfinite, hside⟩ := remote
  cases hside with
  | inl habove =>
      obtain ⟨rfl, hexact⟩ := habove
      have hlower := (Binary64.isLowerBound_iff_of_isFinite hfinite).mp hcontains.1
      exact absurd (hlower.trans hgreatest) (not_le.mpr hexact)
  | inr hbelow =>
      obtain ⟨rfl, hexact⟩ := hbelow
      have hupper := (Binary64.isUpperBound_iff_of_isFinite hfinite).mp hcontains.2
      exact absurd (hleast.trans hupper) (not_le.mpr hexact)

theorem Variable.Remote.not_contains_bit (remote : bounds.Remote nearest) :
    ¬ bounds.Contains 0 ∧ ¬ bounds.Contains 1 := by
  have hzero : leastInteger ≤ 0 ∧ (0 : Int) ≤ greatestInteger := by decide
  have hone : leastInteger ≤ 1 ∧ (1 : Int) ≤ greatestInteger := by decide
  exact ⟨remote.not_contains (by exact_mod_cast hzero.1) (by exact_mod_cast hzero.2),
    remote.not_contains (by exact_mod_cast hone.1) (by exact_mod_cast hone.2)⟩

/-! ## Refused variables -/

/-- A lower bound that is moved up to zero can only be too great. -/
theorem hasWord_ceil_max_iff : HasWord ⌈max number 0⌉ ↔ number ≤ (greatestInteger : Rat) := by
  have hnonneg : 0 ≤ ⌈max number 0⌉ := Int.ceil_nonneg (le_max_right number 0)
  have hleast : leastInteger ≤ ⌈max number 0⌉ := le_trans (by decide) hnonneg
  have hzero : (0 : Rat) ≤ (greatestInteger : Rat) := by
    exact_mod_cast (show (0 : Int) ≤ greatestInteger by decide)
  rw [HasWord, and_iff_right hleast, Int.ceil_le, max_le_iff, and_iff_left hzero]

/-- An upper bound that is moved down to one can only be too small. -/
theorem hasWord_floor_min_iff : HasWord ⌊min number 1⌋ ↔ (leastInteger : Rat) ≤ number := by
  have hone : ⌊min number 1⌋ ≤ 1 := by
    rw [← @Int.floor_one Rat]
    exact Int.floor_mono (min_le_right number 1)
  have hgreatest : ⌊min number 1⌋ ≤ greatestInteger := hone.trans (by decide)
  have hleast : (leastInteger : Rat) ≤ 1 := by
    exact_mod_cast (show leastInteger ≤ 1 by decide)
  rw [HasWord, and_iff_left hgreatest, Int.le_floor, le_min_iff, and_iff_left hleast]

namespace Variable

theorem not_lowerFits_binary_iff : ¬ bounds.LowerFits .binary ↔
    bounds.lower.isFinite = true ∧ (greatestInteger : Rat) < bounds.lower.exact := by
  rw [lowerFits_binary_iff, hasWord_ceil_max_iff, Classical.not_imp, not_le]

theorem not_upperFits_binary_iff : ¬ bounds.UpperFits .binary ↔
    bounds.upper.isFinite = true ∧ bounds.upper.exact < (leastInteger : Rat) := by
  rw [upperFits_binary_iff, hasWord_floor_min_iff, Classical.not_imp, not_le]

/-- Bounds below the least integer do not lie above the greatest one as well. -/
theorem lowerFits_of_upper_lt (ordered : bounds.Ordered) (hfinite : bounds.upper.isFinite = true)
    (hupper : bounds.upper.exact < (leastInteger : Rat)) : bounds.LowerFits .binary := by
  rw [lowerFits_binary_iff, hasWord_ceil_max_iff]
  intro hlower
  have horder : bounds.lower.exact ≤ bounds.upper.exact :=
    (Binary64.exact_le_exact_iff hlower hfinite).mpr ordered
  have hextremes : (leastInteger : Rat) ≤ (greatestInteger : Rat) :=
    Int.cast_le.mpr leastInteger_le_greatestInteger
  exact horder.trans (hupper.le.trans hextremes)

/-- A binary variable is refused for nothing but a bound that all its numbers lie beyond. -/
theorem refused_binary_iff (ordered : bounds.Ordered) :
    bounds.Refused index .binary error ↔
      ∃ nearest, bounds.Remote nearest ∧ error = .unrepresentableBound index nearest := by
  apply Iff.intro
  · intro refused
    cases refused with
    | type htype => exact absurd (.inr (.inr rfl)) htype
    | lower hlower =>
        obtain ⟨hfinite, hexact⟩ := not_lowerFits_binary_iff.mp hlower
        exact ⟨bounds.lower, .ofLower hfinite hexact, rfl⟩
    | upper _ hupper =>
        obtain ⟨hfinite, hexact⟩ := not_upperFits_binary_iff.mp hupper
        exact ⟨bounds.upper, .ofUpper hfinite hexact, rfl⟩
  · intro hremote
    obtain ⟨nearest, ⟨hfinite, hside⟩, rfl⟩ := hremote
    cases hside with
    | inl habove =>
        obtain ⟨rfl, hexact⟩ := habove
        exact .lower (not_lowerFits_binary_iff.mpr ⟨hfinite, hexact⟩)
    | inr hbelow =>
        obtain ⟨rfl, hexact⟩ := hbelow
        exact .upper (lowerFits_of_upper_lt ordered hfinite hexact)
          (not_upperFits_binary_iff.mpr ⟨hfinite, hexact⟩)

theorem representable_binary_iff (ordered : bounds.Ordered) :
    bounds.Representable .binary ↔ ∀ nearest, ¬ bounds.Remote nearest := by
  rw [← @forall_not_refused_iff 0]
  apply Iff.intro
  · intro hnone nearest remote
    exact hnone _ ((refused_binary_iff ordered).mpr ⟨nearest, remote, rfl⟩)
  · intro hnone error refused
    obtain ⟨nearest, remote, -⟩ := (refused_binary_iff ordered).mp refused
    exact hnone nearest remote

/-! ## Empty domains -/

theorem integers_binary_eq_empty_iff :
    bounds.integers .binary = ∅ ↔ ¬ bounds.Contains 0 ∧ ¬ bounds.Contains 1 := by
  rw [Set.eq_empty_iff_forall_notMem]
  apply Iff.intro
  · intro hnone
    apply And.intro
    · intro hzero
      exact hnone 0 ⟨by decide, by decide, by exact_mod_cast hzero, .inl Int.cast_zero⟩
    · intro hone
      exact hnone 1 ⟨by decide, by decide, by exact_mod_cast hone, .inr Int.cast_one⟩
  · intro hnone integer hinteger
    obtain ⟨-, -, hcontains, hbit⟩ := hinteger
    cases hbit with
    | inl hzero => exact hnone.1 (hzero ▸ hcontains)
    | inr hone => exact hnone.2 (hone ▸ hcontains)

end Variable

/-- A binary variable that is not refused has an empty domain if zero and one are out of bounds. -/
theorem domain?_binary_isEmpty_iff (ordered : bounds.Ordered)
    (hok : domain? index bounds .binary = .ok domain) :
    domain.isEmpty = true ↔ ¬ bounds.Contains 0 ∧ ¬ bounds.Contains 1 := by
  rw [domain?_binary] at hok
  obtain ⟨least, greatest, hleast, hgreatest, rfl⟩ := integersBetween?_eq_ok_iff.mp hok
  have hintegers :=
    integers_binary_eq_integersFrom isFinite_ofInt_one exact_ofInt_one ordered hleast hgreatest
  rw [(Domain.spans_integersFrom least greatest).1, ← hintegers,
    Variable.integers_binary_eq_empty_iff]

/-! ## Programs -/

namespace Program

/-- All variables are binary, and rows name no others. -/
structure AllBinary (program : Program) : Prop where
  consistent : program.Consistent
  types : ∀ term ∈ program.objective.terms, term.type = .binary
  accepted : ∀ bounds ∈ program.vars, bounds.Accepted
  indices : ∀ constraint ∈ program.constraints, ∀ index ∈ constraint.row.indices,
    index < program.vars.length

theorem allBinary_iff {program : Program} :
    program.AllBinary ↔ program.objective.size = program.vars.length ∧
      (∀ term ∈ program.objective.terms, term.type = .binary) ∧
      (∀ bounds ∈ program.vars, bounds.lower ≤ bounds.upper) ∧
      ∀ constraint ∈ program.constraints, ∀ index ∈ constraint.row.indices,
        index < program.vars.length := by
  apply Iff.intro
  · intro binary
    exact ⟨binary.consistent, binary.types,
      fun bounds hmem => (binary.accepted bounds hmem).ordered, binary.indices⟩
  · intro hparts
    obtain ⟨consistent, types, ordered, indices⟩ := hparts
    exact ⟨consistent, types,
      fun bounds hmem => Variable.Ordered.accepted (ordered bounds hmem), indices⟩

instance (program : Program) : Decidable program.AllBinary :=
  decidable_of_iff _ allBinary_iff.symm

/-- The first variable whose numbers all lie beyond the 32-bit integers, and their bound. -/
structure FirstRemote (program : Program) (position : Nat) (nearest : Binary64) : Prop where
  remote : ∃ bounds, program.vars[position]? = some bounds ∧ bounds.Remote nearest
  first : ∀ earlier < position, ∀ bounds, program.vars[earlier]? = some bounds →
    ∀ nearest, ¬ bounds.Remote nearest

namespace AllBinary

variable {program : Program} (binary : program.AllBinary)

include binary

theorem ordered : ∀ bounds ∈ program.vars, bounds.Ordered :=
  fun bounds hmem => (binary.accepted bounds hmem).ordered

/-- Every variable has a term in the objective. -/
theorem exists_term {position : Nat} (hbounds : program.vars[position]? = some bounds) :
    ∃ term, program.objective.terms[position]? = some term ∧ term.type = .binary := by
  have hposition : position < program.objective.terms.length :=
    Nat.lt_of_lt_of_eq (List.getElem?_eq_some_iff.mp hbounds).1 binary.consistent.symm
  have hterm := List.getElem?_eq_getElem hposition
  exact ⟨_, hterm, binary.types _ (List.mem_of_getElem? hterm)⟩

theorem representableBefore_iff (limit : Nat) :
    program.RepresentableBefore limit ↔ ∀ position < limit, ∀ bounds,
      program.vars[position]? = some bounds → ∀ nearest, ¬ bounds.Remote nearest := by
  apply forall₂_congr
  intro position _
  apply forall_congr'
  intro bounds
  apply Iff.intro
  · intro representable hbounds
    obtain ⟨term, hterm, htype⟩ := binary.exists_term hbounds
    have hfits := representable term hbounds hterm
    rw [htype] at hfits
    exact (Variable.representable_binary_iff
      (binary.ordered bounds (List.mem_of_getElem? hbounds))).mp hfits
  · intro hnone term hbounds hterm
    rw [binary.types term (List.mem_of_getElem? hterm)]
    exact (Variable.representable_binary_iff
      (binary.ordered bounds (List.mem_of_getElem? hbounds))).mpr (hnone hbounds)

/-- There is a formulation unless the numbers of some variable all lie beyond the integers. -/
theorem exists_ofProgram?_iff :
    (∃ formulation, Formulation.ofProgram? program = .ok formulation) ↔
      ∀ bounds ∈ program.vars, ∀ nearest, ¬ bounds.Remote nearest := by
  rw [Formulation.exists_ofProgram?_iff binary.consistent binary.ordered,
    and_iff_left binary.indices, binary.representableBefore_iff]
  apply Iff.intro
  · intro hnone bounds hmem
    obtain ⟨position, hbounds⟩ := List.mem_iff_getElem?.mp hmem
    exact hnone position (List.getElem?_eq_some_iff.mp hbounds).1 bounds hbounds
  · intro hnone position _ bounds hbounds
    exact hnone bounds (List.mem_of_getElem? hbounds)

/-- Otherwise the first of these variables is reported. -/
theorem ofProgram?_of_firstRemote {position : Nat}
    (firstRemote : program.FirstRemote position nearest) :
    Formulation.ofProgram? program = .error (.unrepresentableBound position nearest) := by
  obtain ⟨bounds, hbounds, remote⟩ := firstRemote.remote
  obtain ⟨term, hterm, htype⟩ := binary.exists_term hbounds
  have ordered := binary.ordered bounds (List.mem_of_getElem? hbounds)
  have refused : bounds.Refused position .binary (.unrepresentableBound position nearest) :=
    (Variable.refused_binary_iff ordered).mpr ⟨nearest, remote, rfl⟩
  have hbefore := (binary.representableBefore_iff position).mpr firstRemote.first
  rw [Formulation.ofProgram?_eq_error_iff_first binary.consistent binary.ordered]
  exact .column hbounds hterm hbefore (htype ▸ refused)

/-- A variable that can be neither zero nor one makes the formulation unsatisfiable. -/
theorem unsatisfiable_of_not_contains {formulation : Formulation}
    (hok : Formulation.ofProgram? program = .ok formulation) (hmem : bounds ∈ program.vars)
    (hneither : ¬ bounds.Contains 0 ∧ ¬ bounds.Contains 1) : formulation.unsatisfiable = true := by
  obtain ⟨position, hbounds⟩ := List.mem_iff_getElem?.mp hmem
  obtain ⟨term, hterm, htype⟩ := binary.exists_term hbounds
  have hitem : (Formulation.variablesOf program)[position]? = some ((bounds, term), position) :=
    Formulation.getElem?_variablesOf.mpr ⟨hbounds, hterm, rfl⟩
  obtain ⟨columns, hcolumns, -, rfl⟩ := Formulation.ofProgram?_eq_ok_iff.mp hok
  obtain ⟨column, hcolumn, hmade⟩ :=
    exists_of_mem_forall₂ hcolumns.flip (List.mem_of_getElem? hitem)
  obtain ⟨domain, hdomain, rfl⟩ := Formulation.column?_eq_ok_iff.mp hmade
  rw [htype] at hdomain
  have hempty : domain.isEmpty = true :=
    (domain?_binary_isEmpty_iff (binary.ordered bounds hmem) hdomain).mpr hneither
  have hany : columns.any (fun column => column.domain.isEmpty) = true :=
    List.any_eq_true.mpr ⟨_, hcolumn, hempty⟩
  simp only [hany, Bool.true_or]

end AllBinary

end Program

end LinProg
