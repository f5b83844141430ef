/-
# Finding constraints by equality

Constraints are equal if their rows store equal values at the same indices, in any order, and if
their bounds are near. So equality can be used to find constraints in a program again, also those
whose terms are stored in another order. It is reflexive and symmetric where no double is
undefined, and the same holds for programs. It is not transitive, since small differences of
bounds add up.
-/
import LinProg.Program.Edit
import LinProg.Proofs.Program.Equality

namespace LinProg

/-- No double is undefined, and no index is stored twice. -/
structure Constraint.Comparable (constraint : Constraint) : Prop extends constraint.NanFree where
  distinct : constraint.row.Distinct

/-- Constraints are equal exactly if they store equal values at the same indices within bounds
that are near. -/
theorem Constraint.beq_iff {left right : Constraint} (hleft : left.Comparable)
    (hright : right.Comparable) :
    (left == right) = true ↔ (∀ index, left.row.SameAt right.row index) ∧
      left.lower.Near right.lower ∧ left.upper.Near right.upper := by
  show left.isSame right = true ↔ _
  rw [isSame, Bool.and_eq_true, Bool.and_eq_true, boundsAgree_iff_near hleft.lower,
    boundsAgree_iff_near hleft.upper, hleft.distinct.beq_iff_sameAt hright.distinct]
  exact and_comm

namespace Program

/-- No double is undefined, and no row stores an index twice. -/
structure Comparable (program : Program) : Prop extends program.NanFree where
  distinct : ∀ constraint ∈ program.constraints, constraint.row.Distinct

/-- Constraints that were added are found, in whatever order their terms are asked for. -/
theorem contains_of_reordered (program : Program) {added : List Constraint}
    {constraint wanted : Constraint} (hmem : constraint ∈ added)
    (comparable : constraint.Comparable) (reordered : constraint.Reordered wanted) :
    (program.addConstraints added).constraints.contains wanted = true := by
  apply List.contains_iff_exists_mem_beq.mpr
  refine ⟨constraint, List.mem_append_right _ hmem, ?_⟩
  rw [Constraint.beq_comm]
  exact reordered.beq comparable.toNanFree comparable.distinct

/-- Equality finds constraints. On comparable constraints and on comparable programs it is
reflexive and symmetric and does not see the order of stored terms. Two constraints are equal
exactly if at every index their rows store nothing or equal values, and if each bound is the
same or near, which for an infinite bound means the same. So a program contains all constraints
that were added to it, and all that differ from them in the order of terms. -/
theorem equality_finds_constraints :
    (∀ left right : Constraint, left.Comparable → right.Comparable →
      (left == left) = true ∧ (left == right) = (right == left) ∧
        (∀ left' right', left.Reordered left' → right.Reordered right' →
          (left' == right') = (left == right)) ∧
        ((left == right) = true ↔ (∀ index, left.row.SameAt right.row index) ∧
          left.lower.Near right.lower ∧ left.upper.Near right.upper)) ∧
      (∀ negative bound, (Binary64.infinity negative).Near bound ↔ bound = .infinity negative) ∧
      (∀ left right : Program, left.Comparable → right.Comparable →
        (left == left) = true ∧ (left == right) = (right == left) ∧
          ∀ left' right', left.Reordered left' → right.Reordered right' →
            (left' == right') = (left == right)) ∧
      ∀ (program : Program) (added : List Constraint),
        (∀ constraint ∈ added, constraint.Comparable) → ∀ constraint ∈ added,
          (program.addConstraints added).constraints.contains constraint = true ∧
            ∀ wanted, constraint.Reordered wanted →
              (program.addConstraints added).constraints.contains wanted = true := by
  refine ⟨?_, fun negative _ => Binary64.near_infinity_iff negative, ?_, ?_⟩
  · intro left right hleft hright
    exact ⟨hleft.toNanFree.beq_self, left.beq_comm right,
      fun _ _ => Constraint.beq_congr hleft.distinct hright.distinct,
      Constraint.beq_iff hleft hright⟩
  · intro left right hleft hright
    exact ⟨hleft.toNanFree.beq_self, left.beq_comm right,
      fun _ _ => beq_congr hleft.distinct hright.distinct⟩
  · intro program added comparable constraint hmem
    have hcomparable := comparable constraint hmem
    exact ⟨program.contains_of_reordered hmem hcomparable (.refl constraint),
      fun _ => program.contains_of_reordered hmem hcomparable⟩

/-- Three bounds of which each is within the tolerance of the next, but the first is not within
that of the last. A row in another order makes no difference. -/
theorem equality_finds_constraints_three_bounds :
    let row : Entry Binary64 := ⟨[(2, .ofInt 1), (0, .ofInt 3)]⟩
    let first : Constraint := ⟨row, .negInf, 0⟩
    let rearranged : Constraint := ⟨⟨[(0, .ofInt 3), (2, .ofInt 1)]⟩, .negInf, 0⟩
    let second : Constraint := ⟨row, .negInf, .ofDecimal false 1 (-15)⟩
    let third : Constraint := ⟨row, .negInf, .ofDecimal false 2 (-15)⟩
    let program : Program := .ofConstraints .minimize [first, third]
    (first.Comparable ∧ second.Comparable ∧ third.Comparable ∧ program.Comparable) ∧
      first.Reordered rearranged ∧
      (rearranged == second) = true ∧ (second == third) = true ∧ (first == third) = false ∧
      (program == .ofConstraints .minimize [rearranged, third]) = true ∧
      (program.addConstraints [second, first]).constraints.contains rearranged = true := by
  intro row first rearranged second third program
  have hvalues : ∀ value ∈ row.values, value ≠ .nan := by decide +kernel
  have hdistinct : row.Distinct := show row.indices.Nodup by decide
  have hlower : (.negInf : Binary64) ≠ .nan := by decide +kernel
  have hfirst : first.Comparable := ⟨⟨hlower, by decide +kernel, hvalues⟩, hdistinct⟩
  have hsecond : second.Comparable := ⟨⟨hlower, by decide +kernel, hvalues⟩, hdistinct⟩
  have hthird : third.Comparable := ⟨⟨hlower, by decide +kernel, hvalues⟩, hdistinct⟩
  have hadded : ∀ constraint ∈ [second, first], constraint.Comparable :=
    List.forall_mem_cons.mpr ⟨hsecond, List.forall_mem_singleton.mpr hfirst⟩
  have hheld : ∀ constraint ∈ [first, third], constraint.Comparable :=
    List.forall_mem_cons.mpr ⟨hfirst, List.forall_mem_singleton.mpr hthird⟩
  have hprogram : program.Comparable :=
    { constraints := fun constraint hmem => (hheld constraint hmem).toNanFree
      objective := by simp [program, Program.ofConstraints, Program.empty, Objective.empty]
      vars := by simp [program, Program.ofConstraints, Program.empty]
      distinct := fun constraint hmem => (hheld constraint hmem).distinct }
  have hrearranged : first.Reordered rearranged := ⟨.swap _ _ _, rfl, rfl⟩
  obtain ⟨hconstraints, -, hprograms, hfound⟩ := equality_finds_constraints
  -- The three constraints share their row, so that it compares as it does with itself.
  obtain ⟨hself, -, -, hequal⟩ := hconstraints first first hfirst hfirst
  have hrow := (hequal.mp hself).1
  have hnear : (first == second) = true :=
    (hconstraints first second hfirst hsecond).2.2.2.mpr ⟨hrow, .inl rfl, by decide +kernel⟩
  have hnext : (second == third) = true :=
    (hconstraints second third hsecond hthird).2.2.2.mpr ⟨hrow, .inl rfl, by decide +kernel⟩
  have hfar : ¬ first.upper.Near third.upper := by decide +kernel
  refine ⟨⟨hfirst, hsecond, hthird, hprogram⟩, hrearranged, ?_, hnext, ?_, ?_, ?_⟩
  · rw [(hconstraints first second hfirst hsecond).2.2.1 rearranged second hrearranged (.refl _)]
    exact hnear
  · rw [← Bool.not_eq_true, (hconstraints first third hfirst hthird).2.2.2]
    exact fun hsame => hfar hsame.2.2
  · have hrows : program.Reordered (.ofConstraints .minimize [rearranged, third]) :=
      ⟨rfl, .cons hrearranged (.cons (.refl third) .nil), rfl, rfl, rfl⟩
    obtain ⟨hsame, -, hcongr⟩ := hprograms program program hprogram hprogram
    rw [hcongr program _ (.refl program) hrows]
    exact hsame
  · exact (hfound program [second, first] hadded first (by simp)).2 rearranged hrearranged

end Program

end LinProg
