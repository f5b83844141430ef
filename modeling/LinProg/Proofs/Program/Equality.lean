/-
# Equality of programs

Programs are equal when their parts are, in order. Only in the rows does the order of the
stored terms play no part, and a program with rearranged rows compares as it did before. So two
programs that differ in nothing but that are equal. This takes that no double in them is
undefined, since such a value differs even from itself. Equality is symmetric in any case.
-/
import LinProg.Program.Basic
import LinProg.Proofs.Program.Tolerance
import LinProg.Proofs.Program.WellFormed
import LinProg.Proofs.Sparse.Equality

namespace LinProg

/-! ## Parts in order -/

theorem Variable.beq_comm (left right : Variable) : (left == right) = (right == left) := by
  show left.isSame right = right.isSame left
  rw [isSame, isSame, @Binary64.beq_comm left.lower, @Binary64.beq_comm left.upper]

theorem ObjectiveTerm.beq_comm (left right : ObjectiveTerm) :
    (left == right) = (right == left) := by
  show left.isSame right = right.isSame left
  rw [isSame, isSame, Binary64.beq_comm, BEq.comm (a := left.type)]

theorem Constraint.beq_comm (left right : Constraint) : (left == right) = (right == left) := by
  show left.isSame right = right.isSame left
  rw [isSame, isSame, boundsAgree_comm left.lower, boundsAgree_comm left.upper,
    Entry.beq_comm fun _ _ => Binary64.beq_comm]

theorem Program.beq_comm (left right : Program) : (left == right) = (right == left) := by
  show left.isSame right = right.isSame left
  have hobjective : (left.objective == right.objective) = (right.objective == left.objective) :=
    list_beq_comm ObjectiveTerm.beq_comm _ _
  rw [isSame, isSame, list_beq_comm Constraint.beq_comm, hobjective,
    list_beq_comm Variable.beq_comm, BEq.comm (a := left.initialized), decide_eq_decide.mpr eq_comm]

/-! ## Undefined values -/

/-- Both bounds are defined. -/
def Variable.NanFree (bounds : Variable) : Prop :=
  bounds.lower ≠ .nan ∧ bounds.upper ≠ .nan

theorem Variable.NanFree.beq_self {bounds : Variable} (nanFree : bounds.NanFree) :
    (bounds == bounds) = true := by
  show bounds.isSame bounds = true
  rw [isSame, (Binary64.beq_self_iff _).mpr nanFree.1, (Binary64.beq_self_iff _).mpr nanFree.2]
  rfl

theorem ObjectiveTerm.beq_self {term : ObjectiveTerm} (hdefined : term.coefficient ≠ .nan) :
    (term == term) = true := by
  show term.isSame term = true
  rw [isSame, (Binary64.beq_self_iff _).mpr hdefined, beq_self_eq_true]
  rfl

/-- Both bounds and all stored values are defined. -/
structure Constraint.NanFree (constraint : Constraint) : Prop where
  lower : constraint.lower ≠ .nan
  upper : constraint.upper ≠ .nan
  values : ∀ value ∈ constraint.row.values, value ≠ .nan

theorem Constraint.NanFree.beq_self {constraint : Constraint} (nanFree : constraint.NanFree) :
    (constraint == constraint) = true := by
  have hrow : (constraint.row == constraint.row) = true := by
    apply Entry.beq_self
    intro value hmem
    exact (Binary64.beq_self_iff value).mpr (nanFree.values value hmem)
  show constraint.isSame constraint = true
  rw [isSame, boundsAgree_self nanFree.lower, boundsAgree_self nanFree.upper, hrow]
  rfl

namespace Program

/-- All doubles of a program are defined. -/
structure NanFree (program : Program) : Prop where
  constraints : ∀ constraint ∈ program.constraints, constraint.NanFree
  objective : ∀ term ∈ program.objective.terms, term.coefficient ≠ .nan
  vars : ∀ bounds ∈ program.vars, bounds.NanFree

namespace NanFree

variable {program : Program}

theorem beq_self (nanFree : program.NanFree) : (program == program) = true := by
  have hconstraints : (program.constraints == program.constraints) = true :=
    list_beq_self fun constraint hmem => (nanFree.constraints constraint hmem).beq_self
  have hobjective : (program.objective == program.objective) = true :=
    list_beq_self fun term hmem => ObjectiveTerm.beq_self (nanFree.objective term hmem)
  have hvars : (program.vars == program.vars) = true :=
    list_beq_self fun bounds hmem => (nanFree.vars bounds hmem).beq_self
  show program.isSame program = true
  simp [isSame, hconstraints, hobjective, hvars]

theorem addConstraints (nanFree : program.NanFree) {added : List Constraint}
    (hadded : ∀ constraint ∈ added, constraint.NanFree) :
    (program.addConstraints added).NanFree := by
  refine ⟨?_, nanFree.objective, nanFree.vars⟩
  intro constraint hmem
  cases List.mem_append.mp hmem with
  | inl hmem => exact nanFree.constraints constraint hmem
  | inr hmem => exact hadded constraint hmem

theorem addVariables (nanFree : program.NanFree) {added : List Variable}
    (ordered : ∀ bounds ∈ added, bounds.Ordered) : (program.addVariables added).NanFree := by
  refine ⟨nanFree.constraints, ?_, ?_⟩
  · intro term hmem
    cases List.mem_append.mp hmem with
    | inl hmem => exact nanFree.objective term hmem
    | inr hmem =>
        rw [List.eq_of_mem_replicate hmem]
        exact nofun
  · intro bounds hmem
    cases List.mem_append.mp hmem with
    | inl hmem => exact nanFree.vars bounds hmem
    | inr hmem => exact (ordered bounds hmem).ne_nan

end NanFree

end Program

/-! ## The order of stored terms -/

/-- The same constraint, up to the order in which its row stores terms. -/
structure Constraint.Reordered (left right : Constraint) : Prop where
  terms : left.row.terms.Perm right.row.terms
  lower : left.lower = right.lower
  upper : left.upper = right.upper

namespace Constraint

variable {left right : Constraint}

theorem Reordered.refl (constraint : Constraint) : constraint.Reordered constraint :=
  ⟨.refl _, rfl, rfl⟩

/-- Rearranged rows do not show in a comparison. -/
theorem beq_congr (hleft : left.row.Distinct) (hright : right.row.Distinct)
    {left' right' : Constraint} (leftReordered : left.Reordered left')
    (rightReordered : right.Reordered right') : (left' == right') = (left == right) := by
  show left'.isSame right' = left.isSame right
  rw [isSame, isSame, hleft.beq_congr hright leftReordered.terms rightReordered.terms,
    leftReordered.lower, leftReordered.upper, rightReordered.lower, rightReordered.upper]

theorem Reordered.beq (reordered : left.Reordered right) (nanFree : left.NanFree)
    (distinct : left.row.Distinct) : (left == right) = true := by
  rw [beq_congr distinct distinct (.refl left) reordered]
  exact nanFree.beq_self

end Constraint

namespace Program

/-- The same program, up to the order in which its rows store terms. -/
structure Reordered (left right : Program) : Prop where
  sense : left.sense = right.sense
  constraints : List.Forall₂ Constraint.Reordered left.constraints right.constraints
  objective : left.objective = right.objective
  vars : left.vars = right.vars
  initialized : left.initialized = right.initialized

variable {left right : Program}

theorem Reordered.refl (program : Program) : program.Reordered program :=
  ⟨rfl, List.forall₂_same.mpr fun constraint _ => .refl constraint, rfl, rfl, rfl⟩

/-- Rearranged rows do not show in a comparison. -/
theorem beq_congr (hleft : ∀ constraint ∈ left.constraints, constraint.row.Distinct)
    (hright : ∀ constraint ∈ right.constraints, constraint.row.Distinct)
    {left' right' : Program} (leftReordered : left.Reordered left')
    (rightReordered : right.Reordered right') : (left' == right') = (left == right) := by
  have hconstraints : (left'.constraints == right'.constraints) =
      (left.constraints == right.constraints) := by
    have leftRows := (List.forall₂_and_left _ _).mpr ⟨hleft, leftReordered.constraints⟩
    have rightRows := (List.forall₂_and_left _ _).mpr ⟨hright, rightReordered.constraints⟩
    apply list_beq_congr _ leftRows rightRows
    intro first first' second second' hfirst hsecond
    exact Constraint.beq_congr hfirst.1 hsecond.1 hfirst.2 hsecond.2
  show left'.isSame right' = left.isSame right
  rw [isSame, isSame, hconstraints, leftReordered.sense, leftReordered.objective,
    leftReordered.vars, leftReordered.initialized, rightReordered.sense, rightReordered.objective,
    rightReordered.vars, rightReordered.initialized]

/-- Programs with the same terms in another order are equal. -/
theorem Reordered.beq (reordered : left.Reordered right) (nanFree : left.NanFree)
    (distinct : ∀ constraint ∈ left.constraints, constraint.row.Distinct) :
    (left == right) = true := by
  rw [beq_congr distinct distinct (.refl left) reordered]
  exact nanFree.beq_self

end Program

end LinProg
