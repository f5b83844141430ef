/-
# Taking a variable out of a program

A variable goes with its bounds, its objective term and its column, and all later variables
move down by one. Nothing else happens: the constraints stay in their order with their bounds,
and each row stores at a new number what it stored at the former one, also for indices that
belong to no variable yet. So a point that is zero at the variable gives every row and the
objective the value that it gave them before.
-/
import LinProg.Solver.Session
import LinProg.Proofs.Checks
import LinProg.Proofs.Program.Consistent
import LinProg.Proofs.Sparse.Removal

namespace LinProg

open Entry (formerIndex)

/-- Elements that stay have their former positions, counted without the removed one. -/
theorem getElem?_eraseIdx_former {α : Type} (elements : List α) (removed position : Nat) :
    (elements.eraseIdx removed)[position]? = elements[formerIndex removed position]? := by
  rw [List.getElem?_eraseIdx, formerIndex]
  split <;> rfl

/-- Value of objective terms at a point, the first of them for the variable zero. -/
def Objective.valueAt (objective : Objective) (point : Nat → Rat) : Rat :=
  (objective.terms.zipIdx.map fun item => item.1.coefficient.exact * point item.2).sum

theorem Objective.valueAt_cons (term : ObjectiveTerm) (rest : List ObjectiveTerm)
    (point : Nat → Rat) :
    (⟨term :: rest⟩ : Objective).valueAt point =
      term.coefficient.exact * point 0 +
        (⟨rest⟩ : Objective).valueAt fun position => point (position + 1) := by
  simp only [valueAt, List.zipIdx_cons', List.map_cons, List.sum_cons, List.map_map]
  rfl

/-- The value of an objective stays the same without a variable at which the point is zero. -/
theorem Objective.valueAt_eraseIdx (terms : List ObjectiveTerm) {removed : Nat}
    {point : Nat → Rat} (hzero : point removed = 0) :
    (⟨terms.eraseIdx removed⟩ : Objective).valueAt (fun index => point (formerIndex removed index)) =
      (⟨terms⟩ : Objective).valueAt point := by
  -- With each term that is passed, the numbers of the point and of the variable go down by one.
  induction terms generalizing removed point with
  | nil => rfl
  | cons term rest ih =>
      cases removed with
      | zero =>
          rw [List.eraseIdx_cons_zero, valueAt_cons, hzero, mul_zero, zero_add]
          rfl
      | succ removed =>
          have hlater (index : Nat) :
              formerIndex (removed + 1) (index + 1) = formerIndex removed index + 1 := by
            simp only [formerIndex, Nat.add_lt_add_iff_right]
            split <;> rfl
          have hrest := @ih removed (fun position => point (position + 1)) hzero
          rw [List.eraseIdx_cons_succ, valueAt_cons, valueAt_cons, ← hrest]
          simp only [hlater]
          rfl

namespace Program

/-- The coefficient and the type of a variable are taken out at the same place. -/
theorem lists_removeVariable {program next : Program} {position : Nat}
    (hok : program.removeVariable position = .ok next) :
    next.objective.coefficients = program.objective.coefficients.eraseIdx position ∧
      next.objective.types = program.objective.types.eraseIdx position := by
  rw [removeVariable] at hok
  split at hok
  · cases hok
    simp [Objective.coefficients, Objective.types, List.eraseIdx_map]
  · cases hok

/-- What is left of a program without one of its variables. Positions of variables and indices
in rows are the former ones, counted without the removed one. -/
structure WithoutVariable (program : Program) (removed : Nat) (next : Program) : Prop where
  vars_length : next.vars.length + 1 = program.vars.length
  objective_size : next.objective.size + 1 = program.objective.size
  vars : ∀ position, next.vars[position]? = program.vars[formerIndex removed position]?
  terms : ∀ position,
    next.objective.terms[position]? = program.objective.terms[formerIndex removed position]?
  sense : next.sense = program.sense
  initialized : next.initialized = program.initialized
  constraints : List.Forall₂ (fun before after : Constraint =>
      after.lower = before.lower ∧ after.upper = before.upper ∧ after.row.Distinct ∧
        ∀ index, after.row.get? index = before.row.get? (formerIndex removed index))
    program.constraints next.constraints

/-- Both programs have the same values at a point that is zero at the removed variable. -/
structure SameValues (program : Program) (removed : Nat) (next : Program) (point : Nat → Rat) :
    Prop where
  rows : List.Forall₂ (fun before after : Constraint =>
      termsValue after.row.terms (fun index => point (formerIndex removed index)) =
        termsValue before.row.terms point)
    program.constraints next.constraints
  objective : next.objective.valueAt (fun index => point (formerIndex removed index)) =
    program.objective.valueAt point

variable {program next : Program} {removed : Nat}

theorem WithoutVariable.distinct (without : program.WithoutVariable removed next) :
    ∀ constraint ∈ next.constraints, constraint.row.Distinct := by
  intro constraint hmem
  obtain ⟨before, -, -, -, hdistinct, -⟩ := exists_of_mem_forall₂ without.constraints hmem
  exact hdistinct

theorem removeVariable_eq_ok_iff :
    program.removeVariable removed = .ok next ↔
      removed < program.vars.length ∧
        next = { program with
          vars := program.vars.eraseIdx removed
          objective := ⟨program.objective.terms.eraseIdx removed⟩
          constraints := program.constraints.map fun constraint =>
            { constraint with row := constraint.row.removeIndex removed } } := by
  by_cases hremoved : removed < program.vars.length
  · simp [removeVariable, hremoved, eq_comm]
  · simp [removeVariable, hremoved]

/-- A variable that exists can be taken out. -/
theorem exists_removeVariable_of_lt (hremoved : removed < program.vars.length) :
    ∃ next, program.removeVariable removed = .ok next :=
  ⟨_, removeVariable_eq_ok_iff.mpr ⟨hremoved, rfl⟩⟩

theorem removeVariable_eq_error_iff {error : EditError} :
    program.removeVariable removed = .error error ↔
      program.vars.length ≤ removed ∧ error = .outOfRange := by
  by_cases hremoved : removed < program.vars.length
  · simp [removeVariable, hremoved]
  · simp [removeVariable, hremoved, eq_comm, Nat.not_lt.mp hremoved]

section

variable (distinct : ∀ constraint ∈ program.constraints, constraint.row.Distinct)
include distinct

theorem withoutVariable_of_removeVariable (consistent : program.Consistent)
    (hok : program.removeVariable removed = .ok next) :
    program.WithoutVariable removed next := by
  obtain ⟨hremoved, rfl⟩ := removeVariable_eq_ok_iff.mp hok
  have hsize : removed < program.objective.terms.length :=
    Nat.lt_of_lt_of_eq hremoved (Eq.symm consistent)
  refine ⟨?_, ?_, fun position => ?_, fun position => ?_, rfl, rfl, ?_⟩
  · exact List.length_eraseIdx_add_one hremoved
  · exact List.length_eraseIdx_add_one hsize
  · exact getElem?_eraseIdx_former program.vars removed position
  · exact getElem?_eraseIdx_former program.objective.terms removed position
  · rw [List.forall₂_map_right_iff, List.forall₂_same]
    intro constraint hmem
    have hrow := distinct constraint hmem
    exact ⟨rfl, rfl, hrow.removeIndex removed, hrow.get?_removeIndex removed⟩

theorem sameValues_of_removeVariable (hok : program.removeVariable removed = .ok next)
    {point : Nat → Rat} (hzero : point removed = 0) :
    program.SameValues removed next point := by
  obtain ⟨-, rfl⟩ := removeVariable_eq_ok_iff.mp hok
  refine ⟨?_, Objective.valueAt_eraseIdx program.objective.terms hzero⟩
  rw [List.forall₂_map_right_iff, List.forall₂_same]
  intro constraint hmem
  exact (distinct constraint hmem).termsValue_removeIndex hzero

end

/-- An edit that is refused leaves the program of a session as it was. -/
theorem edit_of_error (engine : Engine) (session : Session) {edit : Edit} {error : EditError}
    (hrefused : session.program.edit edit = .error error) :
    let reply := (Session.contract engine).edit session edit
    reply.result = .error error.fault ∧ reply.next.program = session.program := by
  intro reply
  have hreply : reply = .fail session.expectChange error.fault := by
    show (Session.contract engine).edit session edit = _
    simp only [Contract.edit]
    rw [show (Session.contract engine).program ((Session.contract engine).expectChange session) =
      session.program from rfl, hrefused]
    rfl
  rw [hreply]
  exact ⟨rfl, rfl⟩

/-- A variable that exists can be taken out, and what is left is the program without it. Where a
point is zero at the variable, both programs have the same values. A variable that does not
exist cannot be taken out, and whoever holds the program still holds it after the attempt. -/
theorem removeVariable_exact (consistent : program.Consistent)
    (distinct : ∀ constraint ∈ program.constraints, constraint.row.Distinct) (removed : Nat) :
    (removed < program.vars.length → ∃ next, program.removeVariable removed = .ok next ∧
        program.WithoutVariable removed next ∧
        ∀ point : Nat → Rat, point removed = 0 → program.SameValues removed next point) ∧
      (program.vars.length ≤ removed →
        program.removeVariable removed = .error .outOfRange ∧
          ∀ (engine : Engine) (session : Session), session.program = program →
            let reply := (Session.contract engine).edit session (.removeVariable removed)
            reply.result = .error .outOfRange ∧ reply.next.program = program) := by
  apply And.intro
  · intro hremoved
    have hok := removeVariable_eq_ok_iff.mpr ⟨hremoved, rfl⟩
    exact ⟨_, hok, withoutVariable_of_removeVariable distinct consistent hok,
      fun _ hzero => sameValues_of_removeVariable distinct hok hzero⟩
  · intro hmissing
    have hrefused : program.edit (.removeVariable removed) = .error .outOfRange :=
      removeVariable_eq_error_iff.mpr ⟨hmissing, rfl⟩
    refine ⟨hrefused, fun engine session hheld => ?_⟩
    subst hheld
    exact edit_of_error engine session hrefused

/-- The first row stores the removed variable before the others and the last term takes its
place, and it has an index beyond all variables. The second row does not store the variable. -/
theorem removeVariable_exact_second :
    let one := Binary64.ofInt 1
    let half := Binary64.ofDecimal false 5 (-1)
    let program : Program := {
      Program.ofObjective .maximize
        [⟨⟨[(1, one), (7, half), (0, one), (2, half)]⟩, .negInf, one⟩,
          ⟨⟨[(2, one), (0, half)]⟩, one, .posInf⟩]
        ⟨[⟨one, .integer⟩, ⟨half, .real⟩, ⟨half, .binary⟩]⟩ with
      vars := [.nonnegative, .free, ⟨0, one⟩] }
    let next : Program := {
      Program.ofObjective .maximize
        [⟨⟨[(1, half), (6, half), (0, one)]⟩, .negInf, one⟩,
          ⟨⟨[(1, one), (0, half)]⟩, one, .posInf⟩]
        ⟨[⟨one, .integer⟩, ⟨half, .binary⟩]⟩ with
      vars := [.nonnegative, ⟨0, one⟩] }
    let point : Nat → Rat := fun index => if index = 1 then 0 else index + 1
    program.Consistent ∧ (∀ constraint ∈ program.constraints, constraint.row.Distinct) ∧
      1 < program.vars.length ∧ point 1 = 0 ∧ program.removeVariable 1 = .ok next ∧
      program.WithoutVariable 1 next ∧ program.SameValues 1 next point ∧
      program.vars.length ≤ 3 ∧
      ∀ engine, (((Session.contract engine).edit (.start program)
        (.removeVariable 3)).next.program = program) := by
  intro one half program next point
  have consistent : program.Consistent := rfl
  have distinct : ∀ constraint ∈ program.constraints, constraint.row.Distinct := by
    have hindices : ∀ constraint ∈ program.constraints, constraint.row.indices.Nodup := by
      decide +kernel
    exact hindices
  have hok : program.removeVariable 1 = .ok next := toOption_eq_some_iff.mp (by decide +kernel)
  obtain ⟨other, hother, without, hvalues⟩ :=
    (removeVariable_exact consistent distinct 1).1 (by decide)
  obtain rfl : next = other := Except.ok.inj (hok.symm.trans hother)
  refine ⟨consistent, distinct, by decide, rfl, hok, without, hvalues point rfl, le_rfl, ?_⟩
  intro engine
  exact (((removeVariable_exact consistent distinct 3).2 le_rfl).2 engine (.start program) rfl).2

end Program

end LinProg
