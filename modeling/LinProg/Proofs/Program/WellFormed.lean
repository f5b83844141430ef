/-
# Edits keep programs well-formed

A well-formed program has one objective term for each variable, bounds in order, and no
index twice in a row. The holder of a program never checks this. It follows from what the
constructors of variables and rows accept, and from how the edits treat the objective and
the variables alike; each edit is shown to keep it, and a refused edit changes nothing.
-/
import LinProg.Proofs.Binary64.Exact
import LinProg.Proofs.Program.Consistent
import LinProg.Proofs.Sparse.Entry

namespace LinProg

namespace Variable

theorem between?_eq_ok_iff (lower upper : Binary64) (bounds : Variable) :
    between? lower upper = .ok bounds ↔ lower ≤ upper ∧ ⟨lower, upper⟩ = bounds := by
  by_cases horder : lower ≤ upper
  · simp [between?, horder]
  · simp [between?, horder]

/-- Bounds that the constructor accepts. -/
def Accepted (bounds : Variable) : Prop :=
  ∃ lower upper, between? lower upper = .ok bounds

theorem Accepted.ordered {bounds : Variable} (accepted : bounds.Accepted) : bounds.Ordered := by
  obtain ⟨lower, upper, hok⟩ := accepted
  obtain ⟨horder, rfl⟩ := (between?_eq_ok_iff lower upper bounds).mp hok
  exact horder

theorem Ordered.accepted {bounds : Variable} (ordered : bounds.Ordered) : bounds.Accepted :=
  ⟨bounds.lower, bounds.upper, (between?_eq_ok_iff _ _ _).mpr ⟨ordered, rfl⟩⟩

/-- Ordered bounds are numbers. -/
theorem Ordered.ne_nan {bounds : Variable} (ordered : bounds.Ordered) :
    bounds.lower ≠ .nan ∧ bounds.upper ≠ .nan :=
  Binary64.ne_nan_of_le ordered

theorem ordered_nonnegative : nonnegative.Ordered := by
  show (0 : Binary64).isAtMost .posInf = true
  decide +kernel

end Variable

/-- Edits whose values come out of constructors. -/
def Edit.Accepted : Edit → Prop
  | .addVariables added => ∀ bounds ∈ added, bounds.Accepted
  | .setVariable _ bounds => bounds.Accepted
  | .addConstraints added => ∀ constraint ∈ added, constraint.row.Accepted
  | .setConstraint _ constraint => constraint.row.Accepted
  | _ => True

namespace Program

/-- The programs that a caller can begin with. -/
inductive Built : Program → Prop where
  | empty (sense : Sense) : Built (.empty sense)
  | ofConstraints (sense : Sense) {constraints : List Constraint}
      (accepted : ∀ constraint ∈ constraints, constraint.row.Accepted) :
      Built (.ofConstraints sense constraints)
  | ofObjective (sense : Sense) {constraints : List Constraint}
      (accepted : ∀ constraint ∈ constraints, constraint.row.Accepted) (objective : Objective) :
      Built (.ofObjective sense constraints objective)

theorem Built.wellFormed {program : Program} (built : program.Built) : program.WellFormed := by
  cases built with
  | empty sense => exact ⟨rfl, by simp [Program.empty], by simp [Program.empty]⟩
  | ofConstraints sense accepted =>
      exact ⟨rfl, by simp [Program.ofConstraints, Program.empty],
        fun constraint hmem => (accepted constraint hmem).distinct⟩
  | ofObjective sense accepted objective =>
      refine ⟨by simp [Program.ofObjective], fun bounds hmem => ?_,
        fun constraint hmem => (accepted constraint hmem).distinct⟩
      rw [List.eq_of_mem_replicate hmem]
      exact Variable.ordered_nonnegative

namespace WellFormed

variable {program next : Program}

theorem consistent (wellFormed : program.WellFormed) : program.Consistent :=
  wellFormed.objective_size

theorem withSense (wellFormed : program.WellFormed) (sense : Sense) :
    { program with sense }.WellFormed :=
  ⟨wellFormed.objective_size, wellFormed.ordered, wellFormed.distinct⟩

/-! ## Constraints -/

/-- Nothing but its rows matters in other constraints. -/
theorem withConstraints (wellFormed : program.WellFormed) {constraints : List Constraint}
    (distinct : ∀ constraint ∈ constraints, constraint.row.Distinct) :
    { program with constraints }.WellFormed :=
  ⟨wellFormed.objective_size, wellFormed.ordered, distinct⟩

theorem addConstraints (wellFormed : program.WellFormed) {added : List Constraint}
    (distinct : ∀ constraint ∈ added, constraint.row.Distinct) :
    (program.addConstraints added).WellFormed := by
  refine wellFormed.withConstraints fun constraint hmem => ?_
  rcases List.mem_append.mp hmem with hmem | hmem
  · exact wellFormed.distinct constraint hmem
  · exact distinct constraint hmem

theorem modifyConstraint (wellFormed : program.WellFormed) {position : Nat}
    {change : Constraint → Except EditError Constraint}
    (distinct : ∀ constraint changed, constraint.row.Distinct →
      change constraint = .ok changed → changed.row.Distinct)
    (hok : program.modifyConstraint position change = .ok next) : next.WellFormed := by
  obtain ⟨constraint, changed, hat, hchange, rfl⟩ := modifyConstraint_eq_ok_iff.mp hok
  refine wellFormed.withConstraints fun other hmem => ?_
  rcases List.mem_or_eq_of_mem_set hmem with hmem | rfl
  · exact wellFormed.distinct other hmem
  · exact distinct constraint other
      (wellFormed.distinct constraint (List.mem_of_getElem? hat)) hchange

theorem removeConstraint (wellFormed : program.WellFormed) {position : Nat}
    (hok : program.removeConstraint position = .ok next) : next.WellFormed := by
  simp only [Program.removeConstraint] at hok
  split at hok
  · cases hok
    exact wellFormed.withConstraints fun constraint hmem =>
      wellFormed.distinct constraint (List.mem_of_mem_eraseIdx hmem)
  · cases hok

theorem removeConstraints (wellFormed : program.WellFormed) {positions : List Nat}
    (hok : program.removeConstraints positions = .ok next) : next.WellFormed := by
  obtain ⟨-, rfl⟩ := removeConstraintsBy_eq_ok_iff.mp hok
  refine wellFormed.withConstraints fun constraint hmem => wellFormed.distinct constraint ?_
  obtain ⟨item, hitem, rfl⟩ := List.mem_map.mp hmem
  exact List.fst_mem_of_mem_zipIdx (List.mem_of_mem_filter hitem)

/-! ## Variables and the objective -/

theorem addVariables (wellFormed : program.WellFormed) {added : List Variable}
    (ordered : ∀ bounds ∈ added, bounds.Ordered) : (program.addVariables added).WellFormed := by
  refine ⟨wellFormed.consistent.addVariables added, fun bounds hmem => ?_, wellFormed.distinct⟩
  rcases List.mem_append.mp hmem with hmem | hmem
  · exact wellFormed.ordered bounds hmem
  · exact ordered bounds hmem

theorem removeVariable (wellFormed : program.WellFormed) {position : Nat}
    (hok : program.removeVariable position = .ok next) : next.WellFormed := by
  have consistent := wellFormed.consistent.removeVariable hok
  simp only [Program.removeVariable] at hok
  split at hok
  · cases hok
    refine ⟨consistent, ?_, ?_⟩
    · exact fun bounds hmem => wellFormed.ordered bounds (List.mem_of_mem_eraseIdx hmem)
    · intro constraint hmem
      obtain ⟨original, horiginal, rfl⟩ := List.mem_map.mp hmem
      exact (wellFormed.distinct original horiginal).removeIndex position
  · cases hok

theorem setVariable (wellFormed : program.WellFormed) (position : Nat) {bounds : Variable}
    (ordered : bounds.Ordered) :
    { program with vars := program.vars.set position bounds }.WellFormed := by
  refine ⟨by simpa using wellFormed.objective_size, ?_, wellFormed.distinct⟩
  intro other hmem
  rcases List.mem_or_eq_of_mem_set hmem with hmem | rfl
  · exact wellFormed.ordered other hmem
  · exact ordered

/-- A longer objective brings nonnegative variables with it. -/
theorem setObjective (wellFormed : program.WellFormed) {objective : Objective}
    (hok : program.setObjective objective = .ok next) : next.WellFormed := by
  have consistent := Consistent.setObjective hok
  obtain ⟨-, rfl⟩ := setObjective_eq_ok_iff.mp hok
  refine ⟨consistent, fun bounds hmem => ?_, wellFormed.distinct⟩
  rcases List.mem_append.mp hmem with hmem | hmem
  · exact wellFormed.ordered bounds hmem
  · rw [List.eq_of_mem_replicate hmem]
    exact Variable.ordered_nonnegative

/-- An objective that is changed in one term keeps its size. -/
theorem withObjective (wellFormed : program.WellFormed) {changed : Option Objective}
    (hsize : ∀ objective ∈ changed, objective.size = program.objective.size)
    (hok : program.withObjective changed = .ok next) : next.WellFormed := by
  have consistent := wellFormed.consistent.withObjective hsize hok
  obtain ⟨objective, rfl, rfl⟩ := withObjective_eq_ok_iff.mp hok
  exact ⟨consistent, wellFormed.ordered, wellFormed.distinct⟩

/-! ## All edits -/

/-- An accepted edit that happens leaves a well-formed program. -/
theorem edit (wellFormed : program.WellFormed) {edit : Edit} (accepted : edit.Accepted)
    (hok : program.edit edit = .ok next) : next.WellFormed := by
  cases edit with
  | touch =>
      cases hok
      exact wellFormed
  | setSense sense =>
      cases hok
      exact wellFormed.withSense sense
  | addVariables added =>
      cases hok
      exact wellFormed.addVariables fun bounds hmem => (accepted bounds hmem).ordered
  | removeVariable position => exact wellFormed.removeVariable hok
  | setVariable position bounds =>
      simp only [Program.edit] at hok
      split at hok
      · cases hok
        exact wellFormed.setVariable position accepted.ordered
      · cases hok
  | addConstraints added =>
      cases hok
      exact wellFormed.addConstraints fun constraint hmem => (accepted constraint hmem).distinct
  | removeConstraint position => exact wellFormed.removeConstraint hok
  | removeConstraints positions => exact wellFormed.removeConstraints hok
  | setConstraint position constraint =>
      refine wellFormed.modifyConstraint ?_ hok
      rintro original changed - ⟨⟩
      exact accepted.distinct
  | setRange position lower upper =>
      refine wellFormed.modifyConstraint ?_ hok
      rintro original changed distinct ⟨⟩
      exact distinct
  | pushTerm position index value =>
      refine wellFormed.modifyConstraint ?_ hok
      intro original changed distinct hchange
      cases hpush : original.row.push? index value with
      | error error => simp [hpush] at hchange
      | ok row =>
          obtain ⟨hnew, rfl⟩ := (Entry.push?_eq_ok_iff _ _ _ _).mp hpush
          obtain rfl : _ = changed := by simpa [hpush] using hchange
          exact distinct.append hnew value
  | setTerm position place value =>
      refine wellFormed.modifyConstraint ?_ hok
      intro original changed distinct hchange
      cases hset : original.row.setValue? place value with
      | none => simp [hset] at hchange
      | some row =>
          obtain rfl : _ = changed := by simpa [hset] using hchange
          rw [Entry.Distinct, Entry.indices_setValue? hset]
          exact distinct
  | setObjective objective =>
      cases hset : program.setObjective objective with
      | error error => simp [Program.edit, hset] at hok
      | ok changed =>
          obtain rfl : changed = next := by simpa [Program.edit, hset] using hok
          exact wellFormed.setObjective hset
  | setCoefficient position coefficient =>
      refine wellFormed.withObjective ?_ hok
      intro objective hchanged
      obtain ⟨term, -, rfl⟩ := Option.map_eq_some_iff.mp hchanged
      simp [Objective.size]
  | setType position type =>
      refine wellFormed.withObjective ?_ hok
      intro objective hchanged
      obtain ⟨term, -, rfl⟩ := Option.map_eq_some_iff.mp hchanged
      simp [Objective.size]

end WellFormed

end Program

end LinProg
