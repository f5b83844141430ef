/-
# What an engine cannot represent

A formulation is refused for one of three reasons: a type of variable that the backend does
not have, a bound that is no integer of the engine, or a row that names a column which is
not there. A missing objective is not among them, since programs without one are never
formulated.
-/
import LinProg.Solver.Formulation
import LinProg.Proofs.Checks

namespace LinProg

variable {error : SolverError}

theorem integerBound?_eq_error {index : Nat} {value : Binary64} {rounded : Option Int}
    (herror : integerBound? index value rounded = .error error) :
    error = .unrepresentableBound index value := by
  simp only [integerBound?] at herror
  split at herror
  · cases herror
  · split at herror
    · cases herror
    · cases rounded with
      | none =>
          cases herror
          rfl
      | some integer =>
          dsimp only at herror
          split at herror
          · cases herror
          · cases herror
            rfl

theorem integersBetween?_eq_error {index : Nat} {lower upper : Binary64}
    (herror : integersBetween? index lower upper = .error error) :
    ∃ value, error = .unrepresentableBound index value := by
  rw [integersBetween?, bind_eq_error_iff] at herror
  cases herror with
  | inl hlower => exact ⟨lower, integerBound?_eq_error hlower⟩
  | inr hrest =>
      obtain ⟨least, -, hrest⟩ := hrest
      exact ⟨upper, integerBound?_eq_error (bind_pure_eq_error_iff.mp hrest)⟩

theorem domain?_eq_error {index : Nat} {bounds : Variable} {type : VariableType}
    (herror : domain? index bounds type = .error error) :
    error = .unsupportedType type ∨ ∃ value, error = .unrepresentableBound index value := by
  cases type with
  | real => cases herror
  | integer => exact .inr (integersBetween?_eq_error herror)
  | binary => exact .inr (integersBetween?_eq_error herror)
  | semiReal =>
      cases herror
      exact .inl rfl
  | semiInteger =>
      cases herror
      exact .inl rfl

theorem constraintRows?_eq_error {columns : Nat} {constraint : Constraint}
    (herror : constraintRows? columns constraint = .error error) :
    ∃ index ∈ constraint.row.indices, columns ≤ index ∧
      error = .indexOutOfRange index columns := by
  rw [constraintRows?] at herror
  split at herror
  · rename_i index hfind
    cases herror
    have hbeyond : columns ≤ index := by simpa using List.find?_some hfind
    exact ⟨index, List.mem_of_find?_eq_some hfind, hbeyond, rfl⟩
  · cases herror

/-- Where a formulation ends: at a variable, or, if all of them have columns, at a constraint. -/
theorem Formulation.ofProgram?_eq_error_cases {program : Program}
    (herror : ofProgram? program = .error error) :
    (∃ item ∈ variablesOf program, column? item = .error error) ∨
      ∃ columns, (variablesOf program).mapM column? = .ok columns ∧
        ∃ constraint ∈ program.constraints, ∃ index ∈ constraint.row.indices,
          columns.length ≤ index ∧ error = .indexOutOfRange index columns.length := by
  rw [ofProgram?, bind_eq_error_iff] at herror
  cases herror with
  | inl hcolumns =>
      obtain ⟨accepted, item, rest, hsplit, -, hitem⟩ := exists_refused_of_mapM_eq_error hcolumns
      exact .inl ⟨item, by simp [hsplit], hitem⟩
  | inr hrest =>
      obtain ⟨columns, hcolumns, hrest⟩ := hrest
      have hrows := bind_pure_eq_error_iff.mp hrest
      obtain ⟨accepted, constraint, rest, hsplit, -, hconstraint⟩ :=
        exists_refused_of_mapM_eq_error hrows
      exact .inr ⟨columns, hcolumns, constraint, by simp [hsplit],
        constraintRows?_eq_error hconstraint⟩

/-- The reasons for which there is no formulation. -/
theorem Formulation.ofProgram?_eq_error {program : Program}
    (herror : ofProgram? program = .error error) :
    (∃ type, error = .unsupportedType type) ∨
      (∃ index value, error = .unrepresentableBound index value) ∨
      ∃ index length, error = .indexOutOfRange index length := by
  cases ofProgram?_eq_error_cases herror with
  | inl hcolumn =>
      obtain ⟨item, -, hitem⟩ := hcolumn
      cases domain?_eq_error (map_eq_error_iff.mp hitem) with
      | inl htype => exact .inl ⟨_, htype⟩
      | inr hbound =>
          obtain ⟨value, hbound⟩ := hbound
          exact .inr (.inl ⟨_, value, hbound⟩)
  | inr hrow =>
      obtain ⟨columns, -, constraint, -, index, -, -, hindex⟩ := hrow
      exact .inr (.inr ⟨index, _, hindex⟩)

theorem Formulation.ofProgram?_ne_notInitialized (program : Program) :
    ofProgram? program ≠ .error .notInitialized := by
  intro herror
  rcases ofProgram?_eq_error herror with ⟨_, htype⟩ | ⟨_, _, hbound⟩ | ⟨_, _, hindex⟩
  · cases htype
  · cases hbound
  · cases hindex

end LinProg
