/-
# Programs that were gathered from batches

Batches check their types when they are taken in, but only the formulation looks at bounds.
Still nothing can go wrong with these: the variables that come with objective terms are
nonnegative, whatever their type, and the variables that come with columns may have any
bounds, but are real. So a program that was gathered from batches alone has a formulation as
soon as its rows name existing variables only.
-/
import LinProg.Proofs.Formulation.Columns
import LinProg.Proofs.Formulation.Refusals
import LinProg.Proofs.Program.Chunks

namespace LinProg

variable {index : Nat}

theorem integerBound?_zero : integerBound? index 0 (0 : Binary64).ceil? = .ok 0 := by
  have hceil : (0 : Binary64).ceil? = some 0 := by
    rw [Binary64.ceil?_eq_some_iff rfl, Binary64.exact_zero, Int.ceil_zero]
  rw [integerBound?_eq_ok_iff, if_neg nofun, if_neg nofun]
  exact ⟨hceil, by decide, by decide⟩

theorem integerBound?_one :
    integerBound? index (Binary64.ofInt 1) (Binary64.ofInt 1).floor? = .ok 1 := by
  have hfloor : (Binary64.ofInt 1).floor? = some 1 := by
    rw [Binary64.floor?_eq_some_iff isFinite_ofInt_one, exact_ofInt_one, Int.floor_one]
  have hfinite : Binary64.ofInt 1 ≠ .negInf ∧ Binary64.ofInt 1 ≠ .posInf := by
    decide +kernel
  rw [integerBound?_eq_ok_iff, if_neg hfinite.1, if_neg hfinite.2]
  exact ⟨hfloor, by decide, by decide⟩

theorem integerBound?_posInf (rounded : Option Int) :
    integerBound? index .posInf rounded = .ok greatestInteger := by
  rw [integerBound?_eq_ok_iff, if_neg (by decide), if_pos rfl]

/-- Nonnegative variables have a domain with every type of the backend. -/
theorem exists_domain?_nonnegative {type : VariableType}
    (hsupported : Backend.inProcess.supportsType type = true) (index : Nat) :
    ∃ domain, domain? index .nonnegative type = .ok domain := by
  cases type with
  | real => exact ⟨_, rfl⟩
  | integer =>
      refine ⟨.integral 0 greatestInteger, ?_⟩
      show integersBetween? index 0 .posInf = _
      simp only [integersBetween?, integerBound?_zero, integerBound?_posInf]
      rfl
  | binary =>
      have hone : Binary64.ofInt 1 < .posInf := by
        decide +kernel
      refine ⟨.integral 0 1, ?_⟩
      show integersBetween? index (if (0 : Binary64) < 0 then 0 else 0)
        (if Binary64.ofInt 1 < .posInf then Binary64.ofInt 1 else .posInf) = _
      rw [ite_self, if_pos hone]
      simp only [integersBetween?, integerBound?_zero, integerBound?_one]
      rfl
  | semiReal => cases hsupported
  | semiInteger => cases hsupported

namespace Program

/-- A variable that is real, or nonnegative with a type of the backend. -/
def Plain (item : Variable × ObjectiveTerm) : Prop :=
  item.2.type = .real ∨
    item.1 = .nonnegative ∧ Backend.inProcess.supportsType item.2.type = true

/-- What a program is like that was gathered from batches. -/
structure Gathered (program : Program) : Prop where
  consistent : program.Consistent
  plain : ∀ item ∈ program.vars.zip program.objective.terms, Plain item

variable {program next : Program}

namespace Gathered

theorem empty (sense : Sense) : (Program.empty sense).Gathered :=
  ⟨rfl, by simp [Program.empty]⟩

/-- Only variables and objective terms count. -/
theorem of_eq (gathered : program.Gathered) (hvars : next.vars = program.vars)
    (hobjective : next.objective = program.objective) : next.Gathered := by
  refine ⟨?_, ?_⟩
  · rw [Consistent, hvars, hobjective]
    exact gathered.consistent
  · rw [hvars, hobjective]
    exact gathered.plain

/-- Further variables come with terms of their own. -/
theorem append (gathered : program.Gathered) {vars : List Variable} {terms : List ObjectiveTerm}
    (hlength : terms.length = vars.length) (hplain : ∀ item ∈ vars.zip terms, Plain item)
    (hvars : next.vars = program.vars ++ vars)
    (hterms : next.objective.terms = program.objective.terms ++ terms) : next.Gathered := by
  have hsize : program.objective.terms.length = program.vars.length := gathered.consistent
  refine ⟨?_, ?_⟩
  · simp [Consistent, Objective.size, hvars, hterms, hsize, hlength]
  · rw [hvars, hterms, List.zip_append hsize.symm]
    exact List.forall_mem_append.mpr ⟨gathered.plain, hplain⟩

/-- A batch that is accepted brings plain variables. -/
theorem ingest (gathered : program.Gathered) {ingestion : Ingestion}
    (hok : program.ingest ingestion = .ok next) : next.Gathered := by
  cases ingestion with
  | rows batch =>
      obtain ⟨_, -, rfl⟩ := (ingestRows_eq_ok_iff _ _ _).mp hok
      exact gathered.of_eq rfl rfl
  | columns batch =>
      obtain ⟨_, -, -, added, -, -, rfl⟩ := (ingestColumns_eq_ok_iff _ _ _).mp hok
      refine gathered.append List.length_replicate (fun item hmem => .inl ?_) rfl rfl
      rw [List.eq_of_mem_replicate (List.of_mem_zip hmem).2]
      rfl
  | objective coefficients types =>
      obtain ⟨hlength, hsupported, -, rfl⟩ := ingestObjective_iff.mp hok
      have hsize : program.objective.size = program.vars.length := gathered.consistent
      refine gathered.append ?_ (fun item hmem => .inr ⟨?_, ?_⟩) rfl rfl
      · simp [hsize]
      · exact List.eq_of_mem_replicate (List.of_mem_zip hmem).1
      · have hterm := (List.of_mem_zip hmem).2
        rw [← List.map_uncurry_zip_eq_zipWith] at hterm
        obtain ⟨pair, hpair, heq⟩ := List.mem_map.mp hterm
        rw [← heq]
        exact hsupported pair.2 (List.of_mem_zip hpair).2

theorem exists_column? (gathered : program.Gathered) {item : (Variable × ObjectiveTerm) × Nat}
    (hmem : item ∈ Formulation.variablesOf program) :
    ∃ column, Formulation.column? item = .ok column := by
  have hdomain : ∃ domain, domain? item.2 item.1.1 item.1.2.type = .ok domain := by
    cases gathered.plain item.1 (List.fst_mem_of_mem_zipIdx hmem) with
    | inl hreal =>
        rw [hreal]
        exact ⟨_, rfl⟩
    | inr hplain =>
        rw [hplain.1]
        exact exists_domain?_nonnegative hplain.2 item.2
  obtain ⟨domain, hdomain⟩ := hdomain
  exact ⟨_, Formulation.column?_eq_ok_iff.mpr ⟨domain, hdomain, rfl⟩⟩

/-- A row that names a variable to come is all that a formulation can be refused for. -/
theorem ofProgram?_eq_error (gathered : program.Gathered) {error : SolverError}
    (herror : Formulation.ofProgram? program = .error error) :
    ∃ constraint ∈ program.constraints, ∃ index ∈ constraint.row.indices,
      program.vars.length ≤ index ∧ error = .indexOutOfRange index program.vars.length := by
  cases Formulation.ofProgram?_eq_error_cases herror with
  | inl hcolumn =>
      obtain ⟨item, hmem, hrefused⟩ := hcolumn
      obtain ⟨column, haccepted⟩ := gathered.exists_column? hmem
      cases hrefused.symm.trans haccepted
  | inr hrow =>
      obtain ⟨columns, hcolumns, constraint, hmem, index, hindex, hbeyond, herror⟩ := hrow
      have hlength : columns.length = program.vars.length := by
        rw [← (mapM_eq_ok_iff.mp hcolumns).length_eq,
          Formulation.length_variablesOf gathered.consistent]
      rw [hlength] at hbeyond herror
      exact ⟨constraint, hmem, index, hindex, hbeyond, herror⟩

end Gathered

end Program

end LinProg
