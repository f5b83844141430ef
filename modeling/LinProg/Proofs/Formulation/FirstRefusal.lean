/-
# The first cause of a refused formulation

A program is formulated exactly if its variables are of types that the engine has, if the
integers next to their bounds have 32 bits, and if its rows name existing variables only.
Otherwise the error says what is first in the way: of the variables, the first one with its
type, its lower bound or its upper bound, and only then the first term of a row. A variable
without a value or a range that cannot be met is no cause, and does not hide a later one.

The conditions speak of the exact values of bounds. For a binary variable these are moved to
zero and one first, and a bound that is moved has 32 bits then.
-/
import LinProg.Proofs.Formulation.Columns
import LinProg.Proofs.Formulation.Integers
import LinProg.Proofs.Formulation.Refusals

namespace LinProg

variable {index : Nat} {bound : Binary64} {bounds : Variable} {type : VariableType}
  {error : SolverError}

/-- The integer has 32 bits. -/
def HasWord (integer : Int) : Prop :=
  leastInteger ≤ integer ∧ integer ≤ greatestInteger

instance (integer : Int) : Decidable (HasWord integer) :=
  inferInstanceAs (Decidable (_ ∧ _))

/-! ## What is demanded of a variable -/

namespace Variable

/-- The first integer that a lower bound allows has 32 bits, if the type asks for it and there
is one. -/
def LowerFits (bounds : Variable) (type : VariableType) : Prop :=
  bounds.lower.isFinite = true →
    (type = .integer → HasWord ⌈bounds.lower.exact⌉) ∧
      (type = .binary → HasWord ⌈max bounds.lower.exact 0⌉)

/-- The last integer that an upper bound allows has 32 bits, if the type asks for it and there
is one. -/
def UpperFits (bounds : Variable) (type : VariableType) : Prop :=
  bounds.upper.isFinite = true →
    (type = .integer → HasWord ⌊bounds.upper.exact⌋) ∧
      (type = .binary → HasWord ⌊min bounds.upper.exact 1⌋)

/-- An engine has variables of this kind. -/
structure Representable (bounds : Variable) (type : VariableType) : Prop where
  type_mem : type = .real ∨ type = .integer ∨ type = .binary
  lower : bounds.LowerFits type
  upper : bounds.UpperFits type

/-- Why an engine does not have a variable: its type, or else its lower bound, or else its upper
bound. -/
inductive Refused (index : Nat) (bounds : Variable) (type : VariableType) : SolverError → Prop
  | type (htype : ¬ (type = .real ∨ type = .integer ∨ type = .binary)) :
      Refused index bounds type (.unsupportedType type)
  | lower (hlower : ¬ bounds.LowerFits type) :
      Refused index bounds type (.unrepresentableBound index bounds.lower)
  | upper (hlower : bounds.LowerFits type) (hupper : ¬ bounds.UpperFits type) :
      Refused index bounds type (.unrepresentableBound index bounds.upper)

theorem lowerFits_integer_iff : bounds.LowerFits .integer ↔
    (bounds.lower.isFinite = true → HasWord ⌈bounds.lower.exact⌉) := by
  simp [LowerFits]

theorem upperFits_integer_iff : bounds.UpperFits .integer ↔
    (bounds.upper.isFinite = true → HasWord ⌊bounds.upper.exact⌋) := by
  simp [UpperFits]

theorem lowerFits_binary_iff : bounds.LowerFits .binary ↔
    (bounds.lower.isFinite = true → HasWord ⌈max bounds.lower.exact 0⌉) := by
  simp [LowerFits]

theorem upperFits_binary_iff : bounds.UpperFits .binary ↔
    (bounds.upper.isFinite = true → HasWord ⌊min bounds.upper.exact 1⌋) := by
  simp [UpperFits]

theorem lowerFits_of_ne (hinteger : type ≠ .integer) (hbinary : type ≠ .binary) :
    bounds.LowerFits type :=
  fun _ => ⟨fun htype => absurd htype hinteger, fun htype => absurd htype hbinary⟩

theorem upperFits_of_ne (hinteger : type ≠ .integer) (hbinary : type ≠ .binary) :
    bounds.UpperFits type :=
  fun _ => ⟨fun htype => absurd htype hinteger, fun htype => absurd htype hbinary⟩

end Variable

/-! ## Integers for bounds -/

/-- A bound has an integer if it is infinite, or if it is finite and that integer fits. -/
theorem exists_integerBound?_iff {rounded : Option Int} {nearest : Int}
    (hnumber : bound ≠ .nan) (hrounded : bound.isFinite = true → rounded = some nearest) :
    (∃ result, integerBound? index bound rounded = .ok result) ↔
      (bound.isFinite = true → HasWord nearest) := by
  simp only [integerBound?_eq_ok_iff]
  cases bound with
  | nan => exact absurd rfl hnumber
  | infinity negative =>
      cases negative with
      | true => simp [Binary64.isFinite, Binary64.negInf]
      | false => simp [Binary64.isFinite, Binary64.negInf, Binary64.posInf]
  | finite negative steps representable =>
      obtain rfl := hrounded rfl
      simp [Binary64.isFinite, Binary64.negInf, Binary64.posInf, HasWord]

theorem exists_integerBound?_ceil_iff (hnumber : bounds.lower ≠ .nan) :
    (∃ least, integerBound? index bounds.lower bounds.lower.ceil? = .ok least) ↔
      bounds.LowerFits .integer := by
  rw [Variable.lowerFits_integer_iff]
  apply exists_integerBound?_iff hnumber
  exact fun hfinite => (Binary64.ceil?_eq_some_iff hfinite).mpr rfl

theorem exists_integerBound?_floor_iff (hnumber : bounds.upper ≠ .nan) :
    (∃ greatest, integerBound? index bounds.upper bounds.upper.floor? = .ok greatest) ↔
      bounds.UpperFits .integer := by
  rw [Variable.upperFits_integer_iff]
  apply exists_integerBound?_iff hnumber
  exact fun hfinite => (Binary64.floor?_eq_some_iff hfinite).mpr rfl

theorem integerBound?_ceil_eq_error_iff (hnumber : bounds.lower ≠ .nan) :
    integerBound? index bounds.lower bounds.lower.ceil? = .error error ↔
      ¬ bounds.LowerFits .integer ∧ error = .unrepresentableBound index bounds.lower :=
  eq_error_iff_of_refuses (exists_integerBound?_ceil_iff hnumber)
    fun _ => integerBound?_eq_error

theorem integerBound?_floor_eq_error_iff (hnumber : bounds.upper ≠ .nan) :
    integerBound? index bounds.upper bounds.upper.floor? = .error error ↔
      ¬ bounds.UpperFits .integer ∧ error = .unrepresentableBound index bounds.upper :=
  eq_error_iff_of_refuses (exists_integerBound?_floor_iff hnumber)
    fun _ => integerBound?_eq_error

/-! ## Moved bounds -/

section Clamped

-- The double one is known by its value only, so that nothing tries to evaluate it.
variable {one : Binary64} (hfinite : one.isFinite = true) (hexact : one.exact = 1)

theorem hasWord_ceil_zero : HasWord ⌈(0 : Rat)⌉ := by
  rw [Int.ceil_zero]
  decide

theorem hasWord_floor_one : HasWord ⌊(1 : Rat)⌋ := by
  rw [Int.floor_one]
  decide

/-- A lower bound that is moved fits, and one that is not moved fits as it would anyway. -/
theorem lowerFits_clamped_iff (hnumber : bounds.lower ≠ .nan) :
    (bounds.clamped one).LowerFits .integer ↔ bounds.LowerFits .binary := by
  rw [Variable.lowerFits_integer_iff, Variable.lowerFits_binary_iff]
  simp only [Variable.clamped]
  by_cases hnegative : bounds.lower < 0
  · rw [if_pos hnegative, Binary64.exact_zero]
    apply iff_of_true (fun _ => hasWord_ceil_zero)
    intro hlower
    have hexact := (Binary64.exact_le_exact_iff hlower rfl).mpr (Binary64.le_of_lt hnegative)
    rw [Binary64.exact_zero] at hexact
    rw [max_eq_right hexact]
    exact hasWord_ceil_zero
  · rw [if_neg hnegative]
    apply imp_congr_right
    intro hlower
    have hpositive : 0 ≤ bounds.lower :=
      Binary64.le_of_not_lt hnumber (Binary64.ne_nan_of_isFinite rfl) hnegative
    have hexact := (Binary64.exact_le_exact_iff rfl hlower).mpr hpositive
    rw [Binary64.exact_zero] at hexact
    rw [max_eq_left hexact]

theorem clamped_lower_ne_nan (hnumber : bounds.lower ≠ .nan) :
    (bounds.clamped one).lower ≠ .nan := by
  simp only [Variable.clamped]
  split
  · exact Binary64.ne_nan_of_isFinite rfl
  · exact hnumber

theorem clamped_lower_eq (hlower : ¬ (bounds.clamped one).LowerFits .integer) :
    (bounds.clamped one).lower = bounds.lower := by
  rw [Variable.lowerFits_integer_iff] at hlower
  simp only [Variable.clamped] at hlower ⊢
  by_cases hnegative : bounds.lower < 0
  · rw [if_pos hnegative, Binary64.exact_zero] at hlower
    exact absurd (fun _ => hasWord_ceil_zero) hlower
  · rw [if_neg hnegative]

include hfinite

theorem clamped_upper_ne_nan (hnumber : bounds.upper ≠ .nan) :
    (bounds.clamped one).upper ≠ .nan := by
  simp only [Variable.clamped]
  split
  · exact Binary64.ne_nan_of_isFinite hfinite
  · exact hnumber

include hexact

/-- An upper bound that is moved fits, and one that is not moved fits as it would anyway. -/
theorem upperFits_clamped_iff (hnumber : bounds.upper ≠ .nan) :
    (bounds.clamped one).UpperFits .integer ↔ bounds.UpperFits .binary := by
  rw [Variable.upperFits_integer_iff, Variable.upperFits_binary_iff]
  simp only [Variable.clamped]
  by_cases hlarge : one < bounds.upper
  · rw [if_pos hlarge, hexact]
    apply iff_of_true (fun _ => hasWord_floor_one)
    intro hupper
    have horder := (Binary64.exact_le_exact_iff hfinite hupper).mpr (Binary64.le_of_lt hlarge)
    rw [hexact] at horder
    rw [min_eq_right horder]
    exact hasWord_floor_one
  · rw [if_neg hlarge]
    apply imp_congr_right
    intro hupper
    have hsmall := Binary64.le_of_not_lt (Binary64.ne_nan_of_isFinite hfinite) hnumber hlarge
    have horder := (Binary64.exact_le_exact_iff hupper hfinite).mpr hsmall
    rw [hexact] at horder
    rw [min_eq_left horder]

omit hfinite in
theorem clamped_upper_eq (hupper : ¬ (bounds.clamped one).UpperFits .integer) :
    (bounds.clamped one).upper = bounds.upper := by
  rw [Variable.upperFits_integer_iff] at hupper
  simp only [Variable.clamped] at hupper ⊢
  by_cases hlarge : one < bounds.upper
  · rw [if_pos hlarge, hexact] at hupper
    exact absurd (fun _ => hasWord_floor_one) hupper
  · rw [if_neg hlarge]

/-- Moving the bounds changes neither whether a variable is refused nor the reported bound. -/
theorem refused_clamped_iff (ordered : bounds.Ordered) :
    (bounds.clamped one).Refused index .integer error ↔ bounds.Refused index .binary error := by
  have hnumbers := ordered.ne_nan
  apply Iff.intro
  · intro refused
    cases refused with
    | type htype => simp at htype
    | lower hlower =>
        rw [clamped_lower_eq hlower]
        exact .lower (mt (lowerFits_clamped_iff hnumbers.1).mpr hlower)
    | upper hlower hupper =>
        rw [clamped_upper_eq hexact hupper]
        exact .upper ((lowerFits_clamped_iff hnumbers.1).mp hlower)
          (mt (upperFits_clamped_iff hfinite hexact hnumbers.2).mpr hupper)
  · intro refused
    cases refused with
    | type htype => simp at htype
    | lower hlower =>
        have hlower : ¬ (bounds.clamped one).LowerFits .integer :=
          mt (lowerFits_clamped_iff hnumbers.1).mp hlower
        rw [← clamped_lower_eq hlower]
        exact .lower hlower
    | upper hlower hupper =>
        have hupper := mt (upperFits_clamped_iff hfinite hexact hnumbers.2).mp hupper
        rw [← clamped_upper_eq hexact hupper]
        exact .upper ((lowerFits_clamped_iff hnumbers.1).mpr hlower) hupper

end Clamped

/-! ## Variables -/

theorem domain?_integer_eq_error_iff (hlower : bounds.lower ≠ .nan)
    (hupper : bounds.upper ≠ .nan) :
    domain? index bounds .integer = .error error ↔ bounds.Refused index .integer error := by
  show integersBetween? index bounds.lower bounds.upper = .error error ↔ _
  rw [integersBetween?, bind_eq_error_iff, integerBound?_ceil_eq_error_iff hlower]
  simp only [bind_pure_eq_error_iff, integerBound?_floor_eq_error_iff hupper, exists_and_right,
    exists_integerBound?_ceil_iff hlower]
  apply Iff.intro
  · intro herror
    cases herror with
    | inl herror =>
        rw [herror.2]
        exact .lower herror.1
    | inr herror =>
        rw [herror.2.2]
        exact .upper herror.1 herror.2.1
  · intro refused
    cases refused with
    | type htype => simp at htype
    | lower hlower => exact .inl ⟨hlower, rfl⟩
    | upper hlower hupper => exact .inr ⟨hlower, hupper, rfl⟩

/-- A type that the engine does not have is the whole cause, and other types without integers
are never refused. -/
theorem Variable.refused_iff_of_ne (hinteger : type ≠ .integer) (hbinary : type ≠ .binary) :
    bounds.Refused index type error ↔ type ≠ .real ∧ error = .unsupportedType type := by
  apply Iff.intro
  · intro refused
    cases refused with
    | type htype => exact ⟨fun hreal => htype (.inl hreal), rfl⟩
    | lower hlower => exact absurd (lowerFits_of_ne hinteger hbinary) hlower
    | upper _ hupper => exact absurd (upperFits_of_ne hinteger hbinary) hupper
  · intro herror
    rw [herror.2]
    exact .type fun htype => htype.elim herror.1 fun htype => htype.elim hinteger hbinary

/-- A variable has no domain exactly if the engine does not have it, for the same reason. -/
theorem domain?_eq_error_iff (ordered : bounds.Ordered) :
    domain? index bounds type = .error error ↔ bounds.Refused index type error := by
  cases type with
  | integer => exact domain?_integer_eq_error_iff ordered.ne_nan.1 ordered.ne_nan.2
  | binary =>
      rw [domain?_binary, ← refused_clamped_iff isFinite_ofInt_one exact_ofInt_one ordered]
      exact domain?_integer_eq_error_iff (clamped_lower_ne_nan ordered.ne_nan.1)
        (clamped_upper_ne_nan isFinite_ofInt_one ordered.ne_nan.2)
  | real =>
      rw [Variable.refused_iff_of_ne (by decide) (by decide)]
      simp [domain?]
  | semiReal =>
      rw [Variable.refused_iff_of_ne (by decide) (by decide)]
      simp [domain?, eq_comm]
  | semiInteger =>
      rw [Variable.refused_iff_of_ne (by decide) (by decide)]
      simp [domain?, eq_comm]

theorem Variable.forall_not_refused_iff :
    (∀ error, ¬ bounds.Refused index type error) ↔ bounds.Representable type := by
  apply Iff.intro
  · intro hnone
    by_contra hnot
    by_cases htype : type = .real ∨ type = .integer ∨ type = .binary
    · by_cases hlower : bounds.LowerFits type
      · exact hnone _ (.upper hlower fun hupper => hnot ⟨htype, hlower, hupper⟩)
      · exact hnone _ (.lower hlower)
    · exact hnone _ (.type htype)
  · intro representable error refused
    cases refused with
    | type htype => exact htype representable.type_mem
    | lower hlower => exact hlower representable.lower
    | upper _ hupper => exact hupper representable.upper

/-! ## Programs -/

namespace Program

/-- The engine has the variables before a position. -/
def RepresentableBefore (program : Program) (limit : Nat) : Prop :=
  ∀ position < limit, ∀ bounds term, program.vars[position]? = some bounds →
    program.objective.terms[position]? = some term → bounds.Representable term.type

/-- What is first in the way of a formulation: a variable that the engine does not have, or,
where it has all of them, a term for a variable that the program does not have. -/
inductive FirstRefusal (program : Program) : SolverError → Prop
  | column {position : Nat} {bounds : Variable} {term : ObjectiveTerm} {error : SolverError}
      (hbounds : program.vars[position]? = some bounds)
      (hterm : program.objective.terms[position]? = some term)
      (hbefore : program.RepresentableBefore position)
      (refused : bounds.Refused position term.type error) : FirstRefusal program error
  | row {row place index : Nat} {constraint : Constraint}
      (hvars : program.RepresentableBefore program.vars.length)
      (hconstraint : program.constraints[row]? = some constraint)
      (hrows : ∀ earlier < row, ∀ other, program.constraints[earlier]? = some other →
        ∀ index ∈ other.row.indices, index < program.vars.length)
      (hindex : constraint.row.indices[place]? = some index)
      (hbeyond : program.vars.length ≤ index)
      (hterms : ∀ earlier < place, ∀ other, constraint.row.indices[earlier]? = some other →
        other < program.vars.length) :
      FirstRefusal program (.indexOutOfRange index program.vars.length)

end Program

theorem constraintRows?_eq_error_iff {columns : Nat} {constraint : Constraint} :
    constraintRows? columns constraint = .error error ↔
      ∃ (place index : Nat), constraint.row.indices[place]? = some index ∧
        (columns ≤ index ∧ error = .indexOutOfRange index columns) ∧
          ∀ earlier < place, ∀ other, constraint.row.indices[earlier]? = some other →
            other < columns := by
  have hsearch : constraintRows? columns constraint = .error error ↔
      ∃ index, (constraint.row.indices.find? fun index => columns ≤ index) = some index ∧
        error = .indexOutOfRange index columns := by
    rw [constraintRows?]
    cases constraint.row.indices.find? fun index => columns ≤ index with
    | none => simp
    | some index => simp [eq_comm]
  rw [hsearch, ← exists_split_iff_exists_position]
  simp only [List.find?_eq_some_iff_append, decide_eq_true_eq, Bool.not_eq_true',
    decide_eq_false_iff_not, not_le]
  apply Iff.intro
  · rintro ⟨index, ⟨hbeyond, before, after, hsplit, hbefore⟩, herror⟩
    exact ⟨before, index, after, hsplit, ⟨hbeyond, herror⟩, hbefore⟩
  · rintro ⟨before, index, after, hsplit, ⟨hbeyond, herror⟩, hbefore⟩
    exact ⟨index, ⟨hbeyond, before, after, hsplit, hbefore⟩, herror⟩

namespace Formulation

variable {program : Program}

theorem getElem?_variablesOf {position : Nat} {item : (Variable × ObjectiveTerm) × Nat} :
    (variablesOf program)[position]? = some item ↔
      program.vars[position]? = some item.1.1 ∧
        program.objective.terms[position]? = some item.1.2 ∧ item.2 = position := by
  simp only [variablesOf, List.getElem?_zipIdx, Option.map_eq_some_iff, Nat.zero_add]
  apply Iff.intro
  · rintro ⟨pair, hpair, rfl⟩
    have hparts := List.getElem?_zip_eq_some.mp hpair
    exact ⟨hparts.1, hparts.2, rfl⟩
  · rintro ⟨hbounds, hterm, rfl⟩
    exact ⟨item.1, List.getElem?_zip_eq_some.mpr ⟨hbounds, hterm⟩, rfl⟩

section Columns

variable (ordered : ∀ bounds ∈ program.vars, bounds.Ordered)

include ordered

theorem column?_eq_error_iff {position : Nat} {item : (Variable × ObjectiveTerm) × Nat}
    (hitem : (variablesOf program)[position]? = some item) :
    column? item = .error error ↔ item.1.1.Refused item.2 item.1.2.type error := by
  have hbounds := (getElem?_variablesOf.mp hitem).1
  rw [column?, map_eq_error_iff]
  exact domain?_eq_error_iff (ordered _ (List.mem_of_getElem? hbounds))

theorem exists_column?_iff {position : Nat} {item : (Variable × ObjectiveTerm) × Nat}
    (hitem : (variablesOf program)[position]? = some item) :
    (∃ column, column? item = .ok column) ↔ item.1.1.Representable item.1.2.type := by
  rw [exists_eq_ok_iff_forall_ne_error, ← Variable.forall_not_refused_iff]
  exact forall_congr' fun error => not_congr (column?_eq_error_iff ordered hitem)

/-- Columns are found one by one, each by its own variable. -/
theorem columnsBefore_iff (limit : Nat) :
    (∀ position < limit, ∀ item, (variablesOf program)[position]? = some item →
        ∃ column, column? item = .ok column) ↔ program.RepresentableBefore limit := by
  apply forall₂_congr
  intro position _
  apply Iff.intro
  · intro hcolumns bounds term hbounds hterm
    have hitem : (variablesOf program)[position]? = some ((bounds, term), position) :=
      getElem?_variablesOf.mpr ⟨hbounds, hterm, rfl⟩
    exact (exists_column?_iff ordered hitem).mp (hcolumns _ hitem)
  · intro representable item hitem
    have hparts := getElem?_variablesOf.mp hitem
    exact (exists_column?_iff ordered hitem).mpr (representable _ _ hparts.1 hparts.2.1)

theorem exists_columns_iff :
    (∃ columns, (variablesOf program).mapM column? = .ok columns) ↔
      program.RepresentableBefore program.vars.length := by
  rw [exists_mapM_eq_ok_iff, ← columnsBefore_iff ordered]
  apply Iff.intro
  · intro hcolumns position _ item hitem
    exact hcolumns item (List.mem_of_getElem? hitem)
  · intro hcolumns item hmem
    obtain ⟨position, hitem⟩ := List.mem_iff_getElem?.mp hmem
    have hbounds := (getElem?_variablesOf.mp hitem).1
    exact hcolumns position (List.getElem?_eq_some_iff.mp hbounds).1 item hitem

theorem columns_eq_error_iff :
    (variablesOf program).mapM column? = .error error ↔
      ∃ (position : Nat) (bounds : Variable) (term : ObjectiveTerm),
        program.vars[position]? = some bounds ∧
          program.objective.terms[position]? = some term ∧
            program.RepresentableBefore position ∧ bounds.Refused position term.type error := by
  rw [mapM_eq_error_iff, exists_split_iff_exists_position]
  apply exists_congr
  intro position
  rw [columnsBefore_iff ordered]
  apply Iff.intro
  · rintro ⟨item, hitem, herror, hbefore⟩
    rw [column?_eq_error_iff ordered hitem] at herror
    obtain ⟨hbounds, hterm, rfl⟩ := getElem?_variablesOf.mp hitem
    exact ⟨item.1.1, item.1.2, hbounds, hterm, hbefore, herror⟩
  · rintro ⟨bounds, term, hbounds, hterm, hbefore, refused⟩
    have hitem : (variablesOf program)[position]? = some ((bounds, term), position) :=
      getElem?_variablesOf.mpr ⟨hbounds, hterm, rfl⟩
    exact ⟨_, hitem, (column?_eq_error_iff ordered hitem).mpr refused, hbefore⟩

end Columns

theorem exists_constraintRows?_iff {columns : Nat} {constraint : Constraint} :
    (∃ rows?, constraintRows? columns constraint = .ok rows?) ↔
      ∀ index ∈ constraint.row.indices, index < columns := by
  simp [constraintRows?_eq_ok_iff]

theorem rows_eq_error_iff {columns : Nat} :
    program.constraints.mapM (constraintRows? columns) = .error error ↔
      ∃ (row : Nat) (constraint : Constraint), program.constraints[row]? = some constraint ∧
        (∃ (place index : Nat), constraint.row.indices[place]? = some index ∧
          (columns ≤ index ∧ error = .indexOutOfRange index columns) ∧
            ∀ earlier < place, ∀ other, constraint.row.indices[earlier]? = some other →
              other < columns) ∧
          ∀ earlier < row, ∀ other, program.constraints[earlier]? = some other →
            ∀ index ∈ other.row.indices, index < columns := by
  rw [mapM_eq_error_iff, exists_split_iff_exists_position]
  simp only [constraintRows?_eq_error_iff, exists_constraintRows?_iff]

theorem length_columns_of_mapM (consistent : program.Consistent) {columns : List Column}
    (hcolumns : (variablesOf program).mapM column? = .ok columns) :
    columns.length = program.vars.length := by
  rw [← length_variablesOf consistent, (mapM_eq_ok_iff.mp hcolumns).length_eq]

/-- A formulation ends at the columns, or else at the rows. -/
theorem ofProgram?_eq_error_iff_parts (consistent : program.Consistent) :
    ofProgram? program = .error error ↔
      (variablesOf program).mapM column? = .error error ∨
        (∃ columns, (variablesOf program).mapM column? = .ok columns) ∧
          program.constraints.mapM (constraintRows? program.vars.length) = .error error := by
  rw [ofProgram?, bind_eq_error_iff, ← exists_and_right]
  apply or_congr_right
  apply exists_congr
  intro columns
  apply and_congr_right
  intro hcolumns
  rw [length_columns_of_mapM consistent hcolumns]
  exact bind_pure_eq_error_iff

/-- The causes of a refusal are those that come first. -/
theorem ofProgram?_eq_error_iff_first (consistent : program.Consistent)
    (ordered : ∀ bounds ∈ program.vars, bounds.Ordered) :
    ofProgram? program = .error error ↔ program.FirstRefusal error := by
  rw [ofProgram?_eq_error_iff_parts consistent, columns_eq_error_iff ordered,
    exists_columns_iff ordered, rows_eq_error_iff]
  apply Iff.intro
  · intro herror
    cases herror with
    | inl hvariable =>
        obtain ⟨position, bounds, term, hbounds, hterm, hbefore, refused⟩ := hvariable
        exact .column hbounds hterm hbefore refused
    | inr hrow =>
        obtain ⟨hvars, row, constraint, hconstraint, hplace, hrows⟩ := hrow
        obtain ⟨place, index, hindex, ⟨hbeyond, rfl⟩, hterms⟩ := hplace
        exact .row hvars hconstraint hrows hindex hbeyond hterms
  · intro refusal
    cases refusal with
    | column hbounds hterm hbefore refused =>
        exact .inl ⟨_, _, _, hbounds, hterm, hbefore, refused⟩
    | row hvars hconstraint hrows hindex hbeyond hterms =>
        exact .inr ⟨hvars, _, _, hconstraint, ⟨_, _, hindex, ⟨hbeyond, rfl⟩, hterms⟩, hrows⟩

/-- Programs are formulated unless a variable or a row is in the way. -/
theorem exists_ofProgram?_iff (consistent : program.Consistent)
    (ordered : ∀ bounds ∈ program.vars, bounds.Ordered) :
    (∃ formulation, ofProgram? program = .ok formulation) ↔
      program.RepresentableBefore program.vars.length ∧
        ∀ constraint ∈ program.constraints, ∀ index ∈ constraint.row.indices,
          index < program.vars.length := by
  rw [← exists_columns_iff ordered]
  simp only [ofProgram?_eq_ok_iff, ← mapM_eq_ok_iff]
  apply Iff.intro
  · rintro ⟨_, columns, hcolumns, hexist, -⟩
    rw [length_columns_of_mapM consistent hcolumns] at hexist
    exact ⟨⟨columns, hcolumns⟩, hexist⟩
  · rintro ⟨⟨columns, hcolumns⟩, hexist⟩
    rw [← length_columns_of_mapM consistent hcolumns] at hexist
    exact ⟨_, columns, hcolumns, hexist, rfl⟩

/-- A program is formulated exactly if the engine has its variables and its rows name no others,
and otherwise the first of these that fails is reported. -/
theorem ofProgram?_first_refusal (consistent : program.Consistent)
    (ordered : ∀ bounds ∈ program.vars, bounds.Ordered) :
    ((∃ formulation, ofProgram? program = .ok formulation) ↔
        program.RepresentableBefore program.vars.length ∧
          ∀ constraint ∈ program.constraints, ∀ index ∈ constraint.row.indices,
            index < program.vars.length) ∧
      ∀ error, ofProgram? program = .error error ↔ program.FirstRefusal error :=
  ⟨exists_ofProgram?_iff consistent ordered,
    fun _ => ofProgram?_eq_error_iff_first consistent ordered⟩

/-- A binary variable that begins beyond the 32-bit integers, after an integer variable without a
value, and next to a range without an end for variables that do not exist. -/
theorem ofProgram?_first_refusal_far_binary :
    let one := Binary64.ofInt 1
    let far := Binary64.ofInt 5000000000
    let program : Program := {
      Program.ofObjective .minimize [⟨⟨[(7, one)]⟩, .posInf, .posInf⟩]
        ⟨[⟨one, .integer⟩, ⟨one, .binary⟩]⟩ with
      vars := [⟨.ofDecimal false 2 (-1), .ofDecimal false 8 (-1)⟩, ⟨far, .posInf⟩] }
    program.Consistent ∧ (∀ bounds ∈ program.vars, bounds.Ordered) ∧
      ofProgram? program = .error (.unrepresentableBound 1 far) ∧
      ∀ error, program.FirstRefusal error ↔ error = .unrepresentableBound 1 far := by
  intro one far program
  have consistent : program.Consistent := rfl
  have hbounds : ∀ bounds ∈ program.vars, bounds.lower ≤ bounds.upper := by
    decide +kernel
  have herror : ofProgram? program = .error (.unrepresentableBound 1 far) := by
    decide +kernel
  refine ⟨consistent, hbounds, herror, fun error => ?_⟩
  rw [← (ofProgram?_first_refusal consistent hbounds).2 error, herror, Except.error.injEq, eq_comm]

end Formulation

end LinProg
