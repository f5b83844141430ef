/-
# Ingestion stores without checking, and may

A batch is checked before anything is changed, and then stored by operations that check
nothing. Here these are compared with the checked ones: the rows that are cut out of a
batch are rows that the constructor accepts, and storing the terms of columns does what
as many edits do that each push one term, none of which is refused. So ingestion keeps
programs well-formed for the same reasons as edits do.
-/
import LinProg.Solver.Ingestion
import LinProg.Proofs.Checks
import LinProg.Proofs.Program.WellFormed
import LinProg.Proofs.Sparse.Compressed

namespace LinProg

theorem asSolverError_eq_ok_iff {α : Type} {checked : Except InputError α} {value : α} :
    asSolverError checked = .ok value ↔ checked = .ok value := by
  cases checked <;> simp [asSolverError]

theorem CompressedEntries.checkBounds_eq_ok_iff {α β : Type} (compressed : CompressedEntries α)
    (lower upper : List β) :
    compressed.checkBounds lower upper = .ok () ↔
      lower.length = compressed.segmentCount ∧ upper.length = compressed.segmentCount := by
  by_cases hlower : lower.length = compressed.segmentCount
  · by_cases hupper : upper.length = compressed.segmentCount
    · simp [checkBounds, hlower, hupper]
    · simp [checkBounds, hlower, hupper]
  · simp [checkBounds, hlower]

theorem RawBatch.compressed?_eq_ok_iff (batch : RawBatch)
    (compressed : CompressedEntries Binary64) :
    batch.compressed? = .ok compressed ↔
      CompressedEntries.ofLists? batch.values batch.offsets batch.indices = .ok compressed ∧
        batch.lower.length = compressed.segmentCount ∧
        batch.upper.length = compressed.segmentCount := by
  simp only [compressed?, bind_eq_ok_iff, asSolverError_eq_ok_iff]
  refine ⟨?_, fun ⟨hok, hbounds⟩ => ⟨compressed, hok, (), ?_, rfl⟩⟩
  · rintro ⟨_, hok, _, hbounds, ⟨⟩⟩
    exact ⟨hok, (compressed.checkBounds_eq_ok_iff _ _).mp hbounds⟩
  · exact (compressed.checkBounds_eq_ok_iff _ _).mpr hbounds

namespace Program

/-! ## What accepted batches do -/

/-- Pairs of bounds make variables exactly if each is in order. -/
theorem mapM_between?_eq_ok_iff (pairs : List (Binary64 × Binary64)) (added : List Variable) :
    (pairs.mapM fun (lower, upper) => Variable.between? lower upper) = .ok added ↔
      (∀ pair ∈ pairs, pair.1 ≤ pair.2) ∧ added = pairs.map fun pair => ⟨pair.1, pair.2⟩ := by
  simp only [mapM_eq_ok_iff, Variable.between?_eq_ok_iff, List.forall₂_and_left]
  apply and_congr_right
  intro _
  rw [← List.forall₂_map_left_iff, List.forall₂_eq_eq_eq, eq_comm]

theorem ingestRows_eq_ok_iff (program next : Program) (batch : RawBatch) :
    program.ingestRows batch = .ok next ↔
      ∃ compressed, batch.compressed? = .ok compressed ∧
        next = program.addConstraints
          (List.zipWith (fun row (lower, upper) => ⟨row, lower, upper⟩) compressed.entries
            (batch.lower.zip batch.upper)) := by
  simp only [ingestRows, bind_eq_ok_iff]
  refine exists_congr fun compressed => and_congr_right fun _ => ?_
  simp [pure, Except.pure, eq_comm]

/-- All indices lie below a bound exactly if the largest one does. -/
theorem filter_maxIndex?_eq_none_iff {α : Type} (compressed : CompressedEntries α) (bound : Nat) :
    compressed.maxIndex?.filter (fun index => bound ≤ index) = none ↔
      ∀ index ∈ compressed.indices, index < bound := by
  cases hmax : compressed.maxIndex? with
  | none =>
      have hempty : compressed.indices = [] := List.max?_eq_none_iff.mp hmax
      simp [hempty]
  | some largest =>
      obtain ⟨hmem, hlargest⟩ := List.max?_eq_some_iff.mp hmax
      simp only [Option.filter_eq_none_iff, Option.some.injEq, decide_eq_true_eq, Nat.not_le]
      refine ⟨fun hbound index hindex => ?_, ?_⟩
      · exact Nat.lt_of_le_of_lt (hlargest index hindex) (hbound largest rfl)
      · rintro hbound _ rfl
        exact hbound _ hmem

/-- An accepted batch of columns names existing rows that have no term at the new indices,
and brings bounds in order. -/
theorem ingestColumns_eq_ok_iff (program next : Program) (batch : RawBatch) :
    program.ingestColumns batch = .ok next ↔
      ∃ compressed, batch.compressed? = .ok compressed ∧
        (∀ index ∈ compressed.indices, index < program.constraints.length) ∧
        ∃ added,
          (batch.lower.zip batch.upper).mapM (fun (lower, upper) => Variable.between? lower upper) =
            .ok added ∧
          (∀ column ∈ program.newColumns compressed, program.storesColumn column = false) ∧
          { program.addVariables added with
            constraints := (program.newColumns compressed).foldl (fun constraints column =>
              appendColumn constraints column.2 column.1.terms) program.constraints } = next := by
  simp only [ingestColumns, bind_eq_ok_iff]
  refine exists_congr fun compressed => and_congr_right fun _ => ?_
  rw [← filter_maxIndex?_eq_none_iff]
  cases hrange : compressed.maxIndex?.filter fun index => program.constraints.length ≤ index with
  | some index => simp [bind_eq_ok_iff]
  | none =>
      simp only [true_and, bind_eq_ok_iff, asSolverError_eq_ok_iff]
      refine exists_congr fun added => and_congr_right fun _ => ?_
      have hrefuse (column : Entry Binary64 × Nat) (result : Program) :
          Except.error (SolverError.invalidInput (.repeatedIndex column.2)) ≠ .ok result := nofun
      refine Iff.trans ?_ ((elim_find?_eq_ok_iff hrefuse).trans
        (and_congr_right fun _ => Iff.of_eq (Except.ok.injEq _ _)))
      cases (program.newColumns compressed).find? program.storesColumn <;> rfl

/-- An accepted batch of variables brings supported types, and as many as coefficients. -/
theorem ingestObjective_eq_ok_iff (program next : Program) (coefficients : List Binary64)
    (types : List VariableType) :
    program.ingestObjective coefficients types = .ok next ↔
      ∃ added, Objective.ofLists? coefficients types = .ok added ∧
        (∀ type ∈ types, Backend.inProcess.supportsType type = true) ∧
        program.setObjective ⟨program.objective.terms ++ added.terms⟩ = .ok next := by
  simp only [ingestObjective, bind_eq_ok_iff, asSolverError_eq_ok_iff]
  refine exists_congr fun added => and_congr_right fun _ => ?_
  have hrefuse (type : VariableType) (result : Program) :
      Except.error (SolverError.unsupportedType type) ≠ .ok result := nofun
  have hsupported : (∀ type ∈ types, Backend.inProcess.supportsType type = true) ↔
      ∀ type ∈ types, (!Backend.inProcess.supportsType type) = false := by simp
  rw [hsupported, ← asSolverError_eq_ok_iff, ← elim_find?_eq_ok_iff hrefuse]
  cases types.find? fun type => !Backend.inProcess.supportsType type <;> rfl

end Program

/-! ## Columns, term by term -/

/-- A term with the row that it is for. -/
structure PlacedTerm where
  position : Nat
  index : Nat
  value : Binary64

namespace PlacedTerm

/-- Where the term comes to be. -/
def place (term : PlacedTerm) : Nat × Nat :=
  (term.position, term.index)

/-- Store the term without a check. -/
def store (constraints : List Constraint) (term : PlacedTerm) : List Constraint :=
  constraints.modify term.position fun constraint =>
    { constraint with row := constraint.row.append term.index term.value }

/-- Store the term unless its place is taken. -/
def edit (term : PlacedTerm) : Edit :=
  .pushTerm term.position term.index term.value

/-- The terms of columns in the order in which they are stored. -/
def ofColumns (columns : List (Entry Binary64 × Nat)) : List PlacedTerm :=
  columns.flatMap fun column => column.1.terms.map fun (position, value) =>
    ⟨position, column.2, value⟩

end PlacedTerm

/-- There is a row at a position, and it has no term at an index. -/
def HasRoom (constraints : List Constraint) (place : Nat × Nat) : Prop :=
  ∃ constraint, constraints[place.1]? = some constraint ∧ place.2 ∉ constraint.row.indices

namespace HasRoom

open PlacedTerm

/-- Only a term at the very place takes the room. -/
theorem store {constraints : List Constraint} {place : Nat × Nat}
    (room : HasRoom constraints place) {term : PlacedTerm} (hother : term.place ≠ place) :
    HasRoom (term.store constraints) place := by
  obtain ⟨constraint, hat, hnew⟩ := room
  by_cases hposition : term.position = place.1
  · have hindex : place.2 ≠ term.index := fun hindex =>
      hother (Prod.ext hposition hindex.symm)
    refine ⟨{ constraint with row := constraint.row.append term.index term.value }, ?_, ?_⟩
    · simp [PlacedTerm.store, hposition, hat]
    · simp [hnew, hindex]
  · refine ⟨constraint, ?_, hnew⟩
    simp [PlacedTerm.store, hposition, hat]

/-- Where there is room, the check for a new index is passed. -/
theorem edit_eq {program : Program} {term : PlacedTerm}
    (room : HasRoom program.constraints term.place) :
    program.edit term.edit =
      .ok { program with constraints := term.store program.constraints } := by
  obtain ⟨constraint, hat, hnew⟩ := room
  have hat : program.constraints[term.position]? = some constraint := hat
  have hpush : constraint.row.push? term.index term.value =
      .ok (constraint.row.append term.index term.value) :=
    (Entry.push?_eq_ok_iff _ _ _ _).mpr ⟨hnew, rfl⟩
  have hmodify : term.store program.constraints = program.constraints.set term.position
      { constraint with row := constraint.row.append term.index term.value } := by
    simp [PlacedTerm.store, List.modify_eq_set_getElem?, hat]
  rw [hmodify]
  simp [PlacedTerm.edit, Program.edit, Program.modifyConstraint, hat, hpush, Except.map]

/-- Terms for different places with room are stored as if each had been pushed. -/
theorem foldlM_edit {program : Program} {terms : List PlacedTerm}
    (hnodup : (terms.map place).Nodup)
    (room : ∀ term ∈ terms, HasRoom program.constraints term.place) :
    (terms.map PlacedTerm.edit).foldlM Program.edit program =
      .ok { program with constraints := terms.foldl (fun constraints term =>
        term.store constraints) program.constraints } := by
  induction terms generalizing program with
  | nil => rfl
  | cons term rest ih =>
      obtain ⟨hfirst, hrest⟩ := List.nodup_cons.mp hnodup
      rw [List.map_cons, List.foldlM_cons, (room term List.mem_cons_self).edit_eq]
      refine ih hrest fun other hmem => ?_
      have hother : term.place ≠ other.place := fun heq =>
        hfirst (heq ▸ List.mem_map_of_mem hmem)
      exact (room other (List.mem_cons_of_mem _ hmem)).store hother

end HasRoom

namespace PlacedTerm

/-- Storing columns one after another stores their terms one after another. -/
theorem foldl_store_ofColumns (columns : List (Entry Binary64 × Nat))
    (constraints : List Constraint) :
    (ofColumns columns).foldl (fun constraints term => term.store constraints) constraints =
      columns.foldl (fun constraints column =>
        Program.appendColumn constraints column.2 column.1.terms) constraints := by
  simp only [ofColumns, List.foldl_flatMap, List.foldl_map]
  rfl

/-- Terms of columns with different indices go to different places. -/
theorem nodup_place_ofColumns {columns : List (Entry Binary64 × Nat)}
    (hindices : (columns.map Prod.snd).Nodup) (distinct : ∀ column ∈ columns, column.1.Distinct) :
    ((ofColumns columns).map place).Nodup := by
  simp only [ofColumns, List.map_flatMap, List.map_map, List.nodup_flatMap]
  refine ⟨fun column hmem => ?_, ?_⟩
  · have hplaces : column.1.terms.map (fun term => (term.1, column.2)) =
        column.1.indices.map fun position => (position, column.2) := by
      simp [Entry.indices]
    exact hplaces ▸ (distinct column hmem).map fun _ _ heq => (Prod.ext_iff.mp heq).1
  · refine (List.pairwise_map.mp hindices).imp fun {first second} hne => ?_
    intro taken hfirst hsecond
    obtain ⟨_, -, rfl⟩ := List.mem_map.mp hfirst
    obtain ⟨_, -, heq⟩ := List.mem_map.mp hsecond
    exact hne (Prod.ext_iff.mp heq).2.symm

/-- A column that names existing rows without a term at its index finds room in them. -/
theorem hasRoom_ofColumns {program : Program} {columns : List (Entry Binary64 × Nat)}
    (hexists : ∀ column ∈ columns, ∀ position ∈ column.1.indices,
      position < program.constraints.length)
    (hnew : ∀ column ∈ columns, program.storesColumn column = false) :
    ∀ term ∈ ofColumns columns, HasRoom program.constraints term.place := by
  intro term hterm
  obtain ⟨column, hcolumn, hstored⟩ := List.mem_flatMap.mp hterm
  obtain ⟨stored, hmem, rfl⟩ := List.mem_map.mp hstored
  have hposition : stored.1 ∈ column.1.indices := List.mem_map_of_mem hmem
  have hat := List.getElem?_eq_getElem (hexists column hcolumn stored.1 hposition)
  refine ⟨_, hat, fun htaken => ?_⟩
  have hfree := List.any_eq_false.mp (hnew column hcolumn) stored.1 hposition
  rw [hat, Option.bind_some, Entry.get?_isSome_iff] at hfree
  exact hfree htaken

end PlacedTerm

namespace Program

variable {program next : Program} {batch : RawBatch}

/-- Ingested columns are stored as if variables had been appended and every term pushed. -/
theorem foldlM_edit_of_ingestColumns {compressed : CompressedEntries Binary64}
    {added : List Variable} (hcompressed : batch.compressed? = .ok compressed)
    (hadded : (batch.lower.zip batch.upper).mapM
      (fun (lower, upper) => Variable.between? lower upper) = .ok added)
    (hok : program.ingestColumns batch = .ok next) :
    ((PlacedTerm.ofColumns (program.newColumns compressed)).map PlacedTerm.edit).foldlM
      Program.edit (program.addVariables added) = .ok next := by
  obtain ⟨compressed', hcompressed', hrange, added', hadded', hnew, rfl⟩ :=
    (ingestColumns_eq_ok_iff program next batch).mp hok
  obtain rfl : compressed = compressed' := by simpa [hcompressed] using hcompressed'
  obtain rfl : added = added' := by simpa [hadded] using hadded'
  have hlists := ((batch.compressed?_eq_ok_iff compressed).mp hcompressed).1
  have hentry : ∀ column ∈ program.newColumns compressed, column.1 ∈ compressed.entries :=
    fun column hmem => List.fst_mem_of_mem_zipIdx hmem
  have hindices : ((program.newColumns compressed).map Prod.snd).Nodup := by
    rw [newColumns, List.zipIdx_map_snd]
    exact List.nodup_range'
  have hnodup := PlacedTerm.nodup_place_ofColumns hindices fun column hmem =>
    (CompressedEntries.entries_accepted hlists (hentry column hmem)).distinct
  have hroom := PlacedTerm.hasRoom_ofColumns (fun column hmem position hposition => hrange _
    (CompressedEntries.indices_subset_of_mem_entries (hentry column hmem) hposition)) hnew
  rw [@HasRoom.foldlM_edit (program.addVariables added) _ hnodup hroom,
    PlacedTerm.foldl_store_ofColumns]
  rfl

/-- A batch that is accepted leaves objective and variables in equal number. -/
theorem Consistent.ingest (consistent : program.Consistent) {ingestion : Ingestion}
    (hok : program.ingest ingestion = .ok next) : next.Consistent := by
  cases ingestion with
  | rows batch =>
      obtain ⟨_, -, rfl⟩ := (ingestRows_eq_ok_iff _ _ _).mp hok
      exact consistent
  | columns batch =>
      obtain ⟨_, -, -, added, -, -, rfl⟩ := (ingestColumns_eq_ok_iff _ _ _).mp hok
      exact consistent.addVariables added
  | objective coefficients types =>
      obtain ⟨_, -, -, hset⟩ := (ingestObjective_eq_ok_iff _ _ _ _).mp hok
      exact Consistent.setObjective hset

namespace WellFormed

/-- A sequence of accepted edits leaves a well-formed program. -/
theorem foldlM_edit (wellFormed : program.WellFormed) {edits : List Edit}
    (accepted : ∀ edit ∈ edits, edit.Accepted)
    (hok : edits.foldlM Program.edit program = .ok next) : next.WellFormed := by
  induction edits generalizing program with
  | nil =>
      cases hok
      exact wellFormed
  | cons edit rest ih =>
      rw [List.foldlM_cons] at hok
      obtain ⟨middle, hedit, hrest⟩ := bind_eq_ok_iff.mp hok
      exact ih (wellFormed.edit (accepted edit List.mem_cons_self) hedit)
        (fun other hmem => accepted other (List.mem_cons_of_mem _ hmem)) hrest

theorem ingestRows (wellFormed : program.WellFormed) (hok : program.ingestRows batch = .ok next) :
    next.WellFormed := by
  obtain ⟨compressed, hcompressed, rfl⟩ := (ingestRows_eq_ok_iff program next batch).mp hok
  have hlists := ((batch.compressed?_eq_ok_iff compressed).mp hcompressed).1
  refine wellFormed.addConstraints fun constraint hmem => ?_
  rw [← List.map_uncurry_zip_eq_zipWith] at hmem
  obtain ⟨pair, hpair, rfl⟩ := List.mem_map.mp hmem
  exact (CompressedEntries.entries_accepted hlists (List.of_mem_zip hpair).1).distinct

theorem ingestColumns (wellFormed : program.WellFormed)
    (hok : program.ingestColumns batch = .ok next) : next.WellFormed := by
  obtain ⟨compressed, hcompressed, -, added, hadded, -, -⟩ :=
    (ingestColumns_eq_ok_iff program next batch).mp hok
  obtain ⟨horder, rfl⟩ := (mapM_between?_eq_ok_iff _ _).mp hadded
  have hordered : ∀ bounds ∈ (batch.lower.zip batch.upper).map fun pair =>
      (⟨pair.1, pair.2⟩ : Variable), bounds.Ordered := by
    intro bounds hmem
    obtain ⟨pair, hpair, rfl⟩ := List.mem_map.mp hmem
    exact horder pair hpair
  have hpushed := foldlM_edit_of_ingestColumns hcompressed hadded hok
  refine (wellFormed.addVariables hordered).foldlM_edit ?_ hpushed
  intro edit hmem
  obtain ⟨term, -, rfl⟩ := List.mem_map.mp hmem
  trivial

theorem ingestObjective (wellFormed : program.WellFormed) {coefficients : List Binary64}
    {types : List VariableType} (hok : program.ingestObjective coefficients types = .ok next) :
    next.WellFormed := by
  obtain ⟨added, -, -, hset⟩ := (ingestObjective_eq_ok_iff program next coefficients types).mp hok
  exact wellFormed.setObjective hset

/-- An accepted batch leaves a well-formed program. -/
theorem ingest (wellFormed : program.WellFormed) {ingestion : Ingestion}
    (hok : program.ingest ingestion = .ok next) : next.WellFormed := by
  cases ingestion with
  | rows batch => exact wellFormed.ingestRows hok
  | columns batch => exact wellFormed.ingestColumns hok
  | objective coefficients types => exact wellFormed.ingestObjective hok

end WellFormed

end Program

end LinProg
