/-
# What the columns of a batch leave in the rows

A batch of columns is scattered over rows whose terms stand in any order, and may already
name variables that are still to come. Whether it is accepted can be said in terms of the
flat lists and of the rows. If it is, a row gets one more term for each column that names it,
in the order of the columns and behind its old terms, and nothing else changes in it.
-/
import LinProg.Proofs.Program.Chunks

namespace LinProg

/-! ## Terms for one row -/

namespace Entry

/-- The terms that numbered columns have for the row at a position. -/
def termsForRow (columns : List (Entry Binary64)) (first position : Nat) :
    List (Nat × Binary64) :=
  (columns.zipIdx first).filterMap fun column =>
    (column.1.get? position).map fun value => (column.2, value)

variable {columns : List (Entry Binary64)} {first position : Nat}

theorem termsForRow_cons (column : Entry Binary64) (rest : List (Entry Binary64))
    (first position : Nat) :
    termsForRow (column :: rest) first position =
      ((column.get? position).map fun value => (first, value)).toList ++
        termsForRow rest (first + 1) position := by
  rw [termsForRow, List.zipIdx_cons, List.filterMap_cons, termsForRow]
  cases column.get? position <;> rfl

theorem le_of_mem_termsForRow {term : Nat × Binary64}
    (hmem : term ∈ termsForRow columns first position) : first ≤ term.1 := by
  obtain ⟨column, hcolumn, hterm⟩ := List.mem_filterMap.mp hmem
  obtain ⟨value, -, rfl⟩ := Option.map_eq_some_iff.mp hterm
  exact (List.mem_zipIdx hcolumn).1

theorem lookup_termsForRow_of_lt {index : Nat} (hlt : index < first) :
    (termsForRow columns first position).lookup index = none := by
  apply List.lookup_eq_none_iff.mpr
  intro term hmem
  have hle := le_of_mem_termsForRow hmem
  exact bne_iff_ne.mpr (by omega)

/-- The term of a column is found at the number of the column. -/
theorem lookup_termsForRow (columns : List (Entry Binary64)) (first position number : Nat) :
    (termsForRow columns first position).lookup (first + number) =
      columns[number]?.bind fun column => column.get? position := by
  induction columns generalizing first number with
  | nil => rfl
  | cons column rest ih =>
      rw [termsForRow_cons, List.lookup_append]
      cases number with
      | zero =>
          have hrest := @lookup_termsForRow_of_lt rest (first + 1) position first (by omega)
          rw [Nat.add_zero, hrest, List.getElem?_cons_zero, Option.bind_some, Option.or_none]
          cases column.get? position <;> simp
      | succ number =>
          have hfirst : (((column.get? position).map fun value =>
              (first, value)).toList).lookup (first + (number + 1)) = none := by
            apply List.lookup_eq_none_iff.mpr
            intro term hmem
            obtain ⟨value, -, rfl⟩ := Option.map_eq_some_iff.mp (Option.mem_toList.mp hmem)
            exact bne_iff_ne.mpr (by omega)
          rw [hfirst, Option.none_or, ← Nat.add_assoc, Nat.add_right_comm, ih,
            List.getElem?_cons_succ]

/-- A distinct entry has at most one term at an index. -/
theorem Distinct.filter_terms {entry : Entry Binary64} (distinct : entry.Distinct)
    (index : Nat) :
    entry.terms.filter (fun term => term.1 = index) =
      ((entry.get? index).map fun value => (index, value)).toList := by
  obtain ⟨terms⟩ := entry
  induction terms with
  | nil => rfl
  | cons term rest ih =>
      obtain ⟨hnew, hrest⟩ := List.nodup_cons.mp distinct
      rw [get?_cons]
      by_cases hindex : index = term.1
      · have hnone : rest.filter (fun other => other.1 = index) = [] := by
          rw [ih hrest, (get?_eq_none_iff _ _).mpr (hindex ▸ hnew)]
          rfl
        rw [List.filter_cons_of_pos (by simp [hindex]), hnone, if_pos hindex, hindex]
        rfl
      · rw [List.filter_cons_of_neg (by simp [Ne.symm hindex]), ih hrest, if_neg hindex]

end Entry

namespace PlacedTerm

theorem termsAt_ofColumn {column : Entry Binary64} (distinct : column.Distinct)
    (index position : Nat) :
    termsAt (column.terms.map fun term => ⟨term.1, index, term.2⟩) position =
      ((column.get? position).map fun value => (index, value)).toList := by
  have hterms := congrArg (List.map fun term => (index, term.2)) (distinct.filter_terms position)
  rw [termsAt, List.filter_map, List.map_map]
  refine Eq.trans ?_ (hterms.trans ?_)
  · rfl
  · cases column.get? position <;> rfl

theorem termsAt_ofColumns {columns : List (Entry Binary64)}
    (distinct : ∀ column ∈ columns, column.Distinct) (first position : Nat) :
    termsAt (ofColumns (columns.zipIdx first)) position =
      Entry.termsForRow columns first position := by
  induction columns generalizing first with
  | nil => rfl
  | cons column rest ih =>
      rw [Entry.termsForRow_cons, ← termsAt_ofColumn (distinct column List.mem_cons_self),
        ← ih fun other hmem => distinct other (List.mem_cons_of_mem _ hmem), ← termsAt_append]
      rfl

/-- There is room for the terms of numbered columns if there is for each index of each of them. -/
theorem hasRoom_ofColumns_iff {columns : List (Entry Binary64)} {first : Nat}
    {constraints : List Constraint} :
    (∀ term ∈ ofColumns (columns.zipIdx first), HasRoom constraints term.place) ↔
      ∀ (number : Nat) (column : Entry Binary64), columns[number]? = some column →
        ∀ position ∈ column.indices, HasRoom constraints (position, first + number) := by
  apply Iff.intro
  · intro room number column hcolumn position hposition
    obtain ⟨stored, hstored, rfl⟩ := List.mem_map.mp hposition
    apply room ⟨stored.1, first + number, stored.2⟩
    have hnumbered : (column, first + number) ∈ columns.zipIdx first := by
      rw [List.mk_mem_zipIdx_iff_le_and_getElem?_sub, Nat.add_sub_cancel_left]
      exact ⟨Nat.le_add_right _ _, hcolumn⟩
    exact List.mem_flatMap.mpr ⟨_, hnumbered, List.mem_map.mpr ⟨stored, hstored, rfl⟩⟩
  · intro room term hterm
    obtain ⟨column, hcolumn, hstored⟩ := List.mem_flatMap.mp hterm
    obtain ⟨stored, hmem, rfl⟩ := List.mem_map.mp hstored
    obtain ⟨hfirst, hat⟩ := List.mk_mem_zipIdx_iff_le_and_getElem?_sub.mp hcolumn
    have hroom := room _ _ hat stored.1 (List.mem_map_of_mem hmem)
    rwa [Nat.add_sub_cancel' hfirst] at hroom

end PlacedTerm

/-! ## What is accepted -/

namespace RawBatch

variable {batch : RawBatch} {compressed : CompressedEntries Binary64}

/-- The flat lists without the bounds. -/
def lists (batch : RawBatch) : CompressedEntries Binary64 :=
  ⟨batch.values, batch.offsets, batch.indices⟩

/-- The entries that the flat lists describe. -/
def columns (batch : RawBatch) : List (Entry Binary64) :=
  batch.lists.entries

theorem segmentCount_lists (batch : RawBatch) :
    batch.lists.segmentCount = batch.columns.length := by
  simp [columns, CompressedEntries.segmentCount, CompressedEntries.entries,
    CompressedEntries.segments, CompressedEntries.ranges]

theorem compressed?_eq_ok_iff_valid :
    batch.compressed? = .ok compressed ↔
      compressed = batch.lists ∧ batch.lists.Valid ∧
        batch.lower.length = batch.columns.length ∧
        batch.upper.length = batch.columns.length := by
  rw [compressed?_eq_ok_iff, CompressedEntries.ofLists?_eq_ok_iff_valid, and_assoc,
    ← segmentCount_lists]
  apply and_congr_right
  rintro rfl
  rfl

theorem Holds.flatMap_indices {entries : List (Entry Binary64)} (holds : batch.Holds entries) :
    entries.flatMap Entry.indices = batch.indices :=
  (congrArg RawBatch.indices (holds.eq_ofEntries.trans (ofEntries_eq entries))).symm

end RawBatch

namespace Program

/-- What the columns of a batch have to be like for a program: the flat lists are valid, every
column has two bounds in order, and the rows that it names exist and store nothing at the index
that it is going to have. -/
structure AcceptsColumns (program : Program) (batch : RawBatch) : Prop where
  valid : batch.lists.Valid
  length_lower : batch.lower.length = batch.columns.length
  length_upper : batch.upper.length = batch.columns.length
  exist : ∀ index ∈ batch.indices, index < program.constraints.length
  ordered : ∀ bounds ∈ batch.lower.zip batch.upper, bounds.1 ≤ bounds.2
  free : ∀ (number : Nat) (column : Entry Binary64) (position : Nat) (constraint : Constraint),
    batch.columns[number]? = some column → position ∈ column.indices →
      program.constraints[position]? = some constraint →
        constraint.row.get? (program.vars.length + number) = none

variable {program next : Program} {batch : RawBatch}

theorem room_iff (hindices : batch.columns.flatMap Entry.indices = batch.indices) :
    (∀ term ∈ PlacedTerm.ofColumns (batch.columns.zipIdx program.vars.length),
        HasRoom program.constraints term.place) ↔
      (∀ index ∈ batch.indices, index < program.constraints.length) ∧
        ∀ (number : Nat) (column : Entry Binary64) (position : Nat) (constraint : Constraint),
          batch.columns[number]? = some column → position ∈ column.indices →
            program.constraints[position]? = some constraint →
              constraint.row.get? (program.vars.length + number) = none := by
  rw [PlacedTerm.hasRoom_ofColumns_iff, ← hindices]
  apply Iff.intro
  · refine fun room => ⟨fun index hindex => ?_, ?_⟩
    · obtain ⟨column, hcolumn, hindex⟩ := List.mem_flatMap.mp hindex
      obtain ⟨number, hnumber⟩ := List.getElem?_of_mem hcolumn
      obtain ⟨constraint, hat, -⟩ := room number column hnumber index hindex
      exact (List.getElem?_eq_some_iff.mp hat).1
    · intro number column position constraint hcolumn hposition hat
      obtain ⟨other, hother, hfree⟩ := room number column hcolumn position hposition
      cases hat.symm.trans hother
      exact (Entry.get?_eq_none_iff _ _).mpr hfree
  · rintro ⟨hexist, hfree⟩ number column hcolumn position hposition
    have hlt := hexist position
      (List.mem_flatMap.mpr ⟨column, List.mem_of_getElem? hcolumn, hposition⟩)
    have hat := List.getElem?_eq_getElem hlt
    exact ⟨_, hat, (Entry.get?_eq_none_iff _ _).mp
      (hfree number column position _ hcolumn hposition hat)⟩

/-- Columns are taken in exactly if they are acceptable, and then they are stored. -/
theorem ingestColumns_eq_ok_iff_accepts :
    program.ingestColumns batch = .ok next ↔
      program.AcceptsColumns batch ∧ next = program.addColumns batch.vars batch.columns := by
  have hordered : (∀ bounds ∈ batch.vars, bounds.Ordered) ↔
      ∀ bounds ∈ batch.lower.zip batch.upper, bounds.1 ≤ bounds.2 := List.forall_mem_map
  apply Iff.intro
  · intro hok
    obtain ⟨compressed, hcompressed, -⟩ := (ingestColumns_eq_ok_iff _ _ _).mp hok
    obtain ⟨rfl, valid, hlower, hupper⟩ := RawBatch.compressed?_eq_ok_iff_valid.mp hcompressed
    have holds : batch.Holds batch.columns := RawBatch.holds_of_compressed? hcompressed
    obtain ⟨ordered, room, hnext⟩ := (ingestColumns_iff_of_holds holds).mp hok
    obtain ⟨exist, free⟩ := (room_iff holds.flatMap_indices).mp room
    exact ⟨⟨valid, hlower, hupper, exist, hordered.mp ordered, free⟩, hnext⟩
  · rintro ⟨accepts, hnext⟩
    have hcompressed : batch.compressed? = .ok batch.lists :=
      RawBatch.compressed?_eq_ok_iff_valid.mpr
        ⟨rfl, accepts.valid, accepts.length_lower, accepts.length_upper⟩
    have holds : batch.Holds batch.columns := RawBatch.holds_of_compressed? hcompressed
    exact (ingestColumns_iff_of_holds holds).mpr ⟨hordered.mpr accepts.ordered,
      (room_iff holds.flatMap_indices).mpr ⟨accepts.exist, accepts.free⟩, hnext⟩

theorem AcceptsColumns.distinct (accepts : program.AcceptsColumns batch) :
    ∀ column ∈ batch.columns, column.Distinct := by
  have hok := CompressedEntries.ofLists?_eq_ok_iff_valid.mpr ⟨rfl, accepts.valid⟩
  exact fun column hmem => (CompressedEntries.entries_accepted hok hmem).distinct

/-! ## What becomes of the program -/

/-- What becomes of the constraint at a position when the columns of a batch are stored, the
first of them at an index: its range stays, its terms come first, and each column that names the
position adds its value. -/
structure ColumnsStored (batch : RawBatch) (first position : Nat)
    (before after : Constraint) : Prop where
  lower : after.lower = before.lower
  upper : after.upper = before.upper
  terms : after.row.terms = before.row.terms ++ Entry.termsForRow batch.columns first position
  named : ∀ (number : Nat) (column : Entry Binary64) (value : Binary64),
    batch.columns[number]? = some column → column.get? position = some value →
      after.row.get? (first + number) = some value
  unnamed : ∀ (number : Nat) (column : Entry Binary64), batch.columns[number]? = some column →
    column.get? position = none →
      after.row.get? (first + number) = before.row.get? (first + number)
  other : ∀ index, (∀ number < batch.columns.length, index ≠ first + number) →
    after.row.get? index = before.row.get? index

/-- What a program becomes when the columns of a batch are taken in. -/
structure ColumnsAdded (program : Program) (batch : RawBatch) (next : Program) : Prop where
  sense : next.sense = program.sense
  initialized : next.initialized = program.initialized
  vars : next.vars = program.vars ++ batch.vars
  objective : next.objective.terms =
    program.objective.terms ++ List.replicate batch.columns.length .absent
  length_constraints : next.constraints.length = program.constraints.length
  constraint : ∀ (position : Nat) (before after : Constraint),
    program.constraints[position]? = some before → next.constraints[position]? = some after →
      ColumnsStored batch program.vars.length position before after

theorem AcceptsColumns.columnsStored (accepts : program.AcceptsColumns batch) {position : Nat}
    {before : Constraint} (hbefore : program.constraints[position]? = some before) :
    ColumnsStored batch program.vars.length position before { before with
      row := ⟨before.row.terms ++
        Entry.termsForRow batch.columns program.vars.length position⟩ } := by
  have hget (index : Nat) : (⟨before.row.terms ++ Entry.termsForRow batch.columns
        program.vars.length position⟩ : Entry Binary64).get? index =
      (before.row.get? index).or
        ((Entry.termsForRow batch.columns program.vars.length position).lookup index) :=
    List.lookup_append
  refine ⟨rfl, rfl, rfl, ?_, ?_, ?_⟩
  · intro number column value hcolumn hvalue
    have hposition : position ∈ column.indices :=
      (Entry.get?_isSome_iff _ _).mp (by rw [hvalue]; rfl)
    have hfree := accepts.free number column position before hcolumn hposition hbefore
    rw [hget, hfree, Entry.lookup_termsForRow, hcolumn, Option.none_or, Option.bind_some, hvalue]
  · intro number column hcolumn hnone
    rw [hget, Entry.lookup_termsForRow, hcolumn, Option.bind_some, hnone, Option.or_none]
  · intro index hother
    rw [hget]
    by_cases hlt : index < program.vars.length
    · rw [Entry.lookup_termsForRow_of_lt hlt, Option.or_none]
    · obtain ⟨number, rfl⟩ := Nat.exists_eq_add_of_le (Nat.le_of_not_lt hlt)
      have hbeyond : batch.columns.length ≤ number :=
        Nat.le_of_not_lt fun hinside => hother number hinside rfl
      rw [Entry.lookup_termsForRow, List.getElem?_eq_none hbeyond, Option.bind_none,
        Option.or_none]

theorem AcceptsColumns.columnsAdded (accepts : program.AcceptsColumns batch) :
    program.ColumnsAdded batch (program.addColumns batch.vars batch.columns) := by
  have hcount : batch.vars.length = batch.columns.length := by
    simp [RawBatch.vars, accepts.length_lower, accepts.length_upper]
  refine ⟨rfl, rfl, rfl, ?_, PlacedTerm.length_foldl_store _ _, ?_⟩
  · rw [← hcount]
    rfl
  · intro position before after hbefore hafter
    rw [addColumns, PlacedTerm.getElem?_foldl_store, hbefore,
      PlacedTerm.termsAt_ofColumns accepts.distinct] at hafter
    cases hafter
    exact accepts.columnsStored hbefore

end Program

end LinProg
