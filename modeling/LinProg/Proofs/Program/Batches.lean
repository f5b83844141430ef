/-
# Batches of segments

A batch that was put together from segments, with one pair of bounds for each, can only be
refused for a repeated index in a segment. Rows that come in such a batch are the rows that
the constructor makes of the segments, with their bounds beside them. Columns need room in
the rows as well, and then all of their terms are stored.
-/
import LinProg.Proofs.Program.Ingestion
import LinProg.Proofs.Sparse.Concatenation

namespace LinProg

/-- Rows with the bounds at the same positions. -/
def Constraint.ofRows (rows : List (Entry Binary64)) (lower upper : List Binary64) :
    List Constraint :=
  List.zipWith (fun row range => ⟨row, range.1, range.2⟩) rows (lower.zip upper)

theorem Constraint.length_ofRows {rows : List (Entry Binary64)} {lower upper : List Binary64}
    (hlower : lower.length = rows.length) (hupper : upper.length = rows.length) :
    (ofRows rows lower upper).length = rows.length := by
  simp [ofRows, hlower, hupper]

theorem Constraint.getElem?_ofRows {rows : List (Entry Binary64)} {lower upper : List Binary64}
    {position : Nat} {row : Entry Binary64} (hat : rows[position]? = some row)
    (hlower : position < lower.length) (hupper : position < upper.length) :
    (ofRows rows lower upper)[position]? = some ⟨row, lower[position], upper[position]⟩ := by
  simp [ofRows, List.getElem?_zipWith, List.zip, hat, hlower, hupper]

theorem Constraint.of_mem_ofRows {rows : List (Entry Binary64)} {lower upper : List Binary64}
    {constraint : Constraint} (hmem : constraint ∈ ofRows rows lower upper) :
    constraint.row ∈ rows ∧ constraint.lower ∈ lower ∧ constraint.upper ∈ upper := by
  rw [ofRows, ← List.map_uncurry_zip_eq_zipWith] at hmem
  obtain ⟨pair, hpair, rfl⟩ := List.mem_map.mp hmem
  obtain ⟨hrow, hrange⟩ := List.of_mem_zip hpair
  exact ⟨hrow, List.of_mem_zip hrange⟩

namespace RawBatch

/-- Segments of values and indices, with bounds. -/
def ofSegments (segments : List (List Binary64 × List Nat)) (lower upper : List Binary64) :
    RawBatch where
  values := (CompressedEntries.concat segments).values
  offsets := (CompressedEntries.concat segments).offsets
  indices := (CompressedEntries.concat segments).indices
  lower := lower
  upper := upper

/-- Entries with bounds. -/
def ofEntries (entries : List (Entry Binary64)) (lower upper : List Binary64) : RawBatch :=
  ofSegments (entries.map Entry.segment) lower upper

variable {segments : List (List Binary64 × List Nat)} {entries : List (Entry Binary64)}
  {lower upper : List Binary64}

/-- With bounds for every segment, only the check of the segments remains. -/
theorem compressed?_ofSegments
    (hpaired : ∀ segment ∈ segments, segment.1.length = segment.2.length)
    (hlower : lower.length = segments.length) (hupper : upper.length = segments.length) :
    (ofSegments segments lower upper).compressed? =
      asSolverError ((segments.mapM fun segment => Entry.ofLists? segment.1 segment.2).map
        fun _ => CompressedEntries.concat segments) := by
  have hbounds : (CompressedEntries.concat segments).checkBounds lower upper = .ok () := by
    rw [CompressedEntries.checkBounds_eq_ok_iff, CompressedEntries.segmentCount_concat]
    exact ⟨hlower, hupper⟩
  have hlists := CompressedEntries.ofLists?_concat hpaired
  simp only [compressed?, ofSegments, hlists]
  cases segments.mapM fun segment => Entry.ofLists? segment.1 segment.2 with
  | error error => rfl
  | ok rows =>
      show (asSolverError ((CompressedEntries.concat segments).checkBounds lower upper) >>= _) = _
      rw [hbounds]
      rfl

/-- Entries without repeated indices are accepted and given back. -/
theorem compressed?_ofEntries (distinct : ∀ entry ∈ entries, entry.Distinct)
    (hlower : lower.length = entries.length) (hupper : upper.length = entries.length) :
    ∃ compressed, (ofEntries entries lower upper).compressed? = .ok compressed ∧
      compressed.entries = entries ∧ compressed.indices = entries.flatMap Entry.indices := by
  have hpaired := CompressedEntries.paired_segment entries
  have haccepted := CompressedEntries.mapM_ofLists?_segment distinct
  have hcompressed : (ofEntries entries lower upper).compressed? =
      .ok (CompressedEntries.concat (entries.map Entry.segment)) := by
    rw [ofEntries, compressed?_ofSegments hpaired (by simpa using hlower) (by simpa using hupper),
      haccepted]
    rfl
  refine ⟨_, hcompressed, CompressedEntries.entries_concat_of_mapM hpaired haccepted, ?_⟩
  exact List.flatMap_map Entry.segment Prod.snd entries

end RawBatch

namespace Program

/-- The rows of a batch of segments are what the constructor makes of the segments. -/
theorem ingestRows_ofSegments (program : Program)
    {segments : List (List Binary64 × List Nat)} {lower upper : List Binary64}
    (hpaired : ∀ segment ∈ segments, segment.1.length = segment.2.length)
    (hlower : lower.length = segments.length) (hupper : upper.length = segments.length) :
    program.ingestRows (.ofSegments segments lower upper) =
      asSolverError ((segments.mapM fun segment => Entry.ofLists? segment.1 segment.2).map
        fun rows => program.addConstraints (Constraint.ofRows rows lower upper)) := by
  rw [ingestRows, RawBatch.compressed?_ofSegments hpaired hlower hupper]
  cases hrows : segments.mapM fun segment => Entry.ofLists? segment.1 segment.2 with
  | error error => rfl
  | ok rows =>
      show Except.ok (program.addConstraints
        (List.zipWith _ (CompressedEntries.concat segments).entries (lower.zip upper))) = _
      rw [CompressedEntries.entries_concat_of_mapM hpaired hrows]
      rfl

/-- Append variables with their columns, whose terms are stored without a check. -/
def addColumns (program : Program) (added : List Variable) (columns : List (Entry Binary64)) :
    Program :=
  { program.addVariables added with
    constraints := (PlacedTerm.ofColumns (columns.zipIdx program.vars.length)).foldl
      (fun constraints term => term.store constraints) program.constraints }

variable {program : Program} {entries : List (Entry Binary64)}

/-- Entries are accepted as rows. -/
theorem ingestRows_ofEntries {lower upper : List Binary64}
    (distinct : ∀ entry ∈ entries, entry.Distinct) (hlower : lower.length = entries.length)
    (hupper : upper.length = entries.length) :
    program.ingestRows (.ofEntries entries lower upper) =
      .ok (program.addConstraints (Constraint.ofRows entries lower upper)) := by
  obtain ⟨compressed, hcompressed, hentries, -⟩ :=
    RawBatch.compressed?_ofEntries distinct hlower hupper
  apply (ingestRows_eq_ok_iff _ _ _).mpr
  refine ⟨compressed, hcompressed, ?_⟩
  rw [hentries]
  rfl

/-- Bounds in order are accepted for columns. -/
theorem mapM_between?_of_ordered {added : List Variable}
    (ordered : ∀ bounds ∈ added, bounds.Ordered) :
    ((added.map Variable.lower).zip (added.map Variable.upper)).mapM
      (fun range => Variable.between? range.1 range.2) = .ok added := by
  rw [List.zip_map', mapM_eq_ok_iff, List.forall₂_map_left_iff, List.forall₂_same]
  intro bounds hmem
  exact (Variable.between?_eq_ok_iff _ _ _).mpr ⟨ordered bounds hmem, rfl⟩

/-- With room for all terms of columns there is room for the terms of each column. -/
theorem hasRoom_of_ofColumns {columns : List (Entry Binary64 × Nat)}
    (room : ∀ term ∈ PlacedTerm.ofColumns columns, HasRoom program.constraints term.place)
    {column : Entry Binary64 × Nat} (hcolumn : column ∈ columns) {position : Nat}
    (hposition : position ∈ column.1.indices) :
    HasRoom program.constraints (position, column.2) := by
  obtain ⟨stored, hstored, rfl⟩ := List.mem_map.mp hposition
  apply room ⟨stored.1, column.2, stored.2⟩
  exact List.mem_flatMap.mpr ⟨column, hcolumn, List.mem_map.mpr ⟨stored, hstored, rfl⟩⟩

theorem storesColumn_eq_false {column : Entry Binary64 × Nat}
    (room : ∀ position ∈ column.1.indices, HasRoom program.constraints (position, column.2)) :
    program.storesColumn column = false := by
  apply List.any_eq_false.mpr
  intro position hposition
  obtain ⟨constraint, hat, hfree⟩ := room position hposition
  rw [hat, Option.bind_some, Entry.get?_isSome_iff]
  exact hfree

/-- Entries are accepted as columns if the rows have room for all of their terms. -/
theorem ingestColumns_ofEntries {added : List Variable}
    (distinct : ∀ entry ∈ entries, entry.Distinct) (hlength : added.length = entries.length)
    (ordered : ∀ bounds ∈ added, bounds.Ordered)
    (room : ∀ term ∈ PlacedTerm.ofColumns (entries.zipIdx program.vars.length),
      HasRoom program.constraints term.place) :
    program.ingestColumns
        (.ofEntries entries (added.map Variable.lower) (added.map Variable.upper)) =
      .ok (program.addColumns added entries) := by
  obtain ⟨compressed, hcompressed, hentries, hindices⟩ :=
    @RawBatch.compressed?_ofEntries entries (added.map Variable.lower) (added.map Variable.upper)
      distinct (by simpa using hlength) (by simpa using hlength)
  have hcolumns : program.newColumns compressed = entries.zipIdx program.vars.length := by
    rw [newColumns, hentries]
  apply (ingestColumns_eq_ok_iff _ _ _).mpr
  refine ⟨compressed, hcompressed, ?_, added, mapM_between?_of_ordered ordered, ?_, ?_⟩
  · intro index hmem
    rw [hindices, ← List.zipIdx_map_fst program.vars.length entries, List.flatMap_map] at hmem
    obtain ⟨column, hcolumn, hindex⟩ := List.mem_flatMap.mp hmem
    obtain ⟨constraint, hat, -⟩ := hasRoom_of_ofColumns room hcolumn hindex
    exact (List.getElem?_eq_some_iff.mp hat).1
  · intro column hcolumn
    rw [hcolumns] at hcolumn
    exact storesColumn_eq_false fun position hposition =>
      hasRoom_of_ofColumns room hcolumn hposition
  · rw [hcolumns, addColumns, PlacedTerm.foldl_store_ofColumns]

end Program

end LinProg
