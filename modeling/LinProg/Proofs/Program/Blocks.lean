/-
# Blocks by rows and by columns

A block of terms below the constraints and to the right of the variables of a program can be
handed over row by row or column by column. By rows, each entry is a new row and is taken as
it is. By columns, each term is stored on its own in a row that was empty before. In either
case a row gets the terms of the block at its position, but in the order of the rows in the
one case and of the columns in the other. A column of a block is a row of its transpose, so
entries have to be described only once.
-/
import LinProg.Proofs.Program.Batches
import LinProg.Proofs.Program.Equality
import LinProg.Proofs.Program.Storing

namespace LinProg

/-- Lists that are related position by position. -/
theorem forall₂_of_getElem? {α β : Type} {related : α → β → Prop} {left : List α} {right : List β}
    (hlength : left.length = right.length)
    (hrelated : ∀ (position : Nat) (first : α) (second : β), left[position]? = some first →
      right[position]? = some second → related first second) :
    List.Forall₂ related left right := by
  apply List.forall₂_iff_get.mpr
  apply And.intro hlength
  intro position hleft hright
  exact hrelated position _ _ (List.getElem?_eq_getElem hleft) (List.getElem?_eq_getElem hright)

namespace PlacedTerm

/-- The term with its row and its column exchanged. -/
def swap (term : PlacedTerm) : PlacedTerm :=
  ⟨term.index, term.position, term.value⟩

/-- The term moved below so many rows and to the right of so many columns. -/
def shift (rows columns : Nat) (term : PlacedTerm) : PlacedTerm :=
  ⟨rows + term.position, columns + term.index, term.value⟩

theorem shift_injective (rows columns : Nat) : Function.Injective (shift rows columns) := by
  intro first second hsame
  cases first
  cases second
  simpa [shift] using hsame

end PlacedTerm

/-- Defined values at different places of a matrix. -/
structure Block (height width : Nat) where
  terms : List PlacedTerm
  inside : ∀ term ∈ terms, term.position < height ∧ term.index < width
  nodup : (terms.map PlacedTerm.place).Nodup
  defined : ∀ term ∈ terms, term.value ≠ .nan

namespace Block

variable {height width : Nat} (block : Block height width)

/-- The block with rows and columns exchanged. -/
def transpose : Block width height where
  terms := block.terms.map PlacedTerm.swap
  inside := by
    intro swapped hmem
    obtain ⟨term, hterm, rfl⟩ := List.mem_map.mp hmem
    exact (block.inside term hterm).symm
  nodup := by
    have hplaces : (block.terms.map PlacedTerm.swap).map PlacedTerm.place =
        (block.terms.map PlacedTerm.place).map Prod.swap := by
      rw [List.map_map, List.map_map]
      rfl
    rw [hplaces]
    exact block.nodup.map Prod.swap_injective
  defined := by
    intro swapped hmem
    obtain ⟨term, hterm, rfl⟩ := List.mem_map.mp hmem
    exact block.defined term hterm

/-- The terms of a row, their indices counted from a first one. -/
def rowTerms (first position : Nat) : List (Nat × Binary64) :=
  (block.terms.filter fun term => term.position = position).map fun term =>
    (first + term.index, term.value)

/-- Entries store the rows of a block, each in any order. -/
structure RowWise (first : Nat) (rows : List (Entry Binary64)) : Prop where
  length : rows.length = height
  terms : ∀ (position : Nat) (row : Entry Binary64), rows[position]? = some row →
    row.terms.Perm (block.rowTerms first position)

/-- Entries store the columns of a block, each in any order. -/
def ColumnWise (first : Nat) (columns : List (Entry Binary64)) : Prop :=
  block.transpose.RowWise first columns

theorem mem_rowTerms {first position : Nat} {stored : Nat × Binary64} :
    stored ∈ block.rowTerms first position ↔
      ∃ term ∈ block.terms, term.position = position ∧ (first + term.index, term.value) = stored := by
  simp [rowTerms, and_assoc]

/-- Terms of one row lie in different columns. -/
theorem nodup_rowTerms (first position : Nat) :
    ((block.rowTerms first position).map Prod.fst).Nodup := by
  have hterms : block.terms.Nodup := block.nodup.of_map
  rw [rowTerms, List.map_map]
  apply (hterms.filter _).map_on
  intro left hleft right hright hindex
  have hpositions : left.position = right.position := by
    have hleft : left.position = position := by simpa using List.of_mem_filter hleft
    have hright : right.position = position := by simpa using List.of_mem_filter hright
    rw [hleft, hright]
  exact List.inj_on_of_nodup_map block.nodup (List.mem_of_mem_filter hleft)
    (List.mem_of_mem_filter hright) (Prod.ext hpositions (Nat.add_left_cancel hindex))

namespace RowWise

variable {block} {first : Nat} {rows : List (Entry Binary64)}

theorem distinct (rowWise : block.RowWise first rows) : ∀ row ∈ rows, row.Distinct := by
  intro row hmem
  obtain ⟨position, hat⟩ := List.getElem?_of_mem hmem
  exact ((rowWise.terms position row hat).map Prod.fst).nodup_iff.mpr
    (block.nodup_rowTerms first position)

theorem defined (rowWise : block.RowWise first rows) :
    ∀ row ∈ rows, ∀ value ∈ row.values, value ≠ .nan := by
  intro row hmem value hvalue
  obtain ⟨position, hat⟩ := List.getElem?_of_mem hmem
  obtain ⟨stored, hstored, rfl⟩ := List.mem_map.mp hvalue
  obtain ⟨term, hterm, -, rfl⟩ :=
    block.mem_rowTerms.mp ((rowWise.terms position row hat).mem_iff.mp hstored)
  exact block.defined term hterm

end RowWise

/-! ## Terms of columns -/

variable {block} {rows columns : Nat} {newRows newColumns : List (Entry Binary64)}

theorem ColumnWise.mem_ofColumns_iff (columnWise : block.ColumnWise rows newColumns)
    (term : PlacedTerm) :
    term ∈ PlacedTerm.ofColumns (newColumns.zipIdx columns) ↔
      term ∈ block.terms.map (PlacedTerm.shift rows columns) := by
  apply Iff.intro
  · intro hmem
    obtain ⟨column, hcolumn, hterm⟩ := List.mem_flatMap.mp hmem
    obtain ⟨stored, hstored, rfl⟩ := List.mem_map.mp hterm
    obtain ⟨hfirst, hat⟩ := List.mk_mem_zipIdx_iff_le_and_getElem?_sub.mp hcolumn
    have hstored := (columnWise.terms _ _ hat).mem_iff.mp hstored
    obtain ⟨swapped, hswapped, hindex, rfl⟩ := block.transpose.mem_rowTerms.mp hstored
    obtain ⟨original, horiginal, rfl⟩ := List.mem_map.mp hswapped
    have hcolumns : columns + original.index = column.2 := by
      have hindex : original.index = column.2 - columns := hindex
      omega
    exact List.mem_map.mpr ⟨original, horiginal, by rw [PlacedTerm.shift, hcolumns]; rfl⟩
  · intro hmem
    obtain ⟨original, horiginal, rfl⟩ := List.mem_map.mp hmem
    have hlt : original.index < newColumns.length := by
      rw [columnWise.length]
      exact (block.inside original horiginal).2
    have hat := List.getElem?_eq_getElem hlt
    have hstored : (rows + original.position, original.value) ∈ newColumns[original.index].terms := by
      rw [(columnWise.terms _ _ hat).mem_iff, mem_rowTerms]
      exact ⟨original.swap, List.mem_map_of_mem horiginal, rfl, rfl⟩
    have hcolumn : (newColumns[original.index], columns + original.index) ∈ newColumns.zipIdx columns := by
      rw [List.mk_mem_zipIdx_iff_le_and_getElem?_sub, Nat.add_sub_cancel_left]
      exact ⟨Nat.le_add_right _ _, hat⟩
    exact List.mem_flatMap.mpr ⟨_, hcolumn, List.mem_map.mpr ⟨_, hstored, rfl⟩⟩

/-- The terms of the columns are those of the block, each once. -/
theorem ColumnWise.ofColumns_perm (columnWise : block.ColumnWise rows newColumns) (columns : Nat) :
    (PlacedTerm.ofColumns (newColumns.zipIdx columns)).Perm
      (block.terms.map (PlacedTerm.shift rows columns)) := by
  have hindices : ((newColumns.zipIdx columns).map Prod.snd).Nodup := by
    rw [List.zipIdx_map_snd]
    exact List.nodup_range'
  have hplaces := PlacedTerm.nodup_place_ofColumns hindices fun column hmem =>
    columnWise.distinct column.1 (List.fst_mem_of_mem_zipIdx hmem)
  have hterms : (block.terms.map (PlacedTerm.shift rows columns)).Nodup :=
    block.nodup.of_map.map (PlacedTerm.shift_injective rows columns)
  exact (List.perm_ext_iff_of_nodup hplaces.of_map hterms).mpr columnWise.mem_ofColumns_iff

theorem termsAt_shift_of_lt {position : Nat} (hlt : position < rows) :
    PlacedTerm.termsAt (block.terms.map (PlacedTerm.shift rows columns)) position = [] := by
  apply List.eq_nil_iff_forall_not_mem.mpr
  intro stored hmem
  obtain ⟨term, -, hshift⟩ := List.mem_map.mp (PlacedTerm.mem_termsAt.mp hmem)
  have hposition : rows + term.position = position := congrArg PlacedTerm.position hshift
  omega

theorem termsAt_shift (rows columns position : Nat) :
    PlacedTerm.termsAt (block.terms.map (PlacedTerm.shift rows columns)) (rows + position) =
      block.rowTerms columns position := by
  simp [PlacedTerm.termsAt, rowTerms, List.filter_map, Function.comp_def, PlacedTerm.shift]

/-! ## Rows -/

variable {constraints : List Constraint} {lower upper : List Binary64}

theorem getElem?_emptyRows {position : Nat} (hlt : position < height)
    (hlower : lower.length = height) (hupper : upper.length = height) :
    (constraints ++ Constraint.ofRows (List.replicate height .empty) lower upper)[
        constraints.length + position]? = some ⟨.empty, lower[position], upper[position]⟩ := by
  rw [List.getElem?_append_right (Nat.le_add_right _ _), Nat.add_sub_cancel_left]
  exact Constraint.getElem?_ofRows (by simp [hlt]) (by omega) (by omega)

/-- Empty rows that are not there yet have room for the terms of the columns. -/
theorem ColumnWise.hasRoom (columnWise : block.ColumnWise constraints.length newColumns)
    (hlower : lower.length = height) (hupper : upper.length = height) (columns : Nat) :
    ∀ term ∈ PlacedTerm.ofColumns (newColumns.zipIdx columns),
      HasRoom (constraints ++ Constraint.ofRows (List.replicate height .empty) lower upper)
        term.place := by
  intro term hmem
  obtain ⟨original, horiginal, rfl⟩ := List.mem_map.mp ((columnWise.mem_ofColumns_iff term).mp hmem)
  have hlt := (block.inside original horiginal).1
  exact ⟨_, getElem?_emptyRows hlt hlower hupper, List.not_mem_nil⟩

/-- Rows that are taken as they are and rows that are filled column by column store the same
terms. -/
theorem reordered_rows (rowWise : block.RowWise columns newRows)
    (columnWise : block.ColumnWise constraints.length newColumns)
    (hlower : lower.length = height) (hupper : upper.length = height) :
    List.Forall₂ Constraint.Reordered (constraints ++ Constraint.ofRows newRows lower upper)
      ((PlacedTerm.ofColumns (newColumns.zipIdx columns)).foldl
        (fun constraints term => term.store constraints)
        (constraints ++ Constraint.ofRows (List.replicate height .empty) lower upper)) := by
  have hlowerRows : lower.length = newRows.length := hlower.trans rowWise.length.symm
  have hupperRows : upper.length = newRows.length := hupper.trans rowWise.length.symm
  apply forall₂_of_getElem?
  · rw [PlacedTerm.length_foldl_store, List.length_append, List.length_append,
      Constraint.length_ofRows hlowerRows hupperRows, rowWise.length,
      Constraint.length_ofRows (by simpa using hlower) (by simpa using hupper),
      List.length_replicate]
  · intro position left right hleft hright
    have hterms := PlacedTerm.termsAt_perm (columnWise.ofColumns_perm columns) position
    rw [PlacedTerm.getElem?_foldl_store] at hright
    by_cases hold : position < constraints.length
    · rw [List.getElem?_append_left hold] at hleft hright
      rw [hleft] at hright
      cases hright
      rw [termsAt_shift_of_lt hold] at hterms
      refine ⟨?_, rfl, rfl⟩
      show left.row.terms.Perm (left.row.terms ++ _)
      rw [hterms.eq_nil, List.append_nil]
    · obtain ⟨offset, rfl⟩ := Nat.exists_eq_add_of_le (Nat.le_of_not_lt hold)
      rw [List.getElem?_append_right (Nat.le_add_right _ _), Nat.add_sub_cancel_left] at hleft
      have hnew : offset < newRows.length := by
        rw [← Constraint.length_ofRows hlowerRows hupperRows]
        exact (List.getElem?_eq_some_iff.mp hleft).1
      have hat := List.getElem?_eq_getElem hnew
      rw [Constraint.getElem?_ofRows hat (by omega) (by omega)] at hleft
      rw [getElem?_emptyRows (by omega) hlower hupper] at hright
      cases hleft
      cases hright
      rw [termsAt_shift] at hterms
      exact ⟨(rowWise.terms offset _ hat).trans hterms.symm, rfl, rfl⟩

/-! ## Ingestion of blocks -/

variable {program : Program} {added : List Variable}

theorem RowWise.ingest (rowWise : block.RowWise columns newRows) (program : Program)
    (hlower : lower.length = height) (hupper : upper.length = height) :
    program.ingest (.rows (.ofEntries newRows lower upper)) =
      .ok (program.addConstraints (Constraint.ofRows newRows lower upper)) :=
  Program.ingestRows_ofEntries rowWise.distinct (hlower.trans rowWise.length.symm)
    (hupper.trans rowWise.length.symm)

theorem ingest_emptyRows (program : Program) (hlower : lower.length = height)
    (hupper : upper.length = height) :
    program.ingest (.rows (.ofEntries (List.replicate height .empty) lower upper)) =
      .ok (program.addConstraints
        (Constraint.ofRows (List.replicate height .empty) lower upper)) := by
  apply Program.ingestRows_ofEntries
  · intro entry hmem
    rw [List.eq_of_mem_replicate hmem]
    exact List.nodup_nil
  · simpa using hlower
  · simpa using hupper

theorem ColumnWise.ingest (columnWise : block.ColumnWise program.constraints.length newColumns)
    (hlower : lower.length = height) (hupper : upper.length = height)
    (hadded : added.length = width) (ordered : ∀ bounds ∈ added, bounds.Ordered) :
    (program.addConstraints
        (Constraint.ofRows (List.replicate height .empty) lower upper)).ingest
      (.columns
        (.ofEntries newColumns (added.map Variable.lower) (added.map Variable.upper))) =
      .ok ((program.addConstraints
        (Constraint.ofRows (List.replicate height .empty) lower upper)).addColumns
          added newColumns) :=
  Program.ingestColumns_ofEntries columnWise.distinct (hadded.trans columnWise.length.symm) ordered
    (columnWise.hasRoom hlower hupper program.vars.length)

/-- The program with the rows of a block and the one with its columns are equal. -/
theorem beq_addColumns (nanFree : program.NanFree)
    (distinct : ∀ constraint ∈ program.constraints, constraint.row.Distinct)
    (hlower : lower.length = height) (hupper : upper.length = height)
    (hranges : ∀ bound ∈ lower ++ upper, bound ≠ .nan) (ordered : ∀ bounds ∈ added, bounds.Ordered)
    (rowWise : block.RowWise program.vars.length newRows)
    (columnWise : block.ColumnWise program.constraints.length newColumns) :
    ((program.addVariables added).addConstraints (Constraint.ofRows newRows lower upper) ==
      (program.addConstraints
        (Constraint.ofRows (List.replicate height .empty) lower upper)).addColumns
          added newColumns) = true := by
  have hrows : ∀ constraint ∈ Constraint.ofRows newRows lower upper, constraint.NanFree := by
    intro constraint hmem
    obtain ⟨hrow, hleast, hgreatest⟩ := Constraint.of_mem_ofRows hmem
    exact ⟨hranges _ (List.mem_append_left _ hleast), hranges _ (List.mem_append_right _ hgreatest),
      rowWise.defined _ hrow⟩
  apply Program.Reordered.beq
  · exact ⟨rfl, reordered_rows rowWise columnWise hlower hupper, rfl, rfl, rfl⟩
  · exact (nanFree.addVariables ordered).addConstraints hrows
  · intro constraint hmem
    cases List.mem_append.mp hmem with
    | inl hold => exact distinct constraint hold
    | inr hnew => exact rowWise.distinct _ (Constraint.of_mem_ofRows hnew).1

end Block

end LinProg
