/-
# Dense matrices along their columns

Storing a dense matrix along its columns is storing the transpose along its rows. The library
builds a transpose from the last row upwards, each row on top of the columns so far, and that
packs the rows that reach a column just as the storage along the columns does. Whatever the
direction, entries then have increasing indices and no zeros, and together as many terms as
the matrix has nonzero elements.
-/
import LinProg.Proofs.Sparse.Dense

namespace LinProg.SparseMatrix

section Transposing

variable {α : Type}

/-! ## The transpose, row by row -/

/-- Put the elements of a row on top of the columns. Where there is no column yet, an element
starts one. -/
def onTop : List (List α) → List α → List (List α)
  | [], row => row.map fun value => [value]
  | column :: columns, [] => column :: columns
  | column :: columns, value :: row => (value :: column) :: onTop columns row

@[simp]
theorem onTop_nil (columns : List (List α)) : onTop columns [] = columns := by
  cases columns <;> rfl

theorem onTop_mapM_pop (columns : List (List α)) (row : List α) :
    ((columns.mapM List.transpose.pop : StateM (List α) (List (List α))) row).1 ++
      ((columns.mapM List.transpose.pop : StateM (List α) (List (List α))) row).2.map
        (fun value => [value]) = onTop columns row := by
  induction columns generalizing row with
  | nil => rfl
  | cons column columns ih =>
      rw [List.mapM_cons]
      cases row with
      | nil => exact (congrArg (List.cons column) (ih [])).trans (by rw [onTop_nil]; rfl)
      | cons value row => exact congrArg (List.cons (value :: column)) (ih row)

theorem transpose_cons (row : List α) (rest : List (List α)) :
    (row :: rest).transpose = onTop rest.transpose row := by
  have hgo (columns : Array (List α)) :
      (List.transpose.go row columns).toList = onTop columns.toList row := by
    rw [← onTop_mapM_pop, List.transpose.go, Array.mapM_eq_mapM_toList]
    simp only [List.foldl_push_eq_append]
    exact Array.toList_append
  rw [List.transpose, List.foldr_cons, hgo]
  rfl

theorem length_onTop (columns : List (List α)) (row : List α) :
    (onTop columns row).length = max row.length columns.length := by
  induction columns generalizing row with
  | nil => simp [onTop]
  | cons column columns ih =>
      cases row with
      | nil => simp [onTop]
      | cons value row => simp [onTop, ih, Nat.succ_max_succ]

theorem getElem?_onTop (columns : List (List α)) (row : List α) (position : Nat) :
    ((onTop columns row)[position]?).getD [] =
      row[position]?.toList ++ (columns[position]?).getD [] := by
  induction columns generalizing row position with
  | nil => cases hvalue : row[position]? <;> simp [onTop, hvalue]
  | cons column columns ih =>
      cases row with
      | nil => simp
      | cons value row =>
          cases position with
          | zero => rfl
          | succ position => exact ih row position

theorem flatten_onTop_perm (columns : List (List α)) (row : List α) :
    (onTop columns row).flatten.Perm (row ++ columns.flatten) := by
  induction columns generalizing row with
  | nil => simp [onTop, ← List.flatMap_def]
  | cons column columns ih =>
      cases row with
      | nil => simp
      | cons value row =>
          have hrest : (column ++ (onTop columns row).flatten).Perm
              (row ++ (column ++ columns.flatten)) :=
            ((ih row).append_left column).trans (List.perm_append_comm_assoc _ _ _)
          exact hrest.cons value

/-- A matrix and its transpose have the same elements. -/
theorem flatten_transpose_perm (dense : List (List α)) :
    dense.transpose.flatten.Perm dense.flatten := by
  induction dense with
  | nil => exact List.Perm.refl _
  | cons row rest ih =>
      rw [transpose_cons, List.flatten_cons]
      exact (flatten_onTop_perm _ row).trans (ih.append_left row)

/-! ## The transpose, column by column -/

theorem width_cons (row : List α) (rest : List (List α)) :
    width (row :: rest) = max row.length (width rest) := by
  have hfold (start : Nat) : rest.foldl (fun widest row => max widest row.length) start =
      max start (width rest) := by
    rw [width]
    induction rest generalizing start with
    | nil => simp
    | cons first rest ih =>
        rw [List.foldl_cons, List.foldl_cons, ih, ih (max 0 first.length)]
        omega
  rw [width, List.foldl_cons, hfold]
  omega

theorem denseColumn_cons (row : List α) (rest : List (List α)) (column : Nat) :
    denseColumn (row :: rest) column = row[column]?.toList ++ denseColumn rest column := by
  cases hvalue : row[column]? with
  | none => exact List.filterMap_cons_none hvalue
  | some value => exact List.filterMap_cons_some hvalue

theorem length_transpose (dense : List (List α)) : dense.transpose.length = width dense := by
  induction dense with
  | nil => rfl
  | cons row rest ih => rw [transpose_cons, length_onTop, width_cons, ih]

theorem getElem?_transpose (dense : List (List α)) (column : Nat) :
    (dense.transpose[column]?).getD [] = denseColumn dense column := by
  induction dense with
  | nil => rfl
  | cons row rest ih => rw [transpose_cons, getElem?_onTop, ih, denseColumn_cons]

/-- The rows of the transpose are the columns as far as rows reach them. -/
theorem transpose_eq_map_denseColumn (dense : List (List α)) :
    dense.transpose = (List.range (width dense)).map (denseColumn dense) := by
  apply List.ext_getElem?
  intro column
  by_cases hcolumn : column < width dense
  · have hlt : column < dense.transpose.length := (length_transpose dense).symm ▸ hcolumn
    have hvalues := getElem?_transpose dense column
    rw [List.getElem?_eq_getElem hlt, Option.getD_some] at hvalues
    simp [List.getElem?_eq_getElem hlt, hvalues, hcolumn]
  · have hle : width dense ≤ column := Nat.le_of_not_lt hcolumn
    rw [List.getElem?_eq_none ((length_transpose dense).symm ▸ hle),
      List.getElem?_eq_none (by simpa using hle)]

/-- The rows of one matrix are the columns of the other. -/
structure IsTranspose (dense transposed : List (List α)) (columns : Nat) : Prop where
  length : transposed.length = columns
  length_row : ∀ values ∈ transposed, values.length = dense.length
  element : ∀ row column : Nat, (transposed[column]?.bind fun values => values[row]?) =
    dense[row]?.bind fun values => values[column]?

theorem width_of_rectangular {dense : List (List α)} {columns : Nat} (hne : dense ≠ [])
    (hrows : ∀ values ∈ dense, values.length = columns) : width dense = columns := by
  induction dense with
  | nil => exact absurd rfl hne
  | cons row rest ih =>
      have hrow := hrows row List.mem_cons_self
      rw [width_cons, hrow]
      cases rest with
      | nil => exact Nat.max_zero columns
      | cons next rest =>
          rw [ih (List.cons_ne_nil _ _) fun values hmem =>
            hrows values (List.mem_cons_of_mem _ hmem), Nat.max_self]

/-- Every row reaches every column of a rectangular matrix. -/
theorem getElem?_denseColumn {dense : List (List α)} {columns : Nat}
    (hrows : ∀ values ∈ dense, values.length = columns) (row column : Nat) :
    (denseColumn dense column)[row]? = dense[row]?.bind fun values => values[column]? := by
  by_cases hcolumn : column < columns
  · induction dense generalizing row with
    | nil => rfl
    | cons values rest ih =>
        have hvalue := List.getElem?_eq_getElem
          (hcolumn.trans_eq (hrows values List.mem_cons_self).symm)
        rw [denseColumn_cons, hvalue, Option.toList_some, List.singleton_append]
        cases row with
        | zero => exact hvalue.symm
        | succ row => exact ih (fun values hmem => hrows values (List.mem_cons_of_mem _ hmem)) row
  · have hnone : ∀ values ∈ dense, values[column]? = none := fun values hmem =>
      List.getElem?_eq_none ((hrows values hmem).trans_le (Nat.le_of_not_lt hcolumn))
    rw [denseColumn, List.filterMap_eq_nil_iff.mpr hnone]
    cases hvalues : dense[row]? with
    | none => rfl
    | some values => exact (hnone values (List.mem_of_getElem? hvalues)).symm

theorem isTranspose_transpose {dense : List (List α)} {columns : Nat} (hne : dense ≠ [])
    (hrows : ∀ values ∈ dense, values.length = columns) :
    IsTranspose dense dense.transpose columns := by
  refine ⟨(length_transpose dense).trans (width_of_rectangular hne hrows), ?_, ?_⟩
  · intro values hmem
    rw [transpose_eq_map_denseColumn, width_of_rectangular hne hrows] at hmem
    obtain ⟨column, hcolumn, rfl⟩ := List.mem_map.mp hmem
    refine List.filterMap_length_eq_length.mpr fun values hvalues => ?_
    rw [isSome_getElem?, hrows values hvalues]
    simpa using hcolumn
  · intro row column
    rw [← getElem?_denseColumn hrows, ← getElem?_transpose]
    cases dense.transpose[column]? <;> rfl

end Transposing

variable {α : Type} [BEq α] [OfNat α 0]

/-! ## Entries and their terms -/

theorem entries_ofDense_column (dense : List (List α)) :
    (ofDense dense .column).entries = (ofDense dense.transpose .row).entries := by
  simp only [ofDense, ofRows, ofColumns, transpose_eq_map_denseColumn, List.map_map]
  rfl

theorem size_compress (values : List α) :
    (compress values).size = values.countP fun value => !(value == 0) := by
  have hstored (item : α × Nat) :
      (if item.1 == 0 then none else some (item.2, item.1)).isSome = !(item.1 == 0) := by
    cases item.1 == 0 <;> rfl
  rw [Entry.size, compress, List.length_filterMap_eq_countP]
  simp only [hstored]
  conv_rhs => rw [← List.zipIdx_map_fst 0 values, List.countP_map]
  rfl

theorem size_map_compress (dense : List (List α)) (orientation : Orientation) :
    (⟨orientation, dense.map compress⟩ : SparseMatrix α).size =
      dense.flatten.countP fun value => !(value == 0) := by
  have hfold (start : Nat) : (dense.map compress).foldl (fun total entry => total + entry.size)
      start = start + dense.flatten.countP fun value => !(value == 0) := by
    induction dense generalizing start with
    | nil => rfl
    | cons row rest ih =>
        rw [List.map_cons, List.foldl_cons, ih, size_compress, List.flatten_cons,
          List.countP_append, Nat.add_assoc]
  rw [size, hfold, Nat.zero_add]

theorem exists_compress_of_mem_entries {dense : List (List α)} {orientation : Orientation}
    {entry : Entry α} (hmem : entry ∈ (ofDense dense orientation).entries) :
    ∃ values, entry = compress values := by
  cases orientation with
  | row =>
      obtain ⟨values, -, rfl⟩ := List.mem_map.mp hmem
      exact ⟨values, rfl⟩
  | column =>
      obtain ⟨column, -, rfl⟩ := List.mem_map.mp hmem
      exact ⟨denseColumn dense column, rfl⟩

theorem pairwise_indices_compress (values : List α) :
    (compress values).indices.Pairwise (· < ·) :=
  List.pairwise_lt_range.sublist (indices_compress_sublist values)

theorem ne_zero_of_mem_values_compress (hzero : ∀ value : α, (value == 0) = true ↔ value = 0)
    {values : List α} {value : α} (hmem : value ∈ (compress values).values) : value ≠ 0 := by
  obtain ⟨term, hterm, rfl⟩ := List.mem_map.mp hmem
  exact ((mem_terms_compress hzero).mp hterm).2

/-- Stored along its columns, a dense matrix has the entries of its transpose stored along the
rows. In both directions, the indices of an entry increase, no zeros are stored, and all
entries together have as many terms as the matrix has other elements. -/
theorem ofDense_column_same_as_transpose (hzero : ∀ value : α, (value == 0) = true ↔ value = 0)
    (dense : List (List α)) :
    (ofDense dense .column).entries = (ofDense dense.transpose .row).entries ∧
      (dense ≠ [] → ∀ columns, (∀ values ∈ dense, values.length = columns) →
        IsTranspose dense dense.transpose columns) ∧
      ∀ orientation,
        (∀ entry ∈ (ofDense dense orientation).entries,
          entry.indices.Pairwise (· < ·) ∧ ∀ value ∈ entry.values, value ≠ 0) ∧
        (ofDense dense orientation).size =
          dense.flatten.countP fun value => !(value == 0) := by
  refine ⟨entries_ofDense_column dense, fun hne columns => isTranspose_transpose hne,
    fun orientation => ⟨fun entry hmem => ?_, ?_⟩⟩
  · obtain ⟨values, rfl⟩ := exists_compress_of_mem_entries hmem
    exact ⟨pairwise_indices_compress values, fun value => ne_zero_of_mem_values_compress hzero⟩
  · cases orientation with
    | row => exact size_map_compress dense .row
    | column =>
        rw [← (flatten_transpose_perm dense).countP_eq, ← size_map_compress _ .column]
        exact congrArg (fun entries => size ⟨.column, entries⟩) (entries_ofDense_column dense)

/-- Three nonzero elements in two rows, one in each of three columns. -/
theorem ofDense_column_same_as_transpose_two_by_three :
    let dense : List (List Int) := [[1, 0, 2], [0, 3, 0]]
    (∀ value : Int, (value == 0) = true ↔ value = 0) ∧
      IsTranspose dense dense.transpose 3 ∧
      (ofDense dense.transpose .row).entries = [⟨[(0, 1)]⟩, ⟨[(1, 3)]⟩, ⟨[(0, 2)]⟩] ∧
      (ofDense dense .row).size = 3 ∧ (ofDense dense .column).size = 3 := by
  intro dense
  have hzero : ∀ value : Int, (value == 0) = true ↔ value = 0 := fun value => beq_iff_eq
  have hentries : (ofDense dense .column).entries = [⟨[(0, 1)]⟩, ⟨[(1, 3)]⟩, ⟨[(0, 2)]⟩] := by
    decide
  obtain ⟨hsame, htranspose, hstored⟩ := ofDense_column_same_as_transpose hzero dense
  exact ⟨hzero, htranspose (by decide) 3 (by decide), hsame.symm.trans hentries,
    (hstored .row).2, (hstored .column).2⟩

end LinProg.SparseMatrix
