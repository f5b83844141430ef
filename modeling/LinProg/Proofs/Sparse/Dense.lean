/-
# Dense matrices with rows of different lengths

A dense row that ends before a column has a zero there. Stored along the rows, a dense
matrix is read back as it was given. Stored along the columns, the rows that reach a column
are packed together first, so what stands below a row that is too short moves up. That goes
unnoticed exactly if nothing but zeros stands there.
-/
import LinProg.Proofs.Sparse.Compressed
import LinProg.Proofs.Sparse.Equality

namespace LinProg.SparseMatrix

section Packed

variable {α β : Type}

/-- Packing what a list selects never moves an element down. -/
theorem exists_of_getElem?_filterMap {select : β → Option α} {elements : List β}
    {position : Nat} {value : α}
    (hvalue : (elements.filterMap select)[position]? = some value) :
    ∃ origin, position ≤ origin ∧ elements[origin]?.bind select = some value := by
  induction elements generalizing position with
  | nil => simp at hvalue
  | cons element rest ih =>
      cases hselect : select element with
      | none =>
          rw [List.filterMap_cons_none hselect] at hvalue
          obtain ⟨origin, hle, horigin⟩ := ih hvalue
          exact ⟨origin + 1, by omega, horigin⟩
      | some selected =>
          rw [List.filterMap_cons_some hselect] at hvalue
          cases position with
          | zero => exact ⟨0, Nat.le_refl 0, hselect.trans hvalue⟩
          | succ position =>
              obtain ⟨origin, hle, horigin⟩ := ih hvalue
              exact ⟨origin + 1, by omega, horigin⟩

/-- If packing agrees with the list one place further down, then only zeros are packed:
each other element would have the same element below it again. -/
theorem eq_zero_of_packed_shifts [OfNat α 0] {select : β → Option α} {elements : List β}
    (hshift : ∀ position : Nat, ((elements.filterMap select)[position + 1]?).getD 0 =
      (elements[position]?.bind select).getD 0) (position : Nat) :
    (elements[position]?.bind select).getD 0 = 0 := by
  by_contra hvalue
  have hnext := hshift position
  cases hpacked : (elements.filterMap select)[position + 1]? with
  | none =>
      rw [hpacked] at hnext
      exact hvalue hnext.symm
  | some value =>
      obtain ⟨origin, hbelow, horigin⟩ := exists_of_getElem?_filterMap hpacked
      have hinside : origin < elements.length := by
        by_contra houtside
        simp [List.getElem?_eq_none (Nat.le_of_not_lt houtside)] at horigin
      have hagain := eq_zero_of_packed_shifts hshift origin
      rw [horigin] at hagain
      rw [hpacked] at hnext
      exact hvalue (hnext.symm.trans hagain)
termination_by elements.length - position

/-- Packing keeps every element in its place exactly if only zeros stand below what it
leaves out. -/
theorem packed_eq_iff [OfNat α 0] (select : β → Option α) (elements : List β) :
    (∀ position : Nat, ((elements.filterMap select)[position]?).getD 0 =
        (elements[position]?.bind select).getD 0) ↔
      ∀ (upper lower : Nat) (element : β), upper < lower → elements[upper]? = some element →
        select element = none → (elements[lower]?.bind select).getD 0 = 0 := by
  induction elements with
  | nil => simp
  | cons element rest ih =>
      cases hselect : select element with
      | some value =>
          rw [List.filterMap_cons_some hselect]
          apply Iff.intro
          · intro hpacked upper lower left hlt hleft hnone
            cases upper with
            | zero =>
                cases hleft
                rw [hselect] at hnone
                cases hnone
            | succ upper =>
                obtain ⟨lower, rfl⟩ := Nat.exists_eq_add_one_of_ne_zero (Nat.ne_zero_of_lt hlt)
                exact ih.mp (fun position => hpacked (position + 1)) upper lower left
                  (by omega) hleft hnone
          · intro hzeros position
            cases position with
            | zero => simp [hselect]
            | succ position =>
                refine ih.mpr (fun upper lower left hlt hleft hnone => ?_) position
                exact hzeros (upper + 1) (lower + 1) left (by omega) hleft hnone
      | none =>
          rw [List.filterMap_cons_none hselect]
          -- Everything below this element moves up, so both sides say that it is zero.
          apply Iff.intro
          · intro hpacked upper lower left hlt hleft hnone
            obtain ⟨lower, rfl⟩ := Nat.exists_eq_add_one_of_ne_zero (Nat.ne_zero_of_lt hlt)
            exact eq_zero_of_packed_shifts (fun position => hpacked (position + 1)) lower
          · intro hzeros position
            have hrest : ∀ origin, (rest[origin]?.bind select).getD 0 = 0 := fun origin =>
              hzeros 0 (origin + 1) element (Nat.succ_pos origin) rfl hselect
            have hright : ((element :: rest)[position]?.bind select).getD 0 = 0 := by
              cases position with
              | zero => simp [hselect]
              | succ position => exact hrest position
            rw [hright]
            cases hvalue : (rest.filterMap select)[position]? with
            | none => rfl
            | some value =>
                obtain ⟨origin, -, horigin⟩ := exists_of_getElem?_filterMap hvalue
                have hzero := hrest origin
                rw [horigin] at hzero
                exact hzero

end Packed

variable {α : Type} [BEq α] [OfNat α 0]

/-- The stored terms are the nonzero values, with their positions. -/
theorem mem_terms_compress (hzero : ∀ value : α, (value == 0) = true ↔ value = 0)
    {values : List α} {position : Nat} {value : α} :
    (position, value) ∈ (compress values).terms ↔
      values[position]? = some value ∧ value ≠ 0 := by
  rw [← List.mem_zipIdx_iff_getElem? (x := (value, position)), compress, List.mem_filterMap]
  apply Iff.intro
  · rintro ⟨item, hitem, hterm⟩
    dsimp only at hterm
    split at hterm
    · cases hterm
    · case isFalse hvalue =>
        cases hterm
        exact ⟨hitem, fun heq => hvalue ((hzero _).mpr heq)⟩
  · rintro ⟨hitem, hvalue⟩
    refine ⟨(value, position), hitem, ?_⟩
    dsimp only
    rw [if_neg (fun heq => hvalue ((hzero _).mp heq))]

/-- A compressed row is read back as it was given, with zeros beyond its end. -/
theorem get_compress (hzero : ∀ value : α, (value == 0) = true ↔ value = 0)
    (values : List α) (position : Nat) :
    (compress values).get position = (values[position]?).getD 0 := by
  have hget (value : α) : (compress values).get? position = some value ↔
      values[position]? = some value ∧ value ≠ 0 :=
    ((compress_accepted values).distinct.get?_eq_some_iff).trans (mem_terms_compress hzero)
  rw [Entry.get]
  cases hstored : (compress values).get? position with
  | some value => rw [((hget value).mp hstored).1]
  | none =>
      cases hvalue : values[position]? with
      | none => rfl
      | some value =>
          by_contra hne
          have hstored' := (hget value).mpr ⟨hvalue, fun heq => hne heq.symm⟩
          rw [hstored] at hstored'
          cases hstored'

/-! ## Reading a dense matrix back -/

/-- The element of a dense matrix, zero beyond the end of its row. -/
def denseAt (dense : List (List α)) (row column : Nat) : α :=
  (dense[row]?.bind fun values => values[column]?).getD 0

/-- No row that ends before a column stands above a nonzero element of the column. -/
def Gapless (dense : List (List α)) : Prop :=
  ∀ (upper lower column : Nat) (values : List α), upper < lower →
    dense[upper]? = some values → values.length ≤ column → denseAt dense lower column = 0

omit [BEq α] in
theorem denseAt_of_le_length {dense : List (List α)} {row : Nat} (hle : dense.length ≤ row)
    (column : Nat) : denseAt dense row column = 0 := by
  rw [denseAt, List.getElem?_eq_none hle]
  rfl

omit [BEq α] [OfNat α 0] in
theorem length_le_width {dense : List (List α)} {values : List α} (hmem : values ∈ dense) :
    values.length ≤ width dense := by
  have hfold (start : Nat) (rows : List (List α)) :
      start ≤ rows.foldl (fun widest row => max widest row.length) start ∧
        ∀ row ∈ rows, row.length ≤ rows.foldl (fun widest row => max widest row.length) start := by
    induction rows generalizing start with
    | nil => simp
    | cons first rest ih =>
        obtain ⟨hstart, hrest⟩ := ih (max start first.length)
        rw [List.foldl_cons]
        refine ⟨Nat.le_trans (Nat.le_max_left _ _) hstart, ?_⟩
        rintro row (_ | ⟨_, hrow⟩)
        · exact Nat.le_trans (Nat.le_max_right _ _) hstart
        · exact hrest row hrow
  exact (hfold 0 dense).2 values hmem

omit [BEq α] in
theorem denseAt_of_le_width {dense : List (List α)} {column : Nat}
    (hle : width dense ≤ column) (row : Nat) : denseAt dense row column = 0 := by
  rw [denseAt]
  cases hrow : dense[row]? with
  | none => rfl
  | some values =>
      have hlength := Nat.le_trans (length_le_width (List.mem_of_getElem? hrow)) hle
      rw [Option.bind_some, List.getElem?_eq_none hlength]
      rfl

theorem get?_ofDense_row (hzero : ∀ value : α, (value == 0) = true ↔ value = 0)
    {dense : List (List α)} {row : Nat} (hrow : row < dense.length) (column : Nat) :
    (ofDense dense .row).get? row column = some (denseAt dense row column) := by
  have hvalues := List.getElem?_eq_getElem hrow
  simp only [get?, ofDense, ofRows, denseAt, List.getElem?_map, hvalues, Option.map_some,
    Option.bind_some, get_compress hzero]

/-- Along the columns, a place is counted among the rows that reach the column. -/
theorem get?_ofDense_column (hzero : ∀ value : α, (value == 0) = true ↔ value = 0)
    {dense : List (List α)} {column : Nat} (hcolumn : column < width dense) (row : Nat) :
    (ofDense dense .column).get? row column =
      some (((denseColumn dense column)[row]?).getD 0) := by
  have hindex : (List.range (width dense))[column]? = some column := by simp [hcolumn]
  simp only [get?, ofDense, ofColumns, List.getElem?_map, hindex, Option.map_some,
    get_compress hzero]

/-- Stored along the rows, every dense matrix is read back as it was given. Stored along the
columns, it is if and only if all that stands below a row that is too short are zeros. -/
theorem ofDense_represents (hzero : ∀ value : α, (value == 0) = true ↔ value = 0)
    (dense : List (List α)) :
    (∀ row < dense.length, ∀ column < width dense,
      (ofDense dense .row).get? row column = some (denseAt dense row column)) ∧
    ((∀ row < dense.length, ∀ column < width dense,
      (ofDense dense .column).get? row column = some (denseAt dense row column)) ↔
        Gapless dense) := by
  refine ⟨fun row hrow column _ => get?_ofDense_row hzero hrow column, ?_⟩
  apply Iff.intro
  · intro hread upper lower column values hlt hupper hshort
    by_cases hcolumn : column < width dense
    · refine (packed_eq_iff (fun row : List α => row[column]?) dense).mp ?_ upper lower values
        hlt hupper (List.getElem?_eq_none hshort)
      intro row
      change ((denseColumn dense column)[row]?).getD 0 = denseAt dense row column
      by_cases hrow : row < dense.length
      · have hsome := hread row hrow column hcolumn
        rw [get?_ofDense_column hzero hcolumn] at hsome
        exact Option.some.inj hsome
      · have hbelow := Nat.le_of_not_lt hrow
        have hpacked : (denseColumn dense column).length ≤ row :=
          Nat.le_trans (List.length_filterMap_le _ _) hbelow
        rw [denseAt_of_le_length hbelow, List.getElem?_eq_none hpacked]
        rfl
    · exact denseAt_of_le_width (Nat.le_of_not_lt hcolumn) lower
  · intro gapless row _ column hcolumn
    rw [get?_ofDense_column hzero hcolumn]
    refine congrArg some ((packed_eq_iff (fun row : List α => row[column]?) dense).mpr ?_ row)
    intro upper lower values hlt hupper hnone
    exact gapless upper lower column values hlt hupper (List.getElem?_eq_none_iff.mp hnone)

/-- A zero below a row that is too short leaves no gap, any other value does. -/
theorem ofDense_represents_stairs :
    (∀ value : Int, (value == 0) = true ↔ value = 0) ∧
      Gapless ([[0, 1, 2], [3, 4], [0, 5, 0]] : List (List Int)) ∧
      ¬ Gapless ([[0, 1, 2], [3, 4], [0, 5, 6]] : List (List Int)) := by
  have hzero : ∀ value : Int, (value == 0) = true ↔ value = 0 := fun value => beq_iff_eq
  refine ⟨hzero, ?_, ?_⟩
  · exact (ofDense_represents hzero [[0, 1, 2], [3, 4], [0, 5, 0]]).2.mp (by decide)
  · intro gapless
    have hread := (ofDense_represents hzero [[0, 1, 2], [3, 4], [0, 5, 6]]).2.mpr gapless
    exact absurd (hread 1 (by decide) 2 (by decide)) (by decide)

/-- The 3 belongs into the second row, and is read in the first. -/
theorem ofDense_column_moves_up :
    let dense : List (List Int) := [[1], [2, 3]]
    (ofDense dense .row).get? 0 1 = some (denseAt dense 0 1) ∧
      (ofDense dense .row).get? 1 1 = some (denseAt dense 1 1) ∧
      denseAt dense 0 1 = 0 ∧ (ofDense dense .column).get? 0 1 = some 3 ∧
      denseAt dense 1 1 = 3 ∧ (ofDense dense .column).get? 1 1 = some 0 := by
  decide

end LinProg.SparseMatrix
