/-
# The first repetition

A list of indices is searched from the front for one that was seen before. What the search
finds is described here by positions: it is the index that stands at the first position where
an index stands a second time. The same holds for the part of a list between two ends, with
the positions of the whole list.
-/
import LinProg.Proofs.Sparse.Compressed
import Mathlib.Order.Bounds.Basic

namespace LinProg

variable {indices : List Nat} {start stop position index : Nat}

/-- The positions up to an end at which an index stands that stands earlier too, but not
before the start. -/
def repeatsWithin (indices : List Nat) (start stop : Nat) : Set Nat :=
  {position | position < stop ∧ ∃ earlier, start ≤ earlier ∧ earlier < position ∧
    ∃ index, indices[earlier]? = some index ∧ indices[position]? = some index}

theorem repeatsWithin_eq_empty_iff :
    repeatsWithin indices 0 indices.length = ∅ ↔ indices.Nodup := by
  rw [Set.eq_empty_iff_forall_notMem, List.nodup_iff_getElem?_ne_getElem?]
  apply Iff.intro
  · intro hnone earlier position hlt hposition hsame
    have hindex := List.getElem?_eq_getElem hposition
    exact hnone position
      ⟨hposition, earlier, Nat.zero_le _, hlt, _, hsame.trans hindex, hindex⟩
  · rintro hnodup position ⟨hposition, earlier, -, hlt, index, hearlier, hindex⟩
    exact hnodup earlier position hlt hposition (hearlier.trans hindex.symm)

/-- Where a prefix repeats no index, but the element behind it comes a second time, stands the
first repetition. -/
theorem isLeast_repeatsWithin_length {before after : List Nat} (hnodup : before.Nodup)
    (hmem : index ∈ before) :
    IsLeast (repeatsWithin (before ++ index :: after) 0 (before ++ index :: after).length)
      before.length := by
  have hfront {place : Nat} (hplace : place < before.length) :
      (before ++ index :: after)[place]? = before[place]? :=
    List.getElem?_append_left hplace
  apply And.intro
  · obtain ⟨earlier, hearlier, hindex⟩ := List.mem_iff_getElem.mp hmem
    refine ⟨by simp, earlier, Nat.zero_le _, hearlier, index, ?_, by simp⟩
    rw [hfront hearlier, List.getElem?_eq_getElem hearlier, hindex]
  · rintro position ⟨-, earlier, -, hlt, other, hearlier, hposition⟩
    by_contra hsmall
    have hplace : position < before.length := Nat.not_le.mp hsmall
    rw [hfront (hlt.trans hplace)] at hearlier
    rw [hfront hplace] at hposition
    exact List.nodup_iff_getElem?_ne_getElem?.mp hnodup earlier position hlt hplace
      (hearlier.trans hposition.symm)

/-- Before the first repetition no index stands twice. -/
theorem nodup_take_of_isLeast
    (hfirst : IsLeast (repeatsWithin indices 0 indices.length) position) :
    (indices.take position).Nodup := by
  have hposition : position < indices.length := hfirst.1.1
  rw [List.nodup_iff_getElem?_ne_getElem?]
  intro first second horder hsecond hsame
  have hbelow : second < position := by
    rw [List.length_take] at hsecond
    omega
  rw [List.getElem?_take_of_lt (horder.trans hbelow), List.getElem?_take_of_lt hbelow] at hsame
  have hstored := List.getElem?_eq_getElem (hbelow.trans hposition)
  -- A second repetition would be an earlier one.
  have hrepeats : second ∈ repeatsWithin indices 0 indices.length :=
    ⟨hbelow.trans hposition, first, Nat.zero_le _, horder, _, hsame.trans hstored, hstored⟩
  exact absurd (hfirst.2 hrepeats) (Nat.not_le.mpr hbelow)

/-- The search finds the index whose second occurrence comes first. -/
theorem firstRepeated?_eq_some_iff_isLeast :
    firstRepeated? [] indices = some index ↔
      ∃ position, IsLeast (repeatsWithin indices 0 indices.length) position ∧
        indices[position]? = some index := by
  rw [firstRepeated?_eq_some_iff]
  apply Iff.intro
  · rintro ⟨before, after, rfl, hnone, hrepeated⟩
    have hnodup := ((firstRepeated?_eq_none_iff [] before).mp hnone).1
    have hmem : index ∈ before := by simpa using hrepeated
    exact ⟨before.length, isLeast_repeatsWithin_length hnodup hmem, by simp⟩
  · intro hleast
    obtain ⟨position, hfirst, hindex⟩ := hleast
    obtain ⟨hposition, earlier, -, hlt, other, hearlier, hother⟩ := hfirst.1
    obtain rfl : other = index := Option.some.inj (hother.symm.trans hindex)
    have hmem : other ∈ indices.take position := by
      rw [List.mem_iff_getElem?]
      exact ⟨earlier, (List.getElem?_take_of_lt hlt).trans hearlier⟩
    have hat : indices[position] = other := by
      rw [← Option.some.injEq, ← List.getElem?_eq_getElem hposition, hindex]
    refine ⟨indices.take position, indices.drop (position + 1), ?_, ?_, .inr hmem⟩
    · rw [← hat, ← List.drop_eq_getElem_cons hposition, List.take_append_drop]
    · exact (firstRepeated?_eq_none_iff [] _).mpr ⟨nodup_take_of_isLeast hfirst, by simp⟩

/-! ## Slices -/

namespace CompressedEntries

variable {β : Type}

theorem getElem?_slice (elements : List β) (start stop place : Nat) :
    (slice elements start stop)[place]? =
      if place < stop - start then elements[start + place]? else none := by
  rw [slice, List.getElem?_take, List.getElem?_drop]

/-- Positions in a slice are counted from its start. -/
theorem mem_repeatsWithin_slice_iff {indices : List Nat} {start stop place : Nat}
    (hstop : stop ≤ indices.length) :
    place ∈ repeatsWithin (slice indices start stop) 0 (slice indices start stop).length ↔
      start + place ∈ repeatsWithin indices start stop := by
  have hlength : (slice indices start stop).length = stop - start := by
    rw [length_slice]
    omega
  simp only [repeatsWithin, Set.mem_ofPred_eq, hlength, getElem?_slice]
  apply Iff.intro
  · rintro ⟨hplace, earlier, -, hlt, index, hearlier, hindex⟩
    rw [if_pos (hlt.trans hplace)] at hearlier
    rw [if_pos hplace] at hindex
    exact ⟨by omega, start + earlier, by omega, by omega, index, hearlier, hindex⟩
  · rintro ⟨hplace, earlier, hstart, hlt, index, hearlier, hindex⟩
    refine ⟨by omega, earlier - start, Nat.zero_le _, by omega, index, ?_, ?_⟩
    · rw [if_pos (by omega), Nat.add_sub_cancel' hstart]
      exact hearlier
    · rw [if_pos (by omega)]
      exact hindex

/-- The index of a slice whose second occurrence comes first, by its positions in the list. -/
theorem firstRepeated?_slice_eq_some_iff {indices : List Nat} {start stop index : Nat}
    (hstop : stop ≤ indices.length) :
    firstRepeated? [] (slice indices start stop) = some index ↔
      ∃ position, IsLeast (repeatsWithin indices start stop) position ∧
        indices[position]? = some index := by
  rw [firstRepeated?_eq_some_iff_isLeast]
  have hmem (place : Nat) := @mem_repeatsWithin_slice_iff indices start stop place hstop
  apply Iff.intro
  · rintro ⟨place, ⟨hrepeats, hfirst⟩, hindex⟩
    have hrepeats' := (hmem place).mp hrepeats
    refine ⟨start + place, ⟨hrepeats', ?_⟩, ?_⟩
    · intro other hother
      have hstart : start ≤ other := by
        obtain ⟨-, earlier, hstart, hlt, -⟩ := hother
        omega
      rw [← Nat.add_sub_cancel' hstart] at hother ⊢
      exact Nat.add_le_add_left (hfirst ((hmem _).mpr hother)) start
    · rw [getElem?_slice] at hindex
      split at hindex
      · exact hindex
      · cases hindex
  · rintro ⟨position, ⟨hrepeats, hfirst⟩, hindex⟩
    obtain ⟨place, rfl⟩ : ∃ place, position = start + place := by
      obtain ⟨-, earlier, hstart, hlt, -⟩ := hrepeats
      exact ⟨position - start, by omega⟩
    refine ⟨place, ⟨(hmem place).mpr hrepeats, ?_⟩, ?_⟩
    · intro other hother
      exact Nat.le_of_add_le_add_left (hfirst ((hmem other).mp hother))
    · have hbelow : start + place < stop := hrepeats.1
      rw [getElem?_slice, if_pos (by omega)]
      exact hindex

theorem nodup_slice_iff {indices : List Nat} {start stop : Nat} (hstop : stop ≤ indices.length) :
    (slice indices start stop).Nodup ↔ repeatsWithin indices start stop = ∅ := by
  rw [← repeatsWithin_eq_empty_iff, Set.eq_empty_iff_forall_notMem,
    Set.eq_empty_iff_forall_notMem]
  apply Iff.intro
  · intro hnone position hrepeats
    have hstart : start ≤ position := by
      obtain ⟨-, earlier, hstart, hlt, -⟩ := hrepeats
      omega
    rw [← Nat.add_sub_cancel' hstart] at hrepeats
    exact hnone _ ((mem_repeatsWithin_slice_iff hstop).mpr hrepeats)
  · intro hnone place hrepeats
    exact hnone _ ((mem_repeatsWithin_slice_iff hstop).mp hrepeats)

end CompressedEntries

end LinProg
