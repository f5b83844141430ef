/-
# Entries that are made without a check

Entries are cut out of three flat lists, and dense rows are compressed, without a check on
the result. It is not needed: what the checks on the flat lists establish is that every
segment pairs up values with as many indices, none of them twice, and places in a dense
row differ anyway. So the checked constructor would have accepted all of these entries.
-/
import LinProg.Sparse.Compressed
import LinProg.Sparse.Matrix
import LinProg.Proofs.Sparse.Entry

namespace LinProg

namespace CompressedEntries

variable {α : Type}

/-- What makes three lists compressed entries. -/
theorem ofLists?_eq_ok_iff (values : List α) (offsets indices : List Nat)
    (compressed : CompressedEntries α) :
    ofLists? values offsets indices = .ok compressed ↔
      compressed = ⟨values, offsets, indices⟩ ∧ values.length = indices.length ∧
        badOffset? values.length offsets = none ∧
        ∀ segment ∈ compressed.segments, segment.2.Nodup := by
  have hsearch (segments : List (List α × List Nat)) :
      (segments.findSome? fun segment => firstRepeated? [] segment.2) = none ↔
        ∀ segment ∈ segments, segment.2.Nodup := by
    rw [List.findSome?_eq_none_iff]
    refine forall₂_congr fun segment _ => ?_
    simp [firstRepeated?_eq_none_iff]
  by_cases hlength : values.length = indices.length
  · rw [ofLists?, if_neg (not_not_intro hlength)]
    cases hoffset : badOffset? values.length offsets with
    | some position => simp
    | none =>
        dsimp only
        cases hrepeated : (⟨values, offsets, indices⟩ : CompressedEntries α).segments.findSome?
            fun segment => firstRepeated? [] segment.2 with
        | none =>
            have hnodup := (hsearch _).mp hrepeated
            refine ⟨?_, fun accepted => congrArg Except.ok accepted.1.symm⟩
            rintro ⟨⟩
            exact ⟨rfl, hlength, rfl, hnodup⟩
        | some index =>
            refine ⟨fun hok => (by cases hok), ?_⟩
            rintro ⟨rfl, -, -, hnodup⟩
            rw [(hsearch _).mpr hnodup] at hrepeated
            cases hrepeated
  · simp [ofLists?, hlength]

theorem length_slice {β : Type} (elements : List β) (start stop : Nat) :
    (slice elements start stop).length = min (stop - start) (elements.length - start) := by
  simp [slice]

/-- The check for construction is passed by every segment of accepted lists. -/
theorem ofLists?_segment {values : List α} {offsets indices : List Nat}
    {compressed : CompressedEntries α} (hok : ofLists? values offsets indices = .ok compressed)
    {segment : List α × List Nat} (hmem : segment ∈ compressed.segments) :
    Entry.ofLists? segment.1 segment.2 = .ok ⟨segment.2.zip segment.1⟩ := by
  obtain ⟨rfl, hlength, -, hnodup⟩ := (ofLists?_eq_ok_iff _ _ _ _).mp hok
  refine (Entry.ofLists?_eq_ok_iff _ _ _).mpr ⟨?_, hnodup segment hmem, rfl⟩
  obtain ⟨range, -, rfl⟩ := List.mem_map.mp hmem
  simp only [length_slice, hlength]

/-- All entries of accepted lists are accepted. -/
theorem entries_accepted {values : List α} {offsets indices : List Nat}
    {compressed : CompressedEntries α} (hok : ofLists? values offsets indices = .ok compressed)
    {entry : Entry α} (hmem : entry ∈ compressed.entries) : entry.Accepted := by
  obtain ⟨segment, hsegment, rfl⟩ := List.mem_map.mp hmem
  exact ⟨segment.1, segment.2, ofLists?_segment hok hsegment⟩

/-- Entries have no indices but those in the lists. -/
theorem indices_subset_of_mem_entries {compressed : CompressedEntries α} {entry : Entry α}
    (hmem : entry ∈ compressed.entries) : entry.indices ⊆ compressed.indices := by
  obtain ⟨segment, hsegment, rfl⟩ := List.mem_map.mp hmem
  obtain ⟨range, -, rfl⟩ := List.mem_map.mp hsegment
  intro index hindex
  obtain ⟨term, hterm, rfl⟩ := List.mem_map.mp hindex
  have hsliced := (List.of_mem_zip hterm).1
  exact List.mem_of_mem_drop (List.mem_of_mem_take hsliced)

end CompressedEntries

namespace SparseMatrix

/-- Terms that are made of places, or left out, keep the order of the places. -/
theorem map_fst_filterMap_sublist {α : Type} {term? : α × Nat → Option (Nat × α)}
    (hplace : ∀ item term, term? item = some term → term.1 = item.2) (items : List (α × Nat)) :
    ((items.filterMap term?).map Prod.fst).Sublist (items.map Prod.snd) := by
  induction items with
  | nil => exact List.Sublist.slnil
  | cons item rest ih =>
      cases hterm : term? item with
      | none =>
          rw [List.filterMap_cons_none hterm, List.map_cons]
          exact ih.cons item.2
      | some term =>
          rw [List.filterMap_cons_some hterm, List.map_cons, List.map_cons, hplace item term hterm]
          exact ih.cons_cons item.2

theorem indices_compress_sublist {α : Type} [BEq α] [OfNat α 0] (values : List α) :
    (compress values).indices.Sublist (List.range values.length) := by
  rw [List.range_eq_range', ← List.zipIdx_map_snd 0 values]
  apply map_fst_filterMap_sublist
  intro item term hterm
  dsimp only at hterm
  split at hterm
  · cases hterm
  · cases hterm
    rfl

/-- A dense row is compressed to an entry that the constructor accepts. -/
theorem compress_accepted {α : Type} [BEq α] [OfNat α 0] (values : List α) :
    (compress values).Accepted :=
  Entry.Distinct.accepted ((indices_compress_sublist values).nodup List.nodup_range)

end SparseMatrix

end LinProg
