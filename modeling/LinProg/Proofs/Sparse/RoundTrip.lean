/-
# Entries and flat lists determine each other

Entries that follow each other in flat lists are cut apart again. The way back is longer:
accepted offsets were not counted along any entries, they only passed the checks. What the
checks leave is that the offsets start at zero, never decrease and end with the values, and
then each segment begins where the one before it ends. So putting the segments together again
gives the flat lists, and nothing in them lies outside of all segments.
-/
import LinProg.Proofs.Sparse.Concatenation
import Mathlib.Order.Bounds.Basic

namespace LinProg

namespace CompressedEntries

variable {α β : Type}

/-! ## Accepted offsets -/

theorem firstDecrease?_eq_none_iff {offsets : List Nat} :
    firstDecrease? offsets = none ↔ ∀ range ∈ ranges offsets, range.1 ≤ range.2 := by
  rw [firstDecrease?, Option.map_eq_none_iff, List.findIdx?_eq_none_iff]
  apply forall₂_congr
  intro range _
  rw [decide_eq_false_iff_not, Nat.not_lt]

/-- Offsets are accepted that start at zero, do not decrease, and end at the length. -/
theorem badOffset?_eq_none_iff {length : Nat} {offsets : List Nat} :
    badOffset? length offsets = none ↔
      offsets.head? = some 0 ∧ (∀ range ∈ ranges offsets, range.1 ≤ range.2) ∧
        offsets.getLast? = some length := by
  rw [badOffset?, ← firstDecrease?_eq_none_iff]
  by_cases hhead : offsets.head? = some 0
  · rw [if_neg (not_not_intro hhead)]
    cases firstDecrease? offsets with
    | some position => simp
    | none => simp [hhead]
  · simp [hhead]

/-- What compressed data has to be like. -/
structure Valid (compressed : CompressedEntries α) : Prop where
  paired : compressed.values.length = compressed.indices.length
  starts : compressed.offsets.head? = some 0
  ordered : ∀ range ∈ ranges compressed.offsets, range.1 ≤ range.2
  ends : compressed.offsets.getLast? = some compressed.values.length
  distinct : ∀ segment ∈ compressed.segments, segment.2.Nodup

theorem ofLists?_eq_ok_iff_valid {values : List α} {offsets indices : List Nat}
    {compressed : CompressedEntries α} :
    ofLists? values offsets indices = .ok compressed ↔
      compressed = ⟨values, offsets, indices⟩ ∧ compressed.Valid := by
  rw [ofLists?_eq_ok_iff, badOffset?_eq_none_iff]
  apply and_congr_right
  rintro rfl
  apply Iff.intro
  · rintro ⟨paired, ⟨starts, ordered, ends⟩, distinct⟩
    exact ⟨paired, starts, ordered, ends, distinct⟩
  · intro valid
    exact ⟨valid.paired, ⟨valid.starts, valid.ordered, valid.ends⟩, valid.distinct⟩

theorem ranges_cons_cons (first second : Nat) (rest : List Nat) :
    ranges (first :: second :: rest) = (first, second) :: ranges (second :: rest) :=
  rfl

section

variable {start stop : Nat} {offsets : List Nat}

/-- Offsets that do not decrease are counted along the distances between them. -/
theorem runningOffsets_ranges (hhead : offsets.head? = some start)
    (hordered : ∀ range ∈ ranges offsets, range.1 ≤ range.2) :
    runningOffsets start ((ranges offsets).map fun range => range.2 - range.1) = offsets := by
  induction offsets generalizing start with
  | nil => cases hhead
  | cons first rest ih =>
      cases hhead
      cases rest with
      | nil => rfl
      | cons second rest =>
          have hfirst : first ≤ second := hordered (first, second) List.mem_cons_self
          have hrest := ih rfl fun range hmem => hordered range (List.mem_cons_of_mem _ hmem)
          rw [ranges_cons_cons, List.map_cons, runningOffsets, Nat.add_sub_cancel' hfirst, hrest]

/-- Slices between neighbouring offsets follow each other without a gap. -/
theorem take_append_flatten_slices (hhead : offsets.head? = some start)
    (hordered : ∀ range ∈ ranges offsets, range.1 ≤ range.2)
    (hlast : offsets.getLast? = some stop) (elements : List β) :
    elements.take start ++
        ((ranges offsets).map fun range => slice elements range.1 range.2).flatten =
      elements.take stop := by
  induction offsets generalizing start with
  | nil => cases hhead
  | cons first rest ih =>
      cases hhead
      cases rest with
      | nil =>
          cases hlast
          exact List.append_nil _
      | cons second rest =>
          have hfirst : first ≤ second := hordered (first, second) List.mem_cons_self
          have hrest := ih rfl (fun range hmem => hordered range (List.mem_cons_of_mem _ hmem))
            hlast
          rw [ranges_cons_cons, List.map_cons, List.flatten_cons, ← List.append_assoc, slice,
            ← List.take_add, Nat.add_sub_cancel' hfirst, hrest]

/-- No offset lies behind the last one. -/
theorem le_of_mem_offsets (hordered : ∀ range ∈ ranges offsets, range.1 ≤ range.2)
    (hlast : offsets.getLast? = some stop) : ∀ offset ∈ offsets, offset ≤ stop := by
  induction offsets with
  | nil => nofun
  | cons first rest ih =>
      cases rest with
      | nil =>
          cases hlast
          simp
      | cons second rest =>
          have hrest := ih (fun range hmem => hordered range (List.mem_cons_of_mem _ hmem)) hlast
          have hfirst : first ≤ second := hordered (first, second) List.mem_cons_self
          intro offset hmem
          cases List.mem_cons.mp hmem with
          | inl hfirst' => exact hfirst' ▸ hfirst.trans (hrest second List.mem_cons_self)
          | inr hlater => exact hrest offset hlater

end

/-! ## Accepted lists -/

section

variable {values : List α} {offsets indices : List Nat} {compressed : CompressedEntries α}
  (hok : ofLists? values offsets indices = .ok compressed)
include hok

theorem length_eq_of_mem_segments : ∀ segment ∈ compressed.segments,
    segment.1.length = segment.2.length := by
  intro segment hmem
  exact ((Entry.ofLists?_eq_ok_iff _ _ _).mp (ofLists?_segment hok hmem)).1

/-- The offsets are counted along the segments that they cut out. -/
theorem runningOffsets_segments :
    runningOffsets 0 (compressed.segments.map fun segment => segment.1.length) = offsets := by
  obtain ⟨rfl, -, hoffsets, -⟩ := (ofLists?_eq_ok_iff _ _ _ _).mp hok
  obtain ⟨hhead, hordered, hlast⟩ := badOffset?_eq_none_iff.mp hoffsets
  have hlengths : (ranges offsets).map (fun range => (slice values range.1 range.2).length) =
      (ranges offsets).map fun range => range.2 - range.1 := by
    apply List.map_congr_left
    intro range hmem
    have hstop : range.2 ∈ offsets := List.mem_of_mem_tail (List.of_mem_zip hmem).2
    have hfits := le_of_mem_offsets hordered hlast range.2 hstop
    rw [length_slice]
    omega
  rw [segments, List.map_map]
  exact (congrArg (runningOffsets 0) hlengths).trans (runningOffsets_ranges hhead hordered)

/-- Concatenating the segments of accepted lists gives these lists. -/
theorem concat_segments : concat compressed.segments = ⟨values, offsets, indices⟩ := by
  have hrunning := runningOffsets_segments hok
  obtain ⟨rfl, hlength, hoffsets, -⟩ := (ofLists?_eq_ok_iff _ _ _ _).mp hok
  obtain ⟨hhead, hordered, hlast⟩ := badOffset?_eq_none_iff.mp hoffsets
  have hvalues := take_append_flatten_slices hhead hordered hlast values
  have hindices := take_append_flatten_slices hhead hordered (hlength ▸ hlast) indices
  rw [List.take_zero, List.nil_append, List.take_length] at hvalues hindices
  rw [concat, hrunning, segments, List.flatMap_map, List.flatMap_map]
  exact congrArg₂ (fun values indices => CompressedEntries.mk values offsets indices)
    hvalues hindices

end

/-! ## Entries -/

theorem segment_zip {values : List α} {indices : List Nat}
    (hlength : values.length = indices.length) :
    Entry.segment (⟨indices.zip values⟩ : Entry α) = (values, indices) := by
  have hvalues : (indices.zip values).map Prod.snd = values :=
    List.map_snd_zip (Nat.le_of_eq hlength)
  exact Prod.ext hvalues (Entry.indices_zip hlength)

/-- The entries of accepted lists are their segments. -/
theorem map_segment_entries {values : List α} {offsets indices : List Nat}
    {compressed : CompressedEntries α} (hok : ofLists? values offsets indices = .ok compressed) :
    compressed.entries.map Entry.segment = compressed.segments := by
  have hsame : ∀ segment ∈ compressed.segments,
      Entry.segment (⟨segment.2.zip segment.1⟩ : Entry α) = segment :=
    fun segment hmem => segment_zip (length_eq_of_mem_segments hok segment hmem)
  show (compressed.segments.map fun segment => ⟨segment.2.zip segment.1⟩).map Entry.segment = _
  rw [List.map_map]
  exact (List.map_congr_left hsame).trans (List.map_id' _)

theorem concat_map_segment (entries : List (Entry α)) :
    concat (entries.map Entry.segment) =
      ⟨entries.flatMap Entry.values, runningOffsets 0 (entries.map Entry.size),
        entries.flatMap Entry.indices⟩ := by
  have hsizes : (entries.map Entry.segment).map (fun segment => segment.1.length) =
      entries.map Entry.size := by
    simp [Entry.segment, Entry.values, Entry.size, Function.comp_def]
  rw [concat, hsizes, List.flatMap_map, List.flatMap_map]
  rfl

/-- Entries without repeated indices are accepted one after the other, and cut apart again. -/
theorem ofLists?_flatMap {entries : List (Entry α)}
    (distinct : ∀ entry ∈ entries, entry.Distinct) :
    ∃ compressed,
      ofLists? (entries.flatMap Entry.values) (runningOffsets 0 (entries.map Entry.size))
        (entries.flatMap Entry.indices) = .ok compressed ∧ compressed.entries = entries := by
  have haccepted := mapM_ofLists?_segment distinct
  have hlists := ofLists?_concat (paired_segment entries)
  have hentries := entries_concat_of_mapM (paired_segment entries) haccepted
  rw [haccepted, concat_map_segment] at hlists
  rw [concat_map_segment] at hentries
  exact ⟨_, hlists, hentries⟩

/-- The entries of accepted lists are these lists, one entry after the other. -/
theorem flatMap_entries {values : List α} {offsets indices : List Nat}
    {compressed : CompressedEntries α} (hok : ofLists? values offsets indices = .ok compressed) :
    compressed.entries.flatMap Entry.values = values ∧
      runningOffsets 0 (compressed.entries.map Entry.size) = offsets ∧
      compressed.entries.flatMap Entry.indices = indices := by
  have hsame := concat_segments hok
  rw [← map_segment_entries hok, concat_map_segment] at hsame
  cases hsame
  exact ⟨rfl, rfl, rfl⟩

/-! ## The largest index -/

theorem maxIndex?_eq_some_iff (compressed : CompressedEntries α) (greatest : Nat) :
    compressed.maxIndex? = some greatest ↔
      IsGreatest {index | index ∈ compressed.indices} greatest :=
  List.max?_eq_some_iff

/-- Entries that the constructor accepts are accepted as flat lists, one after the other, and
come out as they were. Lists that are accepted, wherever they come from, come out as entries
that make these lists again. Their largest index is the greatest one stored in any of the
entries, and there is none exactly if all entries are empty. -/
theorem entries_round_trip {α : Type} :
    (∀ entries : List (Entry α), (∀ entry ∈ entries, entry.Accepted) →
        ∃ compressed,
          ofLists? (entries.flatMap Entry.values) (runningOffsets 0 (entries.map Entry.size))
            (entries.flatMap Entry.indices) = .ok compressed ∧
          compressed.entries = entries) ∧
      ∀ (values : List α) (offsets indices : List Nat) (compressed : CompressedEntries α),
        ofLists? values offsets indices = .ok compressed →
          (∀ entry ∈ compressed.entries, entry.Accepted) ∧
          (compressed.entries.flatMap Entry.values = values ∧
            runningOffsets 0 (compressed.entries.map Entry.size) = offsets ∧
            compressed.entries.flatMap Entry.indices = indices) ∧
          (∀ greatest, compressed.maxIndex? = some greatest ↔
            IsGreatest {index | ∃ entry ∈ compressed.entries, index ∈ entry.indices} greatest) ∧
          (compressed.maxIndex? = none ↔ ∀ entry ∈ compressed.entries, entry.indices = []) := by
  apply And.intro
  · intro entries accepted
    exact ofLists?_flatMap fun entry hmem => (accepted entry hmem).distinct
  · intro values offsets indices compressed hok
    have hflat := flatMap_entries hok
    have hindices : compressed.indices = compressed.entries.flatMap Entry.indices := by
      rw [hflat.2.2, ((ofLists?_eq_ok_iff _ _ _ _).mp hok).1]
    refine ⟨fun entry hmem => entries_accepted hok hmem, hflat, ?_, ?_⟩
    · intro greatest
      rw [maxIndex?_eq_some_iff, hindices]
      simp only [List.mem_flatMap]
    · rw [maxIndex?, List.max?_eq_none_iff, hindices, List.flatMap_eq_nil_iff]

/-- Empty entries at both ends and between the others leave their traces in the offsets only,
and the index that two entries share is the greatest one. -/
theorem entries_round_trip_empty_ends :
    let entries : List (Entry Nat) := [⟨[]⟩, ⟨[(4, 7), (1, 0)]⟩, ⟨[]⟩, ⟨[(4, 7)]⟩, ⟨[]⟩]
    (∀ entry ∈ entries, entry.Accepted) ∧
      ∃ compressed, ofLists? [7, 0, 7] [0, 0, 2, 2, 3, 3] [4, 1, 4] = .ok compressed ∧
        compressed.entries = entries ∧
        compressed.entries.flatMap Entry.values = [7, 0, 7] ∧
        runningOffsets 0 (compressed.entries.map Entry.size) = [0, 0, 2, 2, 3, 3] ∧
        compressed.maxIndex? = some 4 ∧
        IsGreatest {index | ∃ entry ∈ compressed.entries, index ∈ entry.indices} 4 := by
  intro entries
  have distinct : ∀ entry ∈ entries, entry.indices.Nodup := by decide
  have accepted : ∀ entry ∈ entries, entry.Accepted :=
    fun entry hmem => Entry.Distinct.accepted (distinct entry hmem)
  obtain ⟨hcompress, hcut⟩ := @entries_round_trip Nat
  obtain ⟨compressed, hok, hentries⟩ := hcompress entries accepted
  obtain ⟨-, ⟨hvalues, hoffsets, -⟩, hgreatest, -⟩ := hcut _ _ _ compressed hok
  have hmax : compressed.maxIndex? = some 4 := by
    rw [((ofLists?_eq_ok_iff _ _ _ _).mp hok).1]
    rfl
  exact ⟨accepted, compressed, hok, hentries, hvalues, hoffsets, hmax, (hgreatest 4).mp hmax⟩

end CompressedEntries

end LinProg
