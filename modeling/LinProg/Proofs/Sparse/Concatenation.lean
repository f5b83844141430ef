/-
# Concatenated segments

Segments are handed over as one list of values and one of indices, together with their
running offsets. Cutting the flat lists at the offsets gives the segments back, whatever
they are, as long as each has as many values as indices. So nothing can be wrong with
concatenated segments except an index that is repeated within one of them. This is also
what the constructor of entries refuses, segment by segment, and the two report the same
index of the same segment.
-/
import LinProg.Proofs.Checks
import LinProg.Proofs.Sparse.Compressed

namespace LinProg

/-- An entry as a segment of flat lists. -/
def Entry.segment {α : Type} (entry : Entry α) : List α × List Nat :=
  (entry.values, entry.indices)

namespace CompressedEntries

variable {α β : Type}

/-- The offsets of segments with these lengths, the first of which begins at an offset,
and the end of the last segment. -/
def runningOffsets (start : Nat) : List Nat → List Nat
  | [] => [start]
  | length :: rest => start :: runningOffsets (start + length) rest

/-- Segments as three flat lists. -/
def concat (segments : List (List α × List Nat)) : CompressedEntries α where
  values := segments.flatMap Prod.fst
  offsets := runningOffsets 0 (segments.map fun segment => segment.1.length)
  indices := segments.flatMap Prod.snd

/-! ## Running offsets -/

@[simp]
theorem length_runningOffsets (start : Nat) (lengths : List Nat) :
    (runningOffsets start lengths).length = lengths.length + 1 := by
  induction lengths generalizing start with
  | nil => rfl
  | cons length rest ih => simp [runningOffsets, ih]

@[simp]
theorem head?_runningOffsets (start : Nat) (lengths : List Nat) :
    (runningOffsets start lengths).head? = some start := by
  cases lengths <;> rfl

/-- The last offset is the end of all elements. -/
theorem getLast?_runningOffsets (start : Nat) (lists : List (List β)) :
    (runningOffsets start (lists.map List.length)).getLast? =
      some (start + lists.flatten.length) := by
  induction lists generalizing start with
  | nil => rfl
  | cons list rest ih =>
      rw [List.map_cons, runningOffsets, List.getLast?_cons, ih, Option.getD_some,
        List.flatten_cons, List.length_append, Nat.add_assoc]

/-- The first segment lies before all others. -/
theorem ranges_runningOffsets_cons (start length : Nat) (rest : List Nat) :
    ranges (runningOffsets start (length :: rest)) =
      (start, start + length) :: ranges (runningOffsets (start + length) rest) := by
  cases rest <;> rfl

theorem firstDecrease?_runningOffsets (start : Nat) (lengths : List Nat) :
    firstDecrease? (runningOffsets start lengths) = none := by
  have hordered : ∀ range ∈ ranges (runningOffsets start lengths), range.1 ≤ range.2 := by
    induction lengths generalizing start with
    | nil => simp [runningOffsets, ranges]
    | cons length rest ih =>
        rw [ranges_runningOffsets_cons]
        intro range hmem
        cases List.mem_cons.mp hmem with
        | inl hfirst =>
            rw [hfirst]
            exact Nat.le_add_right start length
        | inr hrest => exact ih (start + length) range hrest
  rw [firstDecrease?, Option.map_eq_none_iff, List.findIdx?_eq_none_iff]
  intro range hmem
  exact decide_eq_false (Nat.not_lt.mpr (hordered range hmem))

/-- Running offsets fit the list that they were counted along. -/
theorem badOffset?_runningOffsets (lists : List (List β)) :
    badOffset? lists.flatten.length (runningOffsets 0 (lists.map List.length)) = none := by
  simp [badOffset?, firstDecrease?_runningOffsets, getLast?_runningOffsets]

/-- After the offsets of some lists come those of the others. -/
theorem drop_runningOffsets (start : Nat) (lists : List (List β)) (lengths : List Nat) :
    (runningOffsets start (lists.map List.length ++ lengths)).drop lists.length =
      runningOffsets (start + lists.flatten.length) lengths := by
  induction lists generalizing start with
  | nil => rfl
  | cons list rest ih =>
      rw [List.map_cons, List.cons_append, runningOffsets, List.length_cons, List.drop_succ_cons, ih,
        List.flatten_cons, List.length_append, Nat.add_assoc]

theorem take_runningOffsets (start : Nat) (first second : List Nat) :
    (runningOffsets start (first ++ second)).take (first.length + 1) =
      runningOffsets start first := by
  induction first generalizing start with
  | nil => cases second <;> rfl
  | cons length rest ih =>
      rw [List.cons_append, runningOffsets, List.length_cons, List.take_succ_cons, ih, runningOffsets]

theorem runningOffsets_append (start : Nat) (lists : List (List β)) (lengths : List Nat) :
    runningOffsets start (lists.map List.length ++ lengths) =
      runningOffsets start (lists.map List.length) ++
        (runningOffsets (start + lists.flatten.length) lengths).tail := by
  have htake := take_runningOffsets start (lists.map List.length) lengths
  rw [List.length_map] at htake
  rw [← drop_runningOffsets, List.tail_drop, ← htake, List.take_append_drop]

/-- Offsets that begin further behind are all shifted. -/
theorem runningOffsets_add (shift start : Nat) (lengths : List Nat) :
    runningOffsets (shift + start) lengths = (runningOffsets start lengths).map (shift + ·) := by
  induction lengths generalizing start with
  | nil => rfl
  | cons length rest ih => rw [runningOffsets, runningOffsets, Nat.add_assoc, ih, List.map_cons]

/-! ## Cutting at running offsets -/

/-- Lists that follow each other, with something before them, are cut apart again. -/
theorem map_slice_ranges (front : List β) (lists : List (List β)) :
    (ranges (runningOffsets front.length (lists.map List.length))).map
      (fun range => slice (front ++ lists.flatten) range.1 range.2) = lists := by
  induction lists generalizing front with
  | nil => simp [runningOffsets, ranges]
  | cons list rest ih =>
      have hfirst : slice (front ++ (list ++ rest.flatten)) front.length
          (front.length + list.length) = list := by
        simp [slice]
      have hrest := ih (front ++ list)
      rw [List.length_append, List.append_assoc] at hrest
      rw [List.map_cons, ranges_runningOffsets_cons, List.map_cons, List.flatten_cons, hfirst,
        hrest]

variable {segments : List (List α × List Nat)}

theorem map_length_eq (hpaired : ∀ segment ∈ segments, segment.1.length = segment.2.length) :
    (segments.map Prod.fst).map List.length = (segments.map Prod.snd).map List.length := by
  simpa using hpaired

/-- Concatenated segments are cut apart again. -/
theorem segments_concat (hpaired : ∀ segment ∈ segments, segment.1.length = segment.2.length) :
    (concat segments).segments = segments := by
  have hvalues := map_slice_ranges [] (segments.map Prod.fst)
  have hindices := map_slice_ranges [] (segments.map Prod.snd)
  rw [← map_length_eq hpaired] at hindices
  rw [List.map_map] at hvalues hindices
  calc
    (concat segments).segments
      = (ranges (concat segments).offsets).map fun range =>
          (slice (concat segments).values range.1 range.2,
            slice (concat segments).indices range.1 range.2) := rfl
    _ = (segments.map Prod.fst).zip (segments.map Prod.snd) := by
        rw [← List.zip_map']
        exact congrArg₂ List.zip hvalues hindices
    _ = segments := (List.zip_of_prod rfl rfl).symm

@[simp]
theorem segmentCount_concat (segments : List (List α × List Nat)) :
    (concat segments).segmentCount = segments.length := by
  simp [segmentCount, concat]

/-- The entries of concatenated segments pair up each of them. -/
theorem entries_concat (hpaired : ∀ segment ∈ segments, segment.1.length = segment.2.length) :
    (concat segments).entries = segments.map fun segment => ⟨segment.2.zip segment.1⟩ := by
  show (concat segments).segments.map _ = _
  rw [segments_concat hpaired]

/-! ## Refusals -/

/-- The search for a repeated index through all segments ends at the first segment that
the constructor of entries refuses. -/
theorem mapM_ofLists?_eq (hpaired : ∀ segment ∈ segments, segment.1.length = segment.2.length) :
    segments.mapM (fun segment => Entry.ofLists? segment.1 segment.2) =
      match segments.findSome? fun segment => firstRepeated? [] segment.2 with
      | some index => .error (.repeatedIndex index)
      | none => .ok (segments.map fun segment => ⟨segment.2.zip segment.1⟩) := by
  induction segments with
  | nil => rfl
  | cons segment rest ih =>
      have hlength : segment.1.length = segment.2.length := hpaired segment List.mem_cons_self
      have hrest := ih fun other hmem => hpaired other (List.mem_cons_of_mem _ hmem)
      rw [List.mapM_cons, Entry.ofLists?, if_neg (not_not_intro hlength), List.findSome?_cons]
      cases firstRepeated? [] segment.2 with
      | some index => rfl
      | none =>
          dsimp only [bind, Except.bind]
          rw [hrest]
          cases rest.findSome? fun segment => firstRepeated? [] segment.2 <;> rfl

/-- The constructor makes the entries of the concatenation. -/
theorem entries_concat_of_mapM
    (hpaired : ∀ segment ∈ segments, segment.1.length = segment.2.length)
    {rows : List (Entry α)}
    (hrows : segments.mapM (fun segment => Entry.ofLists? segment.1 segment.2) = .ok rows) :
    (concat segments).entries = rows := by
  rw [mapM_ofLists?_eq hpaired] at hrows
  rw [entries_concat hpaired]
  cases hrepeated : segments.findSome? fun segment => firstRepeated? [] segment.2 with
  | some index => simp [hrepeated] at hrows
  | none => simpa [hrepeated] using hrows

/-- Concatenated segments are accepted together exactly if each is accepted by itself, and
otherwise they are refused for the same reason. -/
theorem ofLists?_concat (hpaired : ∀ segment ∈ segments, segment.1.length = segment.2.length) :
    ofLists? (concat segments).values (concat segments).offsets (concat segments).indices =
      (segments.mapM fun segment => Entry.ofLists? segment.1 segment.2).map
        fun _ => concat segments := by
  have hlength : (concat segments).values.length = (concat segments).indices.length := by
    rw [concat, List.flatMap_def, List.flatMap_def, List.length_flatten, List.length_flatten,
      map_length_eq hpaired]
  have hoffsets : badOffset? (concat segments).values.length (concat segments).offsets = none := by
    have hfits := badOffset?_runningOffsets (segments.map Prod.fst)
    rwa [List.map_map, ← List.flatMap_def] at hfits
  rw [ofLists?, if_neg (not_not_intro hlength), hoffsets, mapM_ofLists?_eq hpaired]
  dsimp only
  rw [show (⟨(concat segments).values, (concat segments).offsets, (concat segments).indices⟩ :
      CompressedEntries α) = concat segments from rfl, segments_concat hpaired]
  cases segments.findSome? fun segment => firstRepeated? [] segment.2 <;> rfl

/-! ## Entries as segments -/

theorem paired_segment (entries : List (Entry α)) :
    ∀ segment ∈ entries.map Entry.segment, segment.1.length = segment.2.length := by
  simp [Entry.segment, Entry.values, Entry.indices]

/-- The constructor makes entries without repeated indices of their own segments. -/
theorem mapM_ofLists?_segment {entries : List (Entry α)}
    (distinct : ∀ entry ∈ entries, entry.Distinct) :
    (entries.map Entry.segment).mapM (fun segment => Entry.ofLists? segment.1 segment.2) =
      .ok entries := by
  rw [mapM_eq_ok_iff, List.forall₂_map_left_iff, List.forall₂_same]
  exact fun entry hmem => (distinct entry hmem).ofLists?_eq

end CompressedEntries

end LinProg
