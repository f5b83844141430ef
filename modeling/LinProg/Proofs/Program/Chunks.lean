/-
# Batches in chunks

A batch of rows or columns can be cut between two segments, and two batches can be joined by
shifting the offsets of the second one. What a program accepts as one batch it accepts in two
chunks, and the other way round, with the same outcome. For rows nothing stands in the way,
since nothing is asked of the program. For columns the first chunk changes what the second
one is checked against: there are more variables, and rows have more terms. But the new terms
have indices of the first chunk, and the second one has others. Objective terms have to reach
as far as the variables do, and each chunk does so by itself if the terms before it do.
-/
import LinProg.Proofs.Program.Storing
import LinProg.Proofs.Program.Batches
import LinProg.Proofs.Sparse.RoundTrip

namespace LinProg

namespace RawBatch

/-! ## Cutting and joining flat lists -/

/-- The first segments of a batch. -/
def front (batch : RawBatch) (count : Nat) : RawBatch where
  values := batch.values.take (batch.offsets.getD count 0)
  offsets := batch.offsets.take (count + 1)
  indices := batch.indices.take (batch.offsets.getD count 0)
  lower := batch.lower.take count
  upper := batch.upper.take count

/-- The other segments, with offsets that are counted from the cut. -/
def back (batch : RawBatch) (count : Nat) : RawBatch where
  values := batch.values.drop (batch.offsets.getD count 0)
  offsets := (batch.offsets.drop count).map (· - batch.offsets.getD count 0)
  indices := batch.indices.drop (batch.offsets.getD count 0)
  lower := batch.lower.drop count
  upper := batch.upper.drop count

/-- One batch after another, whose offsets are shifted behind the values of the first. -/
def followedBy (first second : RawBatch) : RawBatch where
  values := first.values ++ second.values
  offsets := first.offsets ++ second.offsets.tail.map (first.values.length + ·)
  indices := first.indices ++ second.indices
  lower := first.lower ++ second.lower
  upper := first.upper ++ second.upper

/-! ## Batches of entries -/

variable {lower upper lower' upper' : List Binary64}

theorem ofEntries_eq (entries : List (Entry Binary64)) :
    ofEntries entries lower upper =
      ⟨entries.flatMap Entry.values,
        CompressedEntries.runningOffsets 0 ((entries.map Entry.values).map List.length),
        entries.flatMap Entry.indices, lower, upper⟩ := by
  have hsizes : (entries.map Entry.values).map List.length = entries.map Entry.size := by
    simp [Entry.values, Entry.size, Function.comp_def]
  rw [hsizes, ofEntries, ofSegments, CompressedEntries.concat_map_segment]

/-- The first chunk of a batch ends with the last value of its last entry. -/
theorem getD_offsets_ofEntries (first second : List (Entry Binary64)) :
    (ofEntries (first ++ second) lower upper).offsets.getD first.length 0 =
      (first.flatMap Entry.values).length := by
  have hdrop := CompressedEntries.drop_runningOffsets 0 (first.map Entry.values)
    ((second.map Entry.values).map List.length)
  rw [List.length_map, Nat.zero_add, ← List.flatMap_def] at hdrop
  rw [ofEntries_eq, List.map_append, List.map_append, List.getD_eq_getElem?_getD,
    ← List.head?_drop, hdrop, CompressedEntries.head?_runningOffsets, Option.getD_some]

theorem length_flatMap_indices (entries : List (Entry Binary64)) :
    (entries.flatMap Entry.indices).length = (entries.flatMap Entry.values).length := by
  simp [List.length_flatMap, Entry.indices, Entry.values]

theorem front_ofEntries (first second : List (Entry Binary64)) :
    (ofEntries (first ++ second) lower upper).front first.length =
      ofEntries first (lower.take first.length) (upper.take first.length) := by
  have hoffsets := CompressedEntries.take_runningOffsets 0
    ((first.map Entry.values).map List.length) ((second.map Entry.values).map List.length)
  rw [List.length_map, List.length_map] at hoffsets
  rw [front, getD_offsets_ofEntries, ofEntries_eq, ofEntries_eq, RawBatch.mk.injEq]
  refine ⟨?_, ?_, ?_, rfl, rfl⟩
  · rw [List.flatMap_append, List.take_left]
  · rw [List.map_append, List.map_append, hoffsets]
  · show (List.flatMap Entry.indices (first ++ second)).take _ = _
    rw [List.flatMap_append, ← length_flatMap_indices, List.take_left]

theorem back_ofEntries (first second : List (Entry Binary64)) :
    (ofEntries (first ++ second) lower upper).back first.length =
      ofEntries second (lower.drop first.length) (upper.drop first.length) := by
  have hoffsets := CompressedEntries.drop_runningOffsets 0 (first.map Entry.values)
    ((second.map Entry.values).map List.length)
  rw [List.length_map, Nat.zero_add, ← Nat.add_zero (first.map Entry.values).flatten.length,
    CompressedEntries.runningOffsets_add, ← List.flatMap_def] at hoffsets
  rw [back, getD_offsets_ofEntries, ofEntries_eq, ofEntries_eq, RawBatch.mk.injEq]
  refine ⟨?_, ?_, ?_, rfl, rfl⟩
  · rw [List.flatMap_append, List.drop_left]
  · rw [List.map_append, List.map_append, hoffsets, List.map_map]
    simp [Function.comp_def]
  · show (List.flatMap Entry.indices (first ++ second)).drop _ = _
    rw [List.flatMap_append, ← length_flatMap_indices, List.drop_left]

theorem followedBy_ofEntries (first second : List (Entry Binary64)) :
    (ofEntries first lower upper).followedBy (ofEntries second lower' upper') =
      ofEntries (first ++ second) (lower ++ lower') (upper ++ upper') := by
  rw [ofEntries_eq, ofEntries_eq, ofEntries_eq, followedBy, RawBatch.mk.injEq]
  refine ⟨List.flatMap_append.symm, ?_, List.flatMap_append.symm, rfl, rfl⟩
  rw [List.map_append, List.map_append, CompressedEntries.runningOffsets_append, Nat.zero_add,
    ← Nat.add_zero (first.map Entry.values).flatten.length, CompressedEntries.runningOffsets_add,
    List.map_tail, ← List.flatMap_def]

/-! ## Accepted batches -/

/-- The flat lists are made of these entries, and there are bounds for each of them. -/
structure Holds (batch : RawBatch) (entries : List (Entry Binary64)) : Prop where
  eq_ofEntries : batch = ofEntries entries batch.lower batch.upper
  distinct : ∀ entry ∈ entries, entry.Distinct
  length_lower : batch.lower.length = entries.length
  length_upper : batch.upper.length = entries.length

/-- The bounds in pairs. -/
def vars (batch : RawBatch) : List Variable :=
  (batch.lower.zip batch.upper).map fun range => ⟨range.1, range.2⟩

variable {batch first second : RawBatch} {entries entries' : List (Entry Binary64)} {count : Nat}

theorem holds_of_compressed? {compressed : CompressedEntries Binary64}
    (hok : batch.compressed? = .ok compressed) : batch.Holds compressed.entries := by
  obtain ⟨hlists, hlower, hupper⟩ := (batch.compressed?_eq_ok_iff compressed).mp hok
  have hcount : compressed.segmentCount = compressed.entries.length := by
    simp [CompressedEntries.segmentCount, CompressedEntries.entries, CompressedEntries.segments,
      CompressedEntries.ranges]
  refine ⟨?_, ?_, hlower.trans hcount, hupper.trans hcount⟩
  · rw [ofEntries, ofSegments, CompressedEntries.map_segment_entries hlists,
      CompressedEntries.concat_segments hlists]
  · exact fun entry hmem => (CompressedEntries.entries_accepted hlists hmem).distinct

namespace Holds

theorem compressed? (holds : batch.Holds entries) :
    ∃ compressed, batch.compressed? = .ok compressed ∧ compressed.entries = entries := by
  obtain ⟨compressed, hok, hentries, -⟩ :=
    compressed?_ofEntries holds.distinct holds.length_lower holds.length_upper
  rw [← holds.eq_ofEntries] at hok
  exact ⟨compressed, hok, hentries⟩

theorem length_vars (holds : batch.Holds entries) : batch.vars.length = entries.length := by
  simp [vars, holds.length_lower, holds.length_upper]

theorem front (holds : batch.Holds entries) (hcount : count ≤ entries.length) :
    (batch.front count).Holds (entries.take count) := by
  have hlength : (entries.take count).length = count := List.length_take_of_le hcount
  have hfront := @front_ofEntries batch.lower batch.upper (entries.take count) (entries.drop count)
  rw [List.take_append_drop, ← holds.eq_ofEntries, hlength] at hfront
  refine ⟨hfront, fun entry hmem => holds.distinct entry (List.mem_of_mem_take hmem), ?_, ?_⟩
  · rw [RawBatch.front, List.length_take, List.length_take, holds.length_lower]
  · rw [RawBatch.front, List.length_take, List.length_take, holds.length_upper]

theorem back (holds : batch.Holds entries) (hcount : count ≤ entries.length) :
    (batch.back count).Holds (entries.drop count) := by
  have hlength : (entries.take count).length = count := List.length_take_of_le hcount
  have hback := @back_ofEntries batch.lower batch.upper (entries.take count) (entries.drop count)
  rw [List.take_append_drop, ← holds.eq_ofEntries, hlength] at hback
  refine ⟨hback, fun entry hmem => holds.distinct entry (List.mem_of_mem_drop hmem), ?_, ?_⟩
  · rw [RawBatch.back, List.length_drop, List.length_drop, holds.length_lower]
  · rw [RawBatch.back, List.length_drop, List.length_drop, holds.length_upper]

theorem followedBy (hfirst : first.Holds entries) (hsecond : second.Holds entries') :
    (first.followedBy second).Holds (entries ++ entries') := by
  have hjoined := @followedBy_ofEntries first.lower first.upper second.lower second.upper entries
    entries'
  rw [← hfirst.eq_ofEntries, ← hsecond.eq_ofEntries] at hjoined
  refine ⟨hjoined, ?_, ?_, ?_⟩
  · intro entry hmem
    cases List.mem_append.mp hmem with
    | inl hmem => exact hfirst.distinct entry hmem
    | inr hmem => exact hsecond.distinct entry hmem
  · simp [RawBatch.followedBy, hfirst.length_lower, hsecond.length_lower]
  · simp [RawBatch.followedBy, hfirst.length_upper, hsecond.length_upper]

/-- Joining the chunks of a batch gives the batch. -/
theorem followedBy_front_back (holds : batch.Holds entries) (hcount : count ≤ entries.length) :
    (batch.front count).followedBy (batch.back count) = batch := by
  have hjoined := ((holds.front hcount).followedBy (holds.back hcount)).eq_ofEntries
  rw [List.take_append_drop] at hjoined
  have hlower : ((batch.front count).followedBy (batch.back count)).lower = batch.lower :=
    List.take_append_drop count batch.lower
  have hupper : ((batch.front count).followedBy (batch.back count)).upper = batch.upper :=
    List.take_append_drop count batch.upper
  rw [hlower, hupper, ← holds.eq_ofEntries] at hjoined
  exact hjoined

end Holds

end RawBatch

theorem Objective.ofLists?_eq_ok_iff {coefficients : List Binary64} {types : List VariableType}
    {objective : Objective} :
    ofLists? coefficients types = .ok objective ↔
      coefficients.length = types.length ∧
        objective = ⟨coefficients.zipWith ObjectiveTerm.mk types⟩ := by
  by_cases hlength : coefficients.length = types.length
  · simp [ofLists?, hlength, eq_comm]
  · simp [ofLists?, hlength]

namespace Program

open RawBatch

variable {program middle next : Program} {batch first second : RawBatch}
  {entries entries' : List (Entry Binary64)}

/-! ## Rows -/

theorem ingestRows_of_holds (holds : batch.Holds entries) (program : Program) :
    program.ingestRows batch =
      .ok (program.addConstraints (Constraint.ofRows entries batch.lower batch.upper)) := by
  have hok := @ingestRows_ofEntries program entries _ _ holds.distinct holds.length_lower
    holds.length_upper
  rwa [← holds.eq_ofEntries] at hok

theorem holds_of_ingestRows (hok : program.ingestRows batch = .ok next) :
    ∃ entries, batch.Holds entries := by
  obtain ⟨compressed, hcompressed, -⟩ := (ingestRows_eq_ok_iff _ _ _).mp hok
  exact ⟨_, holds_of_compressed? hcompressed⟩

theorem ofRows_append {lower upper lower' upper' : List Binary64}
    (hlower : lower.length = entries.length) (hupper : upper.length = entries.length) :
    Constraint.ofRows (entries ++ entries') (lower ++ lower') (upper ++ upper') =
      Constraint.ofRows entries lower upper ++ Constraint.ofRows entries' lower' upper' := by
  have hranges : entries.length = (lower.zip upper).length := by simp [hlower, hupper]
  rw [Constraint.ofRows, List.zip_append (hlower.trans hupper.symm),
    List.zipWith_append hranges]
  rfl

theorem ingestRows_followedBy_iff (hfirst : first.Holds entries) (hsecond : second.Holds entries') :
    program.ingestRows (first.followedBy second) = .ok next ↔
      ∃ middle, program.ingestRows first = .ok middle ∧ middle.ingestRows second = .ok next := by
  have hrows : Constraint.ofRows (entries ++ entries') (first.followedBy second).lower
        (first.followedBy second).upper =
      Constraint.ofRows entries first.lower first.upper ++
        Constraint.ofRows entries' second.lower second.upper :=
    ofRows_append hfirst.length_lower hfirst.length_upper
  simp only [ingestRows_of_holds hfirst, ingestRows_of_holds hsecond,
    ingestRows_of_holds (hfirst.followedBy hsecond), hrows, Except.ok.injEq, exists_eq_left',
    addConstraints, List.append_assoc]

/-! ## Columns -/

/-- Whatever holds the right entries is accepted as columns that bring bounds in order and find
room for their terms. -/
theorem ingestColumns_iff_of_holds (holds : batch.Holds entries) :
    program.ingestColumns batch = .ok next ↔
      (∀ bounds ∈ batch.vars, bounds.Ordered) ∧
        (∀ term ∈ PlacedTerm.ofColumns (entries.zipIdx program.vars.length),
          HasRoom program.constraints term.place) ∧
        next = program.addColumns batch.vars entries := by
  apply Iff.intro
  · intro hok
    obtain ⟨compressed, hcompressed, hrange, added, hadded, hnew, rfl⟩ :=
      (ingestColumns_eq_ok_iff _ _ _).mp hok
    obtain ⟨compressed', hcompressed', hentries⟩ := holds.compressed?
    cases Except.ok.inj (hcompressed.symm.trans hcompressed')
    have hcolumns : program.newColumns compressed = entries.zipIdx program.vars.length := by
      rw [newColumns, hentries]
    obtain ⟨hordered, rfl⟩ := (mapM_between?_eq_ok_iff _ _).mp hadded
    rw [hcolumns] at hnew ⊢
    refine ⟨?_, PlacedTerm.hasRoom_ofColumns ?_ hnew, ?_⟩
    · intro bounds hmem
      obtain ⟨range, hrange, rfl⟩ := List.mem_map.mp hmem
      exact hordered range hrange
    · intro column hcolumn position hposition
      apply hrange
      exact CompressedEntries.indices_subset_of_mem_entries
        (hentries ▸ List.fst_mem_of_mem_zipIdx hcolumn) hposition
    · rw [addColumns, PlacedTerm.foldl_store_ofColumns]
      rfl
  · rintro ⟨hordered, hroom, rfl⟩
    have hok := ingestColumns_ofEntries holds.distinct holds.length_vars hordered hroom
    have hranges : batch.lower.length = batch.upper.length :=
      holds.length_lower.trans holds.length_upper.symm
    have hlower : batch.vars.map Variable.lower = batch.lower := by
      rw [RawBatch.vars, List.map_map]
      exact List.map_fst_zip (Nat.le_of_eq hranges)
    have hupper : batch.vars.map Variable.upper = batch.upper := by
      rw [RawBatch.vars, List.map_map]
      exact List.map_snd_zip (Nat.le_of_eq hranges.symm)
    rwa [hlower, hupper, ← holds.eq_ofEntries] at hok

theorem holds_of_ingestColumns (hok : program.ingestColumns batch = .ok next) :
    ∃ entries, batch.Holds entries := by
  obtain ⟨compressed, hcompressed, -⟩ := (ingestColumns_eq_ok_iff _ _ _).mp hok
  exact ⟨_, holds_of_compressed? hcompressed⟩

theorem addColumns_append {added added' : List Variable} (hlength : added.length = entries.length) :
    (program.addColumns added entries).addColumns added' entries' =
      program.addColumns (added ++ added') (entries ++ entries') := by
  have hvars : (program.addColumns added entries).vars.length =
      program.vars.length + entries.length := by
    simp [addColumns, addVariables, hlength]
  rw [addColumns, hvars, addColumns, addColumns, List.zipIdx_append, PlacedTerm.ofColumns_append,
    List.foldl_append]
  simp [addVariables]

/-- The first chunk takes no room from the second one, whose terms have greater indices. -/
theorem hasRoom_addColumns_iff {added : List Variable} {term : PlacedTerm}
    (hterm : term ∈ PlacedTerm.ofColumns (entries'.zipIdx (program.vars.length + entries.length))) :
    HasRoom (program.addColumns added entries).constraints term.place ↔
      HasRoom program.constraints term.place := by
  apply PlacedTerm.hasRoom_foldl_store_iff
  intro other hother
  have hbelow := (PlacedTerm.index_of_mem_ofColumns hother).2
  have habove := (PlacedTerm.index_of_mem_ofColumns hterm).1
  exact Nat.ne_of_lt (Nat.lt_of_lt_of_le hbelow habove)

theorem ingestColumns_followedBy_iff (hfirst : first.Holds entries)
    (hsecond : second.Holds entries') :
    program.ingestColumns (first.followedBy second) = .ok next ↔
      ∃ middle, program.ingestColumns first = .ok middle ∧
        middle.ingestColumns second = .ok next := by
  have hvars : (first.followedBy second).vars = first.vars ++ second.vars := by
    rw [RawBatch.vars, RawBatch.followedBy,
      List.zip_append (hfirst.length_lower.trans hfirst.length_upper.symm), List.map_append]
    rfl
  have hlength : (program.addColumns first.vars entries).vars.length =
      program.vars.length + entries.length := by
    simp [addColumns, addVariables, hfirst.length_vars]
  simp only [ingestColumns_iff_of_holds (hfirst.followedBy hsecond),
    ingestColumns_iff_of_holds hfirst, ingestColumns_iff_of_holds hsecond, hvars,
    List.zipIdx_append, PlacedTerm.ofColumns_append, List.forall_mem_append,
    ← addColumns_append hfirst.length_vars]
  apply Iff.intro
  · rintro ⟨⟨hordered, hordered'⟩, ⟨hroom, hroom'⟩, rfl⟩
    refine ⟨_, ⟨hordered, hroom, rfl⟩, hordered', ?_, rfl⟩
    rw [hlength]
    exact fun term hterm => (hasRoom_addColumns_iff hterm).mpr (hroom' term hterm)
  · rintro ⟨_, ⟨hordered, hroom, rfl⟩, hordered', hroom', rfl⟩
    rw [hlength] at hroom'
    refine ⟨⟨hordered, hordered'⟩, ⟨hroom, ?_⟩, rfl⟩
    exact fun term hterm => (hasRoom_addColumns_iff hterm).mp (hroom' term hterm)

/-! ## Objective terms -/

/-- Append objective terms with nonnegative variables for those that have none yet. -/
def appendTerms (program : Program) (terms : List ObjectiveTerm) : Program where
  sense := program.sense
  constraints := program.constraints
  objective := ⟨program.objective.terms ++ terms⟩
  vars := program.vars ++
    List.replicate (program.objective.size + terms.length - program.vars.length) .nonnegative
  initialized := true

theorem appendTerms_append (program : Program) (terms terms' : List ObjectiveTerm) :
    (program.appendTerms terms).appendTerms terms' = program.appendTerms (terms ++ terms') := by
  simp only [appendTerms, Objective.size, List.length_append, List.length_replicate,
    List.append_assoc, List.append_cancel_left_eq, List.replicate_append_replicate, mk.injEq,
    true_and, and_true]
  -- What is left is the number of new variables, also where there are too many already.
  congr 1
  omega

/-- Terms are accepted that come with one supported type for each coefficient, and reach as far
as the variables do. -/
theorem ingestObjective_iff {coefficients : List Binary64} {types : List VariableType} :
    program.ingestObjective coefficients types = .ok next ↔
      coefficients.length = types.length ∧
        (∀ type ∈ types, Backend.inProcess.supportsType type = true) ∧
        program.vars.length ≤ program.objective.size + coefficients.length ∧
        next = program.appendTerms (coefficients.zipWith ObjectiveTerm.mk types) := by
  simp only [ingestObjective_eq_ok_iff, Objective.ofLists?_eq_ok_iff, and_assoc, exists_and_left,
    exists_eq_left, setObjective_eq_ok_iff]
  apply and_congr_right
  intro hlength
  have hsize : (Objective.mk (program.objective.terms ++
      coefficients.zipWith ObjectiveTerm.mk types)).size =
      program.objective.size + coefficients.length := by
    simp [Objective.size, hlength]
  rw [hsize]
  refine and_congr_right fun _ => and_congr_right fun _ => Iff.of_eq (congrArg (next = ·) ?_)
  simp [appendTerms, hlength]

/-- Where every variable has its term, each chunk reaches far enough by itself. -/
theorem ingestObjective_append_iff {coefficients coefficients' : List Binary64}
    {types types' : List VariableType} (hsize : program.vars.length ≤ program.objective.size)
    (hlength : coefficients.length = types.length) :
    program.ingestObjective (coefficients ++ coefficients') (types ++ types') = .ok next ↔
      ∃ middle, program.ingestObjective coefficients types = .ok middle ∧
        middle.ingestObjective coefficients' types' = .ok next := by
  have hterms : (coefficients ++ coefficients').zipWith ObjectiveTerm.mk (types ++ types') =
      coefficients.zipWith ObjectiveTerm.mk types ++
        coefficients'.zipWith ObjectiveTerm.mk types' := List.zipWith_append hlength
  simp only [ingestObjective_iff, hterms, ← appendTerms_append, List.length_append,
    List.forall_mem_append]
  apply Iff.intro
  · rintro ⟨hlengths, ⟨hfirst, hsecond⟩, -, rfl⟩
    refine ⟨_, ⟨hlength, hfirst, by omega, rfl⟩, by omega, hsecond, ?_, rfl⟩
    simp only [appendTerms, Objective.size, List.length_append, List.length_replicate,
      List.length_zipWith] at hsize ⊢
    omega
  · rintro ⟨_, ⟨-, hfirst, -, rfl⟩, hlength', hsecond, -, rfl⟩
    exact ⟨by omega, ⟨hfirst, hsecond⟩, by omega, rfl⟩

end Program

/-! ## All batches -/

namespace Ingestion

/-- Number of segments or terms. -/
def size : Ingestion → Nat
  | .rows batch | .columns batch => batch.lower.length
  | .objective coefficients _ => coefficients.length

/-- The first chunk of a batch. -/
def front (count : Nat) : Ingestion → Ingestion
  | .rows batch => .rows (batch.front count)
  | .columns batch => .columns (batch.front count)
  | .objective coefficients types => .objective (coefficients.take count) (types.take count)

/-- What is left of a batch after its first chunk. -/
def back (count : Nat) : Ingestion → Ingestion
  | .rows batch => .rows (batch.back count)
  | .columns batch => .columns (batch.back count)
  | .objective coefficients types => .objective (coefficients.drop count) (types.drop count)

/-- Two batches in one, if they are of the same kind. -/
def followedBy? : Ingestion → Ingestion → Option Ingestion
  | .rows first, .rows second => some (.rows (first.followedBy second))
  | .columns first, .columns second => some (.columns (first.followedBy second))
  | .objective coefficients types, .objective coefficients' types' =>
      some (.objective (coefficients ++ coefficients') (types ++ types'))
  | _, _ => none

end Ingestion

namespace Program

variable {program middle next : Program} {first second whole : Ingestion}

/-- A batch that is accepted is accepted in two chunks. -/
theorem ingest_front_back (hsize : program.vars.length ≤ program.objective.size) {count : Nat}
    (hcount : count ≤ whole.size) (hok : program.ingest whole = .ok next) :
    ∃ middle, program.ingest (whole.front count) = .ok middle ∧
      middle.ingest (whole.back count) = .ok next := by
  cases whole with
  | rows batch =>
      obtain ⟨entries, holds⟩ := holds_of_ingestRows hok
      have hcount : count ≤ entries.length := holds.length_lower ▸ hcount
      apply (ingestRows_followedBy_iff (holds.front hcount) (holds.back hcount)).mp
      rw [holds.followedBy_front_back hcount]
      exact hok
  | columns batch =>
      obtain ⟨entries, holds⟩ := holds_of_ingestColumns hok
      have hcount : count ≤ entries.length := holds.length_lower ▸ hcount
      apply (ingestColumns_followedBy_iff (holds.front hcount) (holds.back hcount)).mp
      rw [holds.followedBy_front_back hcount]
      exact hok
  | objective coefficients types =>
      have hlengths := (ingestObjective_iff.mp hok).1
      apply (ingestObjective_append_iff hsize ?_).mp
      · rw [List.take_append_drop, List.take_append_drop]
        exact hok
      · rw [List.length_take, List.length_take, hlengths]

/-- Nothing of an accepted batch gets lost when it is cut. -/
theorem followedBy?_front_back {count : Nat} (hcount : count ≤ whole.size)
    (hok : program.ingest whole = .ok next) :
    (whole.front count).followedBy? (whole.back count) = some whole := by
  cases whole with
  | rows batch =>
      obtain ⟨entries, holds⟩ := holds_of_ingestRows hok
      have hcount : count ≤ entries.length := holds.length_lower ▸ hcount
      have hjoined := holds.followedBy_front_back hcount
      exact congrArg (fun batch => some (Ingestion.rows batch)) hjoined
  | columns batch =>
      obtain ⟨entries, holds⟩ := holds_of_ingestColumns hok
      have hcount : count ≤ entries.length := holds.length_lower ▸ hcount
      have hjoined := holds.followedBy_front_back hcount
      exact congrArg (fun batch => some (Ingestion.columns batch)) hjoined
  | objective coefficients types =>
      simp only [Ingestion.front, Ingestion.back, Ingestion.followedBy?, List.take_append_drop]

/-- Two batches of the same kind that are accepted one after the other are accepted as one. -/
theorem ingest_followedBy (hsize : program.vars.length ≤ program.objective.size)
    (hwhole : first.followedBy? second = some whole) (hfirst : program.ingest first = .ok middle)
    (hsecond : middle.ingest second = .ok next) : program.ingest whole = .ok next := by
  cases first with
  | rows batch =>
      cases second with
      | rows batch' =>
          cases hwhole
          obtain ⟨entries, holds⟩ := holds_of_ingestRows hfirst
          obtain ⟨entries', holds'⟩ := holds_of_ingestRows hsecond
          exact (ingestRows_followedBy_iff holds holds').mpr ⟨middle, hfirst, hsecond⟩
      | columns batch' => cases hwhole
      | objective coefficients' types' => cases hwhole
  | columns batch =>
      cases second with
      | rows batch' => cases hwhole
      | columns batch' =>
          cases hwhole
          obtain ⟨entries, holds⟩ := holds_of_ingestColumns hfirst
          obtain ⟨entries', holds'⟩ := holds_of_ingestColumns hsecond
          exact (ingestColumns_followedBy_iff holds holds').mpr ⟨middle, hfirst, hsecond⟩
      | objective coefficients' types' => cases hwhole
  | objective coefficients types =>
      cases second with
      | rows batch' => cases hwhole
      | columns batch' => cases hwhole
      | objective coefficients' types' =>
          cases hwhole
          have hlengths := (ingestObjective_iff.mp hfirst).1
          exact (ingestObjective_append_iff hsize hlengths).mpr ⟨middle, hfirst, hsecond⟩

end Program

end LinProg
