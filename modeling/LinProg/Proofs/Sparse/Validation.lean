/-
# What flat lists are refused for

The rules for compressed entries are stated here by positions: each value has an index, the
offsets start at zero, never fall and end at the number of values, and between two
neighbouring offsets no index stands twice. Lists are accepted if they keep all of these
rules. Otherwise they are refused for the first rule that they break, and the error names the
first position that breaks it, or the first index that comes a second time. Segments are only
cut out when the rules before the last one have been checked, and that is enough for every
cut to stay within the lists.
-/
import LinProg.Proofs.Sparse.Repetition
import LinProg.Proofs.Sparse.RoundTrip

namespace LinProg

namespace CompressedEntries

variable {α β : Type}

/-! ## The rules -/

/-- Each value has an index. -/
def Paired (compressed : CompressedEntries α) : Prop :=
  compressed.values.length = compressed.indices.length

/-- The offsets begin with zero. -/
def Starts (compressed : CompressedEntries α) : Prop :=
  compressed.offsets[0]? = some 0

/-- The positions whose offset lies below the one before. -/
def falls (compressed : CompressedEntries α) : Set Nat :=
  {position | 0 < position ∧ ∃ before after, compressed.offsets[position - 1]? = some before ∧
    compressed.offsets[position]? = some after ∧ after < before}

/-- The offsets end with the number of values. -/
def Ends (compressed : CompressedEntries α) : Prop :=
  compressed.offsets[compressed.offsets.length - 1]? = some compressed.values.length

/-- The positions in a segment at which an index comes a second time. -/
def repeats (compressed : CompressedEntries α) (segment : Nat) : Set Nat :=
  {position | ∃ start stop, compressed.offsets[segment]? = some start ∧
    compressed.offsets[segment + 1]? = some stop ∧
    position ∈ repeatsWithin compressed.indices start stop}

/-- Lists that can be cut into segments. -/
structure Framed (compressed : CompressedEntries α) : Prop where
  paired : compressed.Paired
  starts : compressed.Starts
  rises : compressed.falls = ∅
  ends : compressed.Ends

/-- The first rule that lists break, and the error for it. -/
inductive FirstBroken (compressed : CompressedEntries α) : InputError → Prop where
  | paired (hpaired : ¬ compressed.Paired) :
      FirstBroken compressed
        (.lengthMismatch compressed.values.length compressed.indices.length)
  | starts (hpaired : compressed.Paired) (hstarts : ¬ compressed.Starts) :
      FirstBroken compressed (.badOffset 0)
  | rises (hpaired : compressed.Paired) (hstarts : compressed.Starts) {position : Nat}
      (hfirst : IsLeast compressed.falls position) :
      FirstBroken compressed (.badOffset position)
  | ends (hpaired : compressed.Paired) (hstarts : compressed.Starts)
      (hrises : compressed.falls = ∅) (hends : ¬ compressed.Ends) :
      FirstBroken compressed (.badOffset (compressed.offsets.length - 1))
  | distinct (framed : compressed.Framed) {segment position index : Nat}
      (hearlier : ∀ earlier < segment, compressed.repeats earlier = ∅)
      (hfirst : IsLeast (compressed.repeats segment) position)
      (hindex : compressed.indices[position]? = some index) :
      FirstBroken compressed (.repeatedIndex index)

/-! ## Offsets -/

section

variable {compressed : CompressedEntries α} {position segment : Nat}

theorem getElem?_ranges {offsets : List Nat} {range : Nat × Nat} :
    (ranges offsets)[position]? = some range ↔
      offsets[position]? = some range.1 ∧ offsets[position + 1]? = some range.2 := by
  rw [ranges, List.getElem?_zip_eq_some, List.getElem?_tail]

theorem mem_falls_succ_iff :
    position + 1 ∈ compressed.falls ↔
      ∃ range, (ranges compressed.offsets)[position]? = some range ∧ range.2 < range.1 := by
  simp only [falls, Set.mem_ofPred_eq, getElem?_ranges, Nat.add_sub_cancel]
  apply Iff.intro
  · rintro ⟨-, before, after, hbefore, hafter, hlt⟩
    exact ⟨(before, after), ⟨hbefore, hafter⟩, hlt⟩
  · rintro ⟨range, ⟨hbefore, hafter⟩, hlt⟩
    exact ⟨Nat.succ_pos _, range.1, range.2, hbefore, hafter, hlt⟩

theorem falls_eq_empty_iff :
    compressed.falls = ∅ ↔ ∀ range ∈ ranges compressed.offsets, range.1 ≤ range.2 := by
  rw [Set.eq_empty_iff_forall_notMem]
  apply Iff.intro
  · intro hnone range hmem
    obtain ⟨place, hplace⟩ := List.mem_iff_getElem?.mp hmem
    by_contra hlt
    exact hnone (place + 1) (mem_falls_succ_iff.mpr ⟨range, hplace, Nat.not_le.mp hlt⟩)
  · intro hrises position hfall
    obtain ⟨place, rfl⟩ := Nat.exists_eq_succ_of_ne_zero (Nat.pos_iff_ne_zero.mp hfall.1)
    obtain ⟨range, hplace, hlt⟩ := mem_falls_succ_iff.mp hfall
    exact Nat.not_le.mpr hlt (hrises range (List.mem_iff_getElem?.mpr ⟨place, hplace⟩))

/-- A pair of neighbouring offsets that is the first to fall does so at its second position. -/
theorem findIdx?_ranges_eq_some_iff {place : Nat} :
    ((ranges compressed.offsets).findIdx? fun range => range.2 < range.1) = some place ↔
      IsLeast compressed.falls (place + 1) := by
  rw [List.findIdx?_eq_some_iff_getElem]
  apply Iff.intro
  · rintro ⟨hlt, hfalls, hearlier⟩
    refine ⟨mem_falls_succ_iff.mpr ⟨_, List.getElem?_eq_getElem hlt, by simpa using hfalls⟩, ?_⟩
    intro other hother
    obtain ⟨before, rfl⟩ := Nat.exists_eq_succ_of_ne_zero (Nat.pos_iff_ne_zero.mp hother.1)
    by_contra hsmall
    have hbefore : before < place := by omega
    obtain ⟨range, hrange, hfall⟩ := mem_falls_succ_iff.mp hother
    obtain ⟨_, rfl⟩ := List.getElem?_eq_some_iff.mp hrange
    exact hearlier before hbefore (by simpa using hfall)
  · rintro ⟨hfall, hfirst⟩
    obtain ⟨range, hrange, hfall⟩ := mem_falls_succ_iff.mp hfall
    obtain ⟨hlt, rfl⟩ := List.getElem?_eq_some_iff.mp hrange
    refine ⟨hlt, by simpa using hfall, fun earlier hearlier hfalls => ?_⟩
    have hmem : earlier + 1 ∈ compressed.falls := mem_falls_succ_iff.mpr
      ⟨_, List.getElem?_eq_getElem (hearlier.trans hlt), by simpa using hfalls⟩
    have hle : place + 1 ≤ earlier + 1 := hfirst hmem
    omega

/-- The search for a decrease finds the first offset that falls. -/
theorem firstDecrease?_eq_some_iff :
    firstDecrease? compressed.offsets = some position ↔ IsLeast compressed.falls position := by
  rw [firstDecrease?, Option.map_eq_some_iff]
  apply Iff.intro
  · rintro ⟨place, hplace, rfl⟩
    exact findIdx?_ranges_eq_some_iff.mp hplace
  · intro hfirst
    -- Nothing falls at position zero.
    obtain ⟨place, rfl⟩ := Nat.exists_eq_succ_of_ne_zero (Nat.pos_iff_ne_zero.mp hfirst.1.1)
    exact ⟨place, findIdx?_ranges_eq_some_iff.mpr hfirst, rfl⟩

theorem badOffset?_eq_none_iff_positions :
    badOffset? compressed.values.length compressed.offsets = none ↔
      compressed.Starts ∧ compressed.falls = ∅ ∧ compressed.Ends := by
  rw [badOffset?_eq_none_iff, falls_eq_empty_iff, List.head?_eq_getElem?,
    List.getLast?_eq_getElem?, Starts, Ends]

/-- Which offset is reported, by the first of the rules for offsets that is broken. -/
theorem badOffset?_eq_some_iff :
    badOffset? compressed.values.length compressed.offsets = some position ↔
      (¬ compressed.Starts ∧ position = 0) ∨
        (compressed.Starts ∧ IsLeast compressed.falls position) ∨
          (compressed.Starts ∧ compressed.falls = ∅ ∧ ¬ compressed.Ends ∧
            position = compressed.offsets.length - 1) := by
  have hstarts : compressed.offsets.head? = some 0 ↔ compressed.Starts := by
    rw [List.head?_eq_getElem?, Starts]
  have hends : compressed.offsets.getLast? = some compressed.values.length ↔ compressed.Ends := by
    rw [List.getLast?_eq_getElem?, Ends]
  have hrises : firstDecrease? compressed.offsets = none ↔ compressed.falls = ∅ := by
    rw [firstDecrease?_eq_none_iff, falls_eq_empty_iff]
  rw [badOffset?]
  by_cases hstart : compressed.Starts
  · rw [if_neg (not_not_intro (hstarts.mpr hstart))]
    cases hdecrease : firstDecrease? compressed.offsets with
    | some place =>
        have hfirst := firstDecrease?_eq_some_iff.mp hdecrease
        have hfalls : compressed.falls ≠ ∅ := fun hempty => by
          simp [hrises.mpr hempty] at hdecrease
        have hleast : place = position ↔ IsLeast compressed.falls position :=
          ⟨fun heq => heq ▸ hfirst, hfirst.unique⟩
        simp [hstart, hfalls, hleast]
    | none =>
        have hempty := hrises.mp hdecrease
        have hleast : ¬ IsLeast (∅ : Set Nat) position := fun hfirst => hfirst.1
        by_cases hend : compressed.Ends
        · simp [hstart, hempty, hleast, hend, hends.mpr hend]
        · have hlast := mt hends.mp hend
          simp [hstart, hempty, hleast, hend, hlast, eq_comm]
  · simp [hstart, mt hstarts.mp hstart, eq_comm]

/-! ## Segments that are framed -/

theorem getElem?_segments {cut : List α × List Nat} :
    compressed.segments[segment]? = some cut ↔ ∃ start stop,
      compressed.offsets[segment]? = some start ∧ compressed.offsets[segment + 1]? = some stop ∧
        cut = (slice compressed.values start stop, slice compressed.indices start stop) := by
  rw [segments, List.getElem?_map, Option.map_eq_some_iff]
  apply Iff.intro
  · rintro ⟨range, hrange, rfl⟩
    obtain ⟨hstart, hstop⟩ := getElem?_ranges.mp hrange
    exact ⟨range.1, range.2, hstart, hstop, rfl⟩
  · rintro ⟨start, stop, hstart, hstop, rfl⟩
    exact ⟨(start, stop), getElem?_ranges.mpr ⟨hstart, hstop⟩, rfl⟩

/-- There are two offsets for each segment. -/
theorem exists_offsets (hsegment : segment < compressed.segmentCount) :
    ∃ start stop, compressed.offsets[segment]? = some start ∧
      compressed.offsets[segment + 1]? = some stop := by
  have hlength : segment + 1 < compressed.offsets.length := by
    rw [segmentCount] at hsegment
    omega
  exact ⟨_, _, List.getElem?_eq_getElem (Nat.lt_of_succ_lt hlength),
    List.getElem?_eq_getElem hlength⟩

theorem repeats_eq {start stop : Nat} (hstart : compressed.offsets[segment]? = some start)
    (hstop : compressed.offsets[segment + 1]? = some stop) :
    compressed.repeats segment = repeatsWithin compressed.indices start stop := by
  ext position
  simp [repeats, hstart, hstop]

namespace Framed

variable (framed : compressed.Framed)
include framed

/-- Neighbouring offsets are in order and within the lists. -/
theorem within {start stop : Nat} (hstart : compressed.offsets[segment]? = some start)
    (hstop : compressed.offsets[segment + 1]? = some stop) :
    start ≤ stop ∧ stop ≤ compressed.values.length ∧ stop ≤ compressed.indices.length := by
  have hrises := falls_eq_empty_iff.mp framed.rises
  have hrange : (start, stop) ∈ ranges compressed.offsets :=
    List.mem_iff_getElem?.mpr ⟨segment, getElem?_ranges.mpr ⟨hstart, hstop⟩⟩
  have hlast : compressed.offsets.getLast? = some compressed.values.length :=
    List.getLast?_eq_getElem?.trans framed.ends
  have hfits := le_of_mem_offsets hrises hlast stop (List.mem_iff_getElem?.mpr ⟨_, hstop⟩)
  exact ⟨hrises _ hrange, hfits, framed.paired ▸ hfits⟩

/-- The search through a segment finds the index whose second occurrence comes first. -/
theorem firstRepeated?_eq_some_iff {cut : List α × List Nat} {index : Nat}
    (hcut : compressed.segments[segment]? = some cut) :
    firstRepeated? [] cut.2 = some index ↔ ∃ position,
      IsLeast (compressed.repeats segment) position ∧
        compressed.indices[position]? = some index := by
  obtain ⟨start, stop, hstart, hstop, rfl⟩ := getElem?_segments.mp hcut
  rw [repeats_eq hstart hstop]
  exact firstRepeated?_slice_eq_some_iff (framed.within hstart hstop).2.2

theorem nodup_iff {cut : List α × List Nat} (hcut : compressed.segments[segment]? = some cut) :
    cut.2.Nodup ↔ compressed.repeats segment = ∅ := by
  obtain ⟨start, stop, hstart, hstop, rfl⟩ := getElem?_segments.mp hcut
  rw [repeats_eq hstart hstop]
  exact nodup_slice_iff (framed.within hstart hstop).2.2

theorem forall_nodup_iff :
    (∀ cut ∈ compressed.segments, cut.2.Nodup) ↔ ∀ segment, compressed.repeats segment = ∅ := by
  apply Iff.intro
  · intro hnodup segment
    rw [Set.eq_empty_iff_forall_notMem]
    rintro position ⟨start, stop, hstart, hstop, hrepeats⟩
    have hcut := getElem?_segments.mpr ⟨start, stop, hstart, hstop, rfl⟩
    have hempty := (framed.nodup_iff hcut).mp (hnodup _ (List.mem_iff_getElem?.mpr ⟨_, hcut⟩))
    rw [repeats_eq hstart hstop] at hempty
    rw [hempty] at hrepeats
    exact hrepeats
  · intro hdistinct cut hmem
    obtain ⟨segment, hcut⟩ := List.mem_iff_getElem?.mp hmem
    exact (framed.nodup_iff hcut).mpr (hdistinct segment)

/-- The search through all segments stops in the first one that repeats an index. -/
theorem findSome?_eq_some_iff {index : Nat} :
    (compressed.segments.findSome? fun cut => firstRepeated? [] cut.2) = some index ↔
      ∃ segment position, (∀ earlier < segment, compressed.repeats earlier = ∅) ∧
        IsLeast (compressed.repeats segment) position ∧
          compressed.indices[position]? = some index := by
  have hnone {segment : Nat} {cut : List α × List Nat}
      (hcut : compressed.segments[segment]? = some cut) :
      firstRepeated? [] cut.2 = none ↔ compressed.repeats segment = ∅ := by
    rw [← framed.nodup_iff hcut, firstRepeated?_eq_none_iff]
    simp
  rw [List.findSome?_eq_some_iff, exists_split_iff_exists_position]
  apply Iff.intro
  · rintro ⟨segment, cut, hcut, hrepeated, hearlier⟩
    obtain ⟨position, hfirst, hindex⟩ := (framed.firstRepeated?_eq_some_iff hcut).mp hrepeated
    refine ⟨segment, position, fun earlier hlt => ?_, hfirst, hindex⟩
    have hbound := (List.getElem?_eq_some_iff.mp hcut).1
    have hearlierCut := List.getElem?_eq_getElem (hlt.trans hbound)
    exact (hnone hearlierCut).mp (hearlier earlier hlt _ hearlierCut)
  · rintro ⟨segment, position, hearlier, hfirst, hindex⟩
    -- Only a segment that exists repeats something.
    obtain ⟨start, stop, hstart, hstop, -⟩ := hfirst.1
    have hcut := getElem?_segments.mpr ⟨start, stop, hstart, hstop, rfl⟩
    refine ⟨segment, _, hcut,
      (framed.firstRepeated?_eq_some_iff hcut).mpr ⟨position, hfirst, hindex⟩, ?_⟩
    exact fun earlier hlt cut hcut => (hnone hcut).mpr (hearlier earlier hlt)

end Framed

/-! ## Reading segments -/

/-- A segment, read only at positions that exist. -/
def readSegment? (compressed : CompressedEntries α) (segment : Nat) :
    Option (List α × List Nat) :=
  compressed.offsets[segment]?.bind fun start =>
    compressed.offsets[segment + 1]?.bind fun stop =>
      if start ≤ stop ∧ stop ≤ compressed.values.length ∧ stop ≤ compressed.indices.length then
        some (slice compressed.values start stop, slice compressed.indices start stop)
      else none

/-- The checks in their order, where segments are read one by one up to the first that repeats
an index. Nothing comes out if a read asks for a position that does not exist. -/
def readLists? (values : List α) (offsets indices : List Nat) :
    Option (Except InputError (CompressedEntries α)) :=
  let compressed : CompressedEntries α := ⟨values, offsets, indices⟩
  if values.length ≠ indices.length then
    some (.error (.lengthMismatch values.length indices.length))
  else
    (badOffset? values.length offsets).elim
      (((List.range compressed.segmentCount).findSomeM? fun segment =>
          (compressed.readSegment? segment).map fun cut => firstRepeated? [] cut.2).map
        fun repeated => repeated.elim (.ok compressed) fun index => .error (.repeatedIndex index))
      fun position => some (.error (.badOffset position))

/-- A search that reads the elements one by one ends like the search through all of them, as
long as each of them can be read. -/
theorem findSomeM?_map_of_map_eq {κ ε : Type} {keys : List κ} {elements : List ε}
    {read : κ → Option ε} (hread : keys.map read = elements.map some) (search : ε → Option β) :
    (keys.findSomeM? fun key => (read key).map search) = some (elements.findSome? search) := by
  induction keys generalizing elements with
  | nil =>
      cases elements with
      | nil => rfl
      | cons element rest => cases hread
  | cons key keys ih =>
      cases elements with
      | nil => cases hread
      | cons element rest =>
          obtain ⟨hkey, hkeys⟩ := List.cons.inj hread
          rw [List.findSomeM?_cons, hkey, List.findSome?_cons, Option.map_some]
          cases hfound : search element with
          | none => simpa [hfound] using ih hkeys
          | some found => simp

/-- In framed lists every segment can be read. -/
theorem Framed.readSegment?_eq (framed : compressed.Framed)
    (hsegment : segment < compressed.segmentCount) :
    ∃ cut, compressed.readSegment? segment = some cut ∧ compressed.segment? segment = some cut := by
  obtain ⟨start, stop, hstart, hstop⟩ := exists_offsets hsegment
  refine ⟨_, ?_, getElem?_segments.mpr ⟨start, stop, hstart, hstop, rfl⟩⟩
  rw [readSegment?, hstart, hstop, Option.bind_some, Option.bind_some,
    if_pos (framed.within hstart hstop)]

theorem length_segments : compressed.segments.length = compressed.segmentCount := by
  simp [segments, ranges, segmentCount]

theorem Framed.map_readSegment? (framed : compressed.Framed) :
    (List.range compressed.segmentCount).map compressed.readSegment? =
      compressed.segments.map some := by
  apply List.ext_getElem
  · rw [List.length_map, List.length_map, List.length_range, length_segments]
  · intro segment hleft hright
    have hsegment : segment < compressed.segmentCount := by simpa using hleft
    obtain ⟨cut, hread, hcut⟩ := framed.readSegment?_eq hsegment
    have hat := (List.getElem?_eq_some_iff.mp hcut).2
    rw [List.getElem_map, List.getElem_map, List.getElem_range, hread, hat]

end

/-! ## Acceptance and refusal -/

section

variable {values : List α} {offsets indices : List Nat}

theorem framed_iff {compressed : CompressedEntries α} :
    compressed.Framed ↔
      compressed.Paired ∧ badOffset? compressed.values.length compressed.offsets = none := by
  rw [badOffset?_eq_none_iff_positions]
  apply Iff.intro
  · intro framed
    exact ⟨framed.paired, framed.starts, framed.rises, framed.ends⟩
  · intro hframed
    exact ⟨hframed.1, hframed.2.1, hframed.2.2.1, hframed.2.2.2⟩

/-- No read of the checks asks for a position that does not exist. -/
theorem readLists?_eq : readLists? values offsets indices =
    some (ofLists? values offsets indices) := by
  rw [readLists?, ofLists?]
  by_cases hpaired : values.length = indices.length
  · rw [if_neg (not_not_intro hpaired), if_neg (not_not_intro hpaired)]
    cases hoffset : badOffset? values.length offsets with
    | some position => rfl
    | none =>
        have framed : (⟨values, offsets, indices⟩ : CompressedEntries α).Framed :=
          framed_iff.mpr ⟨hpaired, hoffset⟩
        rw [Option.elim_none, findSomeM?_map_of_map_eq framed.map_readSegment?, Option.map_some]
        dsimp only
        cases (⟨values, offsets, indices⟩ : CompressedEntries α).segments.findSome? fun cut =>
          firstRepeated? [] cut.2 <;> rfl
  · rw [if_pos hpaired, if_pos hpaired]

/-- If an offset is reported, that is for the first broken rule. -/
theorem firstBroken_iff_of_badOffset {compressed : CompressedEntries α} {position : Nat}
    {error : InputError} (hpaired : compressed.Paired)
    (hoffset : badOffset? compressed.values.length compressed.offsets = some position) :
    compressed.FirstBroken error ↔ error = .badOffset position := by
  have hsame {other : Nat}
      (hother : badOffset? compressed.values.length compressed.offsets = some other) :
      InputError.badOffset other = .badOffset position := by
    rw [hoffset] at hother
    rw [Option.some.inj hother]
  apply Iff.intro
  · intro broken
    cases broken with
    | paired hunpaired => exact absurd hpaired hunpaired
    | starts _ hstarts => exact hsame (badOffset?_eq_some_iff.mpr (.inl ⟨hstarts, rfl⟩))
    | rises _ hstarts hfirst =>
        exact hsame (badOffset?_eq_some_iff.mpr (.inr (.inl ⟨hstarts, hfirst⟩)))
    | ends _ hstarts hrises hends =>
        exact hsame (badOffset?_eq_some_iff.mpr (.inr (.inr ⟨hstarts, hrises, hends, rfl⟩)))
    | distinct framed _ _ _ =>
        rw [(framed_iff.mp framed).2] at hoffset
        cases hoffset
  · rintro rfl
    rcases badOffset?_eq_some_iff.mp hoffset with hstart | hfall | hend
    · obtain ⟨hstarts, rfl⟩ := hstart
      exact .starts hpaired hstarts
    · exact .rises hpaired hfall.1 hfall.2
    · obtain ⟨hstarts, hrises, hends, rfl⟩ := hend
      exact .ends hpaired hstarts hrises hends

/-- In framed lists only an index that comes twice in a segment can be reported. -/
theorem Framed.firstBroken_iff {compressed : CompressedEntries α} (framed : compressed.Framed)
    {error : InputError} :
    compressed.FirstBroken error ↔ ∃ index, error = .repeatedIndex index ∧
      (compressed.segments.findSome? fun cut => firstRepeated? [] cut.2) = some index := by
  simp only [framed.findSome?_eq_some_iff]
  apply Iff.intro
  · intro broken
    cases broken with
    | paired hunpaired => exact absurd framed.paired hunpaired
    | starts _ hstarts => exact absurd framed.starts hstarts
    | rises _ _ hfirst =>
        have hfall := hfirst.1
        rw [framed.rises] at hfall
        cases hfall
    | ends _ _ _ hends => exact absurd framed.ends hends
    | distinct _ hearlier hfirst hindex =>
        exact ⟨_, rfl, _, _, hearlier, hfirst, hindex⟩
  · rintro ⟨index, rfl, segment, position, hearlier, hfirst, hindex⟩
    exact .distinct framed hearlier hfirst hindex

/-- Lists are accepted exactly if they keep all rules. -/
theorem ofLists?_eq_ok_iff_framed {result : CompressedEntries α} :
    ofLists? values offsets indices = .ok result ↔
      result = ⟨values, offsets, indices⟩ ∧ result.Framed ∧
        ∀ segment, result.repeats segment = ∅ := by
  rw [ofLists?_eq_ok_iff]
  apply and_congr_right
  rintro rfl
  rw [← and_assoc, framed_iff]
  exact and_congr_right fun hframed => Framed.forall_nodup_iff (framed_iff.mpr hframed)

/-- Lists are refused exactly for the first rule that they break. -/
theorem ofLists?_eq_error_iff {error : InputError} :
    ofLists? values offsets indices = .error error ↔
      (⟨values, offsets, indices⟩ : CompressedEntries α).FirstBroken error := by
  rw [ofLists?]
  by_cases hpaired : values.length = indices.length
  · have paired : (⟨values, offsets, indices⟩ : CompressedEntries α).Paired := hpaired
    rw [if_neg (not_not_intro hpaired)]
    cases hoffset : badOffset? values.length offsets with
    | some position =>
        rw [firstBroken_iff_of_badOffset paired hoffset]
        simp [eq_comm]
    | none =>
        rw [(framed_iff.mpr ⟨paired, hoffset⟩).firstBroken_iff]
        dsimp only
        cases (⟨values, offsets, indices⟩ : CompressedEntries α).segments.findSome? fun cut =>
          firstRepeated? [] cut.2 <;> simp [eq_comm]
  · rw [if_pos hpaired]
    apply Iff.intro
    · rintro ⟨⟩
      exact .paired hpaired
    · intro broken
      cases broken with
      | paired _ => rfl
      | starts hpaired' _ => exact absurd hpaired' hpaired
      | rises hpaired' _ _ => exact absurd hpaired' hpaired
      | ends hpaired' _ _ _ => exact absurd hpaired' hpaired
      | distinct framed _ _ _ => exact absurd framed.paired hpaired

end

/-- Three lists are compressed entries exactly if each value has an index, the offsets start at
zero, never fall and end at the number of values, and no segment repeats an index. Otherwise
they are refused for the first of these rules that they break. The checks read segments only at
positions that exist, and so does whoever reads the segments of accepted lists. -/
theorem ofLists?_checks_exactly (values : List α) (offsets indices : List Nat) :
    let compressed : CompressedEntries α := ⟨values, offsets, indices⟩
    (∀ result, ofLists? values offsets indices = .ok result ↔
        result = compressed ∧ compressed.Framed ∧
          ∀ segment, compressed.repeats segment = ∅) ∧
      (∀ error, ofLists? values offsets indices = .error error ↔
        compressed.FirstBroken error) ∧
      readLists? values offsets indices = some (ofLists? values offsets indices) ∧
      ∀ result, ofLists? values offsets indices = .ok result →
        ∀ segment < result.segmentCount, ∃ cut,
          result.readSegment? segment = some cut ∧ result.segment? segment = some cut := by
  intro compressed
  refine ⟨fun result => ?_, fun error => ofLists?_eq_error_iff, readLists?_eq, ?_⟩
  · rw [ofLists?_eq_ok_iff_framed]
    apply and_congr_right
    rintro rfl
    rfl
  · intro result hok segment hsegment
    exact (ofLists?_eq_ok_iff_framed.mp hok).2.1.readSegment?_eq hsegment

/-- Two segments share an index, and the one between them is empty. With three more terms the
last segment repeats two indices, and the one that comes again first is reported. Of two falls
of the offsets it is the first one. -/
theorem ofLists?_checks_exactly_third_segment :
    let accepted : CompressedEntries Nat := ⟨[7, 0, 7], [0, 2, 2, 3], [4, 1, 4]⟩
    (accepted.Framed ∧ ∀ segment, accepted.repeats segment = ∅) ∧
      (2 < accepted.segmentCount ∧ accepted.readSegment? 2 = some ([7], [4]) ∧
        accepted.segment? 2 = some ([7], [4])) ∧
      (⟨[7, 0, 7, 5, 6, 7], [0, 2, 2, 6], [4, 1, 4, 1, 1, 4]⟩ :
        CompressedEntries Nat).FirstBroken (.repeatedIndex 1) ∧
      (⟨[7, 0, 7], [0, 3, 1, 0, 9], [4, 4, 4]⟩ :
        CompressedEntries Nat).FirstBroken (.badOffset 2) := by
  intro accepted
  obtain ⟨haccepted, -, -, hread⟩ := ofLists?_checks_exactly [7, 0, 7] [0, 2, 2, 3] [4, 1, 4]
  obtain ⟨cut, hcut, hsegment⟩ := hread accepted rfl 2 (by decide)
  obtain rfl : cut = ([7], [4]) := Option.some.inj (hsegment.symm.trans rfl)
  refine ⟨((haccepted accepted).mp rfl).2, ⟨by decide, hcut, hsegment⟩, ?_, ?_⟩
  · exact ((ofLists?_checks_exactly _ _ _).2.1 _).mp rfl
  · exact ((ofLists?_checks_exactly _ _ _).2.1 _).mp rfl

end CompressedEntries

end LinProg
