/-
# Taking several constraints out

The positions of constraints that go may be listed in any order and more than once. Only the
greatest of them has to be compared with the number of constraints. What goes is what would go
one by one from the last position to the first: no removal moves a constraint that goes later.
That the listed positions are deleted at once is left to a function that is given them by size.
-/
import LinProg.Proofs.Program.Removal
import LinProg.Proofs.Sorting
import Mathlib.Data.Finset.Sort

namespace LinProg

open Entry

namespace Entry

variable {removed index : Nat}

theorem formerIndex_lt_formerIndex {later : Nat} (hlt : index < later) :
    formerIndex removed index < formerIndex removed later := by
  simp only [formerIndex]
  split <;> split <;> omega

theorem formerIndex_lt_iff {bound : Nat} (hremoved : removed < bound) :
    formerIndex removed index < bound ↔ index < bound - 1 := by
  rw [formerIndex]
  split <;> omega

/-- Indices below the removed one keep their numbers. -/
theorem formerIndex_mem_iff {indices : List Nat} (hbelow : ∀ other ∈ indices, other < removed) :
    formerIndex removed index ∈ indices ↔ index ∈ indices := by
  rw [formerIndex]
  split
  · rfl
  · apply iff_of_false
    · intro hmem
      have hlt := hbelow (index + 1) hmem
      omega
    · intro hmem
      exact absurd (hbelow index hmem) ‹_›

end Entry

section

variable {α : Type} {before after : List α} {positions : List Nat}

/-- What is left of elements without those at some positions: the others, in their order. -/
def IsWithout (positions : List Nat) (before after : List α) : Prop :=
  ∃ kept : List Nat, kept.Pairwise (· < ·) ∧
    (∀ position, position ∈ kept ↔ position < before.length ∧ position ∉ positions) ∧
    after.map some = kept.map fun position => before[position]?

/-- A function that deletes elements at positions, as long as these increase and exist. -/
def Deletes (delete : List α → List Nat → List α) : Prop :=
  ∀ elements positions, positions.Pairwise (· < ·) →
    (∀ position ∈ positions, position < elements.length) →
    IsWithout positions elements (delete elements positions)

namespace IsWithout

/-- The positions say what is left. -/
theorem unique {other : List α} (without : IsWithout positions before after)
    (without' : IsWithout positions before other) : after = other := by
  obtain ⟨kept, hkept, hmem, hafter⟩ := without
  obtain ⟨kept', hkept', hmem', hother⟩ := without'
  have hsame : kept = kept' :=
    hkept.eq_of_mem_iff hkept' fun position => (hmem position).trans (hmem' position).symm
  apply List.map_injective_iff.mpr (Option.some_injective α)
  rw [hafter, hother, hsame]

theorem congr {others : List Nat} (hsame : ∀ position, position ∈ positions ↔ position ∈ others)
    (without : IsWithout positions before after) : IsWithout others before after := by
  obtain ⟨kept, hkept, hmem, hafter⟩ := without
  refine ⟨kept, hkept, fun position => ?_, hafter⟩
  rw [hmem, hsame]

theorem nil (elements : List α) : IsWithout [] elements elements := by
  refine ⟨List.range elements.length, List.pairwise_lt_range, by simp, ?_⟩
  apply List.ext_getElem?
  intro position
  by_cases hposition : position < elements.length
  · simp [hposition]
  · simp [hposition]

/-- What goes after an element at a later position is counted as before. -/
theorem cons_of_eraseIdx {last : Nat} (hlast : last < before.length)
    (hearlier : ∀ position ∈ positions, position < last)
    (without : IsWithout positions (before.eraseIdx last) after) :
    IsWithout (last :: positions) before after := by
  obtain ⟨kept, hkept, hmem, hafter⟩ := without
  rw [List.length_eraseIdx_of_lt hlast] at hmem
  have hformer (index : Nat) : index ∈ kept ↔
      formerIndex last index < before.length ∧ formerIndex last index ∉ positions := by
    rw [hmem, formerIndex_lt_iff hlast, formerIndex_mem_iff hearlier]
  refine ⟨kept.map (formerIndex last), ?_, fun position => ?_, ?_⟩
  · exact List.pairwise_map.mpr (hkept.imp formerIndex_lt_formerIndex)
  · rw [List.mem_map, List.mem_cons, not_or]
    apply Iff.intro
    · intro hposition
      obtain ⟨index, hindex, rfl⟩ := hposition
      exact ⟨((hformer index).mp hindex).1, formerIndex_ne last index,
        ((hformer index).mp hindex).2⟩
    · intro hposition
      obtain ⟨hlt, hne, hstays⟩ := hposition
      have hback : formerIndex last (renumber last position) = position :=
        ((renumber_eq_iff hne).mp rfl).symm
      refine ⟨renumber last position, (hformer _).mpr ?_, hback⟩
      rw [hback]
      exact ⟨hlt, hstays⟩
  · rw [hafter, List.map_map]
    apply List.map_congr_left
    intro position _
    exact getElem?_eraseIdx_former before last position

end IsWithout

theorem deletes_dropPositions : Deletes (@Program.dropPositions α) := by
  intro elements positions _ _
  have hpositions : List.range elements.length = elements.zipIdx.map Prod.snd := by
    rw [List.zipIdx_map_snd, List.range_eq_range']
  let stays := fun position : Nat => !positions.contains position
  refine ⟨(List.range elements.length).filter stays, ?_, fun position => ?_, ?_⟩
  · exact List.pairwise_lt_range.filter stays
  · simp [stays]
  · rw [Program.dropPositions, hpositions, List.filter_map, List.map_map, List.map_map]
    apply List.map_congr_left
    intro item hitem
    exact (List.mem_zipIdx_iff_getElem?.mp (List.mem_of_mem_filter hitem)).symm

end

namespace Program

variable {program next : Program}

theorem removeConstraint_eq_ok_iff {position : Nat} :
    program.removeConstraint position = .ok next ↔
      position < program.constraints.length ∧
        next = { program with constraints := program.constraints.eraseIdx position } := by
  by_cases hposition : position < program.constraints.length
  · simp [removeConstraint, hposition, eq_comm]
  · simp [removeConstraint, hposition]

/-- One by one, constraints go from the last position to the first. -/
theorem exists_foldlM_removeConstraint {positions : List Nat}
    (hfalling : positions.Pairwise (· > ·))
    (hexist : ∀ position ∈ positions, position < program.constraints.length) :
    ∃ left, positions.foldlM removeConstraint program =
        .ok { program with constraints := left } ∧
      IsWithout positions program.constraints left := by
  -- What goes next lies before what has gone, so its position is still the original one.
  induction positions generalizing program with
  | nil => exact ⟨program.constraints, rfl, .nil program.constraints⟩
  | cons last rest ih =>
      obtain ⟨hearlier, hrest⟩ := List.pairwise_cons.mp hfalling
      have hlast : last < program.constraints.length := hexist last List.mem_cons_self
      let next : Program := { program with constraints := program.constraints.eraseIdx last }
      have hone : program.removeConstraint last = .ok next :=
        removeConstraint_eq_ok_iff.mpr ⟨hlast, rfl⟩
      have hstill : ∀ position ∈ rest, position < next.constraints.length := by
        intro position hmem
        have hbelow := hearlier position hmem
        show position < (program.constraints.eraseIdx last).length
        rw [List.length_eraseIdx_of_lt hlast]
        omega
      obtain ⟨left, hleft, without⟩ := @ih next hrest hstill
      refine ⟨left, ?_, without.cons_of_eraseIdx hlast hearlier⟩
      rw [List.foldlM_cons, hone]
      exact hleft

section

variable {delete : List Constraint → List Nat → List Constraint} {positions : List Nat}

/-- The greatest of the listed positions is in range exactly if all of them are. -/
theorem removeConstraintsBy_eq_ok_iff_forall :
    program.removeConstraintsBy delete positions = .ok next ↔
      (∀ position ∈ positions, position < program.constraints.length) ∧
        next = { program with
          constraints := delete program.constraints (increasing positions) } := by
  rw [removeConstraintsBy_eq_ok_iff, getLast?_lt_iff (pairwise_increasing positions)]
  simp only [mem_increasing]

theorem removeConstraintsBy_eq_error_iff {error : EditError} :
    program.removeConstraintsBy delete positions = .error error ↔
      (∃ position ∈ positions, program.constraints.length ≤ position) ∧ error = .outOfRange := by
  have hexists : (∃ next, program.removeConstraintsBy delete positions = .ok next) ↔
      ∀ position ∈ positions, position < program.constraints.length := by
    simp only [removeConstraintsBy_eq_ok_iff_forall, exists_and_left, exists_eq, and_true]
  have hrefuses : ∀ other, program.removeConstraintsBy delete positions = .error other →
      other = .outOfRange := by
    intro other herror
    simp only [removeConstraintsBy] at herror
    split at herror
    · cases herror
    · exact (Except.error.inj herror).symm
  rw [eq_error_iff_of_refuses hexists hrefuses]
  simp only [not_forall, not_lt, exists_prop]

/-- If all listed positions exist, exactly the constraints at these positions go, as they would
one by one from the last to the first, and the rest of the program stays. It does not matter in
which order and how often a position is listed. If some position does not exist, nothing goes,
and whoever holds the program still holds it after the attempt. -/
theorem removeConstraintsBy_exact (deletes : Deletes delete) (program : Program)
    (positions : List Nat) :
    ((∀ position ∈ positions, position < program.constraints.length) →
      ∃ left, program.removeConstraintsBy delete positions =
          .ok { program with constraints := left } ∧
        IsWithout positions program.constraints left ∧
        (positions.toFinset.sort (· ≥ ·)).foldlM removeConstraint program =
          .ok { program with constraints := left }) ∧
      ∀ position ∈ positions, program.constraints.length ≤ position →
        program.removeConstraintsBy delete positions = .error .outOfRange ∧
          ∀ (engine : Engine) (session : Session), session.program = program →
            let reply := (Session.contract engine).edit session (.removeConstraints positions)
            reply.result = .error .outOfRange ∧ reply.next.program = program := by
  apply And.intro
  · intro hexist
    have hlisted : ∀ position ∈ increasing positions, position < program.constraints.length :=
      fun position hmem => hexist position (mem_increasing.mp hmem)
    have without : IsWithout positions program.constraints
        (delete program.constraints (increasing positions)) :=
      (deletes program.constraints (increasing positions) (pairwise_increasing positions)
        hlisted).congr fun _ => mem_increasing
    have hfalling : (positions.toFinset.sort (· ≥ ·)).Pairwise (· > ·) :=
      (Finset.sortedGT_sort positions.toFinset).pairwise
    have hsame (position : Nat) :
        position ∈ positions.toFinset.sort (· ≥ ·) ↔ position ∈ positions := by
      rw [Finset.mem_sort, List.mem_toFinset]
    obtain ⟨left, hleft, withoutLeft⟩ := exists_foldlM_removeConstraint hfalling
      fun position hmem => hexist position ((hsame position).mp hmem)
    -- Both ways leave the others in their order, and there is only one such list.
    obtain rfl := without.unique (withoutLeft.congr hsame)
    exact ⟨_, removeConstraintsBy_eq_ok_iff_forall.mpr ⟨hexist, rfl⟩, without, hleft⟩
  · intro position hlisted hmissing
    have hbeyond : ∃ position ∈ positions, program.constraints.length ≤ position :=
      ⟨position, hlisted, hmissing⟩
    refine ⟨removeConstraintsBy_eq_error_iff.mpr ⟨hbeyond, rfl⟩, fun engine session hheld => ?_⟩
    subst hheld
    have hrefused : session.program.edit (.removeConstraints positions) = .error .outOfRange :=
      removeConstraintsBy_eq_error_iff.mpr ⟨hbeyond, rfl⟩
    exact edit_of_error engine session hrefused

/-- The last and the first of four constraints go, listed out of order and one of them twice,
but nothing goes with a fifth position in the list. -/
theorem removeConstraintsBy_exact_repeated :
    let row (bound : Int) : Constraint := ⟨⟨[(0, .ofInt bound)]⟩, .ofInt bound, .posInf⟩
    let program : Program := Program.ofObjective .maximize [row 0, row 1, row 2, row 3]
      ⟨[⟨.ofInt 1, .integer⟩]⟩
    let next : Program := { program with constraints := [row 1, row 2] }
    Deletes (@dropPositions Constraint) ∧
      (∀ position ∈ [3, 0, 3], position < program.constraints.length) ∧
      program.removeConstraintsBy dropPositions [3, 0, 3] = .ok next ∧
      IsWithout [3, 0, 3] program.constraints next.constraints ∧
      [3, 0].foldlM removeConstraint program = .ok next ∧
      4 ∈ [1, 4, 0] ∧ program.constraints.length ≤ 4 ∧
      program.removeConstraintsBy dropPositions [1, 4, 0] = .error .outOfRange ∧
      ∀ engine, ((Session.contract engine).edit (.start program)
        (.removeConstraints [1, 4, 0])).next.program = program := by
  intro row program next
  have deletes : Deletes (@dropPositions Constraint) := deletes_dropPositions
  have hexist : ∀ position ∈ [3, 0, 3], position < program.constraints.length := by decide
  have hlisted : 4 ∈ [1, 4, 0] := by decide
  have hmissing : program.constraints.length ≤ 4 := by decide
  obtain ⟨left, hleft, without, hfold⟩ :=
    (removeConstraintsBy_exact deletes program [3, 0, 3]).1 hexist
  obtain ⟨hrefused, hkept⟩ :=
    (removeConstraintsBy_exact deletes program [1, 4, 0]).2 4 hlisted hmissing
  have hnext : program.removeConstraintsBy dropPositions [3, 0, 3] = .ok next :=
    toOption_eq_some_iff.mp (by decide +kernel)
  have hconstraints : left = next.constraints :=
    congrArg Program.constraints (Except.ok.inj (hleft.symm.trans hnext))
  subst hconstraints
  have hfalling : [3, 0, 3].toFinset.sort (· ≥ ·) = [3, 0] := by
    have hsame : [3, 0, 3].toFinset = [3, 0].toFinset := by decide
    rw [hsame]
    exact (List.toFinset_sort _ (by decide)).mpr (by decide)
  rw [hfalling] at hfold
  exact ⟨deletes, hexist, hnext, without, hfold, hlisted, hmissing, hrefused,
    fun engine => (hkept engine (.start program) rfl).2⟩

end

end Program

end LinProg
