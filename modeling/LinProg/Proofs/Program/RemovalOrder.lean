/-
# The order of removals

Two variables can be taken out of a program in either order, as long as the position of the
later one is counted anew once the earlier one is gone. Both ways every number belongs to the
same former index, so the same variables and objective terms stay, and the rows lead to the
same values. The rows may store their terms in different orders, since each removal moves a
stored term to the place of the one that goes.
-/
import LinProg.Proofs.Program.Equality
import LinProg.Proofs.Program.Removal

namespace LinProg

namespace Entry

/-- Numbers without two indices lead to the same former indices, whichever of them goes first. -/
theorem formerIndex_comm {first second : Nat} (hlt : first < second) (index : Nat) :
    formerIndex second (formerIndex first index) =
      formerIndex first (formerIndex (second - 1) index) := by
  by_cases hbefore : index < first
  · have hboth : index < second ∧ index < second - 1 := by omega
    simp only [formerIndex, hbefore, hboth, if_true]
  · by_cases hbetween : index < second - 1
    · have hlater : index + 1 < second := by omega
      simp only [formerIndex, hbefore, hbetween, hlater, if_true, if_false]
    · have hlater : ¬ index + 1 < second ∧ ¬ index + 1 < first := by omega
      simp only [formerIndex, hbefore, hbetween, hlater, if_false]

/-- A row that loses two indices stores the same terms, whichever of them goes first. -/
theorem Distinct.removeIndex_comm {α : Type} {entry : Entry α} (distinct : entry.Distinct)
    {first second : Nat} (hlt : first < second) :
    ((entry.removeIndex second).removeIndex first).terms.Perm
      ((entry.removeIndex first).removeIndex (second - 1)).terms := by
  have hfirst := distinct.removeIndex first
  have hsecond := distinct.removeIndex second
  apply (hsecond.removeIndex first).perm_of_get?_eq (hfirst.removeIndex (second - 1))
  intro index
  calc
    _ = (entry.removeIndex second).get? (formerIndex first index) :=
      hsecond.get?_removeIndex first index
    _ = entry.get? (formerIndex second (formerIndex first index)) :=
      distinct.get?_removeIndex second _
    _ = entry.get? (formerIndex first (formerIndex (second - 1) index)) := by
      rw [formerIndex_comm hlt]
    _ = (entry.removeIndex first).get? (formerIndex (second - 1) index) :=
      (distinct.get?_removeIndex first _).symm
    _ = _ := (hfirst.get?_removeIndex (second - 1) index).symm

end Entry

open Entry (formerIndex formerIndex_comm)

theorem eraseIdx_comm {α : Type} (elements : List α) {first second : Nat} (hlt : first < second) :
    (elements.eraseIdx second).eraseIdx first =
      (elements.eraseIdx first).eraseIdx (second - 1) := by
  apply List.ext_getElem?
  intro position
  rw [getElem?_eraseIdx_former, getElem?_eraseIdx_former, getElem?_eraseIdx_former,
    getElem?_eraseIdx_former, formerIndex_comm hlt]

namespace Program

section

variable {program : Program} {first second : Nat}
  (distinct : ∀ constraint ∈ program.constraints, constraint.row.Distinct)
  (hlt : first < second)

include distinct hlt

/-- What two removals leave does not depend on their order. -/
theorem reordered_of_removeVariable {withoutFirst withoutSecond left right : Program}
    (hwithoutSecond : program.removeVariable second = .ok withoutSecond)
    (hleft : withoutSecond.removeVariable first = .ok left)
    (hwithoutFirst : program.removeVariable first = .ok withoutFirst)
    (hright : withoutFirst.removeVariable (second - 1) = .ok right) : left.Reordered right := by
  obtain ⟨-, rfl⟩ := removeVariable_eq_ok_iff.mp hwithoutSecond
  obtain ⟨-, rfl⟩ := removeVariable_eq_ok_iff.mp hwithoutFirst
  obtain ⟨-, rfl⟩ := removeVariable_eq_ok_iff.mp hleft
  obtain ⟨-, rfl⟩ := removeVariable_eq_ok_iff.mp hright
  refine ⟨rfl, ?_, congrArg Objective.mk (eraseIdx_comm program.objective.terms hlt),
    eraseIdx_comm program.vars hlt, rfl⟩
  -- The rows on both sides are made of the same former rows, one by one.
  rw [List.map_map, List.map_map, List.forall₂_map_left_iff, List.forall₂_map_right_iff,
    List.forall₂_same]
  intro constraint hmem
  exact ⟨(distinct constraint hmem).removeIndex_comm hlt, rfl, rfl⟩

/-- Two variables can be taken out, the later one first or, at its new position, last. The first
way leaves the program without the one and then without the other, and the second way leaves the
same, up to the order in which the rows store terms. -/
theorem removeVariable_comm (consistent : program.Consistent)
    (hsecond : second < program.vars.length) :
    ∃ withoutFirst withoutSecond left right,
      program.removeVariable second = .ok withoutSecond ∧
      withoutSecond.removeVariable first = .ok left ∧
      program.removeVariable first = .ok withoutFirst ∧
      withoutFirst.removeVariable (second - 1) = .ok right ∧
      program.WithoutVariable second withoutSecond ∧ withoutSecond.WithoutVariable first left ∧
      left.Reordered right := by
  obtain ⟨withoutSecond, hwithoutSecond⟩ := exists_removeVariable_of_lt hsecond
  obtain ⟨withoutFirst, hwithoutFirst⟩ := exists_removeVariable_of_lt (hlt.trans hsecond)
  have lacksSecond := withoutVariable_of_removeVariable distinct consistent hwithoutSecond
  have lacksFirst := withoutVariable_of_removeVariable distinct consistent hwithoutFirst
  have hfirstStays : first < withoutSecond.vars.length := by
    have hfewer := lacksSecond.vars_length
    omega
  have hsecondStays : second - 1 < withoutFirst.vars.length := by
    have hfewer := lacksFirst.vars_length
    omega
  obtain ⟨left, hleft⟩ := exists_removeVariable_of_lt hfirstStays
  obtain ⟨right, hright⟩ := exists_removeVariable_of_lt hsecondStays
  have lacksBoth := withoutVariable_of_removeVariable lacksSecond.distinct
    (consistent.removeVariable hwithoutSecond) hleft
  exact ⟨withoutFirst, withoutSecond, left, right, hwithoutSecond, hleft, hwithoutFirst, hright,
    lacksSecond, lacksBoth,
    reordered_of_removeVariable distinct hlt hwithoutSecond hleft hwithoutFirst hright⟩

end

/-- The first row stores both variables and an index beyond all variables, and each order of
removals leaves its other two terms the other way round. The next rows store one of both
variables, and the last row stores neither. -/
theorem removeVariable_comm_swapped :
    let one := Binary64.ofInt 1
    let half := Binary64.ofDecimal false 5 (-1)
    let program : Program := {
      Program.ofObjective .maximize
        [⟨⟨[(2, one), (0, half), (7, one), (3, half)]⟩, .negInf, one⟩,
          ⟨⟨[(0, one), (1, half)]⟩, one, .posInf⟩,
          ⟨⟨[(3, half), (2, one), (1, one)]⟩, half, one⟩,
          ⟨⟨[(1, one)]⟩, one, one⟩]
        ⟨[⟨one, .integer⟩, ⟨half, .real⟩, ⟨half, .binary⟩, ⟨one, .real⟩]⟩ with
      vars := [.nonnegative, .free, ⟨0, one⟩, ⟨half, one⟩] }
    let withFirstRow (terms : List (Nat × Binary64)) : Program := {
      Program.ofObjective .maximize
        [⟨⟨terms⟩, .negInf, one⟩, ⟨⟨[(0, half)]⟩, one, .posInf⟩,
          ⟨⟨[(1, half), (0, one)]⟩, half, one⟩, ⟨⟨[(0, one)]⟩, one, one⟩]
        ⟨[⟨half, .real⟩, ⟨one, .real⟩]⟩ with
      vars := [.free, ⟨half, one⟩] }
    let left := withFirstRow [(1, half), (5, one)]
    let right := withFirstRow [(5, one), (1, half)]
    program.Consistent ∧ (∀ constraint ∈ program.constraints, constraint.row.Distinct) ∧
      0 < 2 ∧ 2 < program.vars.length ∧
      (program.removeVariable 2 >>= fun next => next.removeVariable 0) = .ok left ∧
      (program.removeVariable 0 >>= fun next => next.removeVariable (2 - 1)) = .ok right ∧
      left.Reordered right := by
  intro one half program withFirstRow left right
  have consistent : program.Consistent := rfl
  have distinct : ∀ constraint ∈ program.constraints, constraint.row.Distinct := by
    have hindices : ∀ constraint ∈ program.constraints, constraint.row.indices.Nodup := by
      decide +kernel
    exact hindices
  have hexists : 2 < program.vars.length := by decide
  have hleft : (program.removeVariable 2 >>= fun next => next.removeVariable 0) = .ok left :=
    toOption_eq_some_iff.mp (by decide +kernel)
  have hright :
      (program.removeVariable 0 >>= fun next => next.removeVariable (2 - 1)) = .ok right :=
    toOption_eq_some_iff.mp (by decide +kernel)
  obtain ⟨withoutFirst, withoutSecond, left', right', hwithoutSecond, hleft', hwithoutFirst,
    hright', -, -, reordered⟩ :=
    removeVariable_comm distinct Nat.zero_lt_two consistent hexists
  obtain rfl : left = left' := by
    rw [hwithoutSecond] at hleft
    exact Except.ok.inj (hleft.symm.trans hleft')
  obtain rfl : right = right' := by
    rw [hwithoutFirst] at hright
    exact Except.ok.inj (hright.symm.trans hright')
  exact ⟨consistent, distinct, Nat.zero_lt_two, hexists, hleft, hright, reordered⟩

end Program

end LinProg
