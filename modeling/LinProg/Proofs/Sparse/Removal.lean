/-
# Taking an index out of the numbering

When an index is taken out of the numbering, every other index has one new number, and each
number belongs to one former index. A row stores at a new number what it stored at the former
one, although the terms that stay are moved about. So the value of the row at a point does not
change either, as long as the point is zero at the index that goes.
-/
import LinProg.Proofs.Program.Meaning
import LinProg.Proofs.Sparse.Equality

namespace LinProg

namespace Entry

variable {α : Type} {removed index : Nat}

/-- The index that has a number after another index was taken out of the numbering. -/
def formerIndex (removed index : Nat) : Nat :=
  if index < removed then index else index + 1

theorem formerIndex_ne (removed index : Nat) : formerIndex removed index ≠ removed := by
  rw [formerIndex]
  split <;> omega

/-- Only the removed index has no number any more. -/
theorem renumber_eq_iff {stored : Nat} (hstored : stored ≠ removed) :
    renumber removed stored = index ↔ stored = formerIndex removed index := by
  rw [renumber, formerIndex]
  split <;> split <;> omega

/-- After a removal every index leads to what was stored at its former number. -/
theorem Distinct.get?_removeIndex {entry : Entry α} (distinct : entry.Distinct)
    (removed index : Nat) :
    (entry.removeIndex removed).get? index = entry.get? (formerIndex removed index) := by
  apply Option.ext
  intro value
  rw [(distinct.removeIndex removed).get?_eq_some_iff, distinct.get?_eq_some_iff,
    (terms_removeIndex_perm distinct removed).mem_iff, List.mem_map]
  apply Iff.intro
  · intro hmoved
    obtain ⟨term, hterm, heq⟩ := hmoved
    obtain ⟨hmem, hkept⟩ := List.mem_filter.mp hterm
    obtain ⟨hindex, hvalue⟩ := Prod.mk.inj heq
    rw [← (renumber_eq_iff (by simpa using hkept)).mp hindex, ← hvalue]
    exact hmem
  · intro hmem
    have hkept := formerIndex_ne removed index
    refine ⟨(formerIndex removed index, value), List.mem_filter.mpr ⟨hmem, by simpa using hkept⟩, ?_⟩
    rw [(renumber_eq_iff hkept).mpr rfl]

/-- A term counts for nothing at a point that is zero there, so the others make up the value. -/
theorem termsValue_filter {terms : List (Nat × Binary64)} {point : Nat → Rat}
    (hzero : point removed = 0) :
    termsValue (terms.filter fun term => term.1 ≠ removed) point = termsValue terms point := by
  induction terms with
  | nil => rfl
  | cons term rest ih =>
      simp only [termsValue] at ih ⊢
      by_cases hterm : term.1 = removed
      · rw [List.filter_cons_of_neg (by simpa using hterm), ih, List.map_cons, List.sum_cons, hterm,
          hzero, mul_zero, zero_add]
      · rw [List.filter_cons_of_pos (by simpa using hterm), List.map_cons, List.sum_cons, ih,
          List.map_cons, List.sum_cons]

/-- The value of a row stays the same without an index at which the point is zero. -/
theorem Distinct.termsValue_removeIndex {row : Entry Binary64} (distinct : row.Distinct)
    {point : Nat → Rat} (hzero : point removed = 0) :
    termsValue (row.removeIndex removed).terms (fun index => point (formerIndex removed index)) =
      termsValue row.terms point := by
  have hkept : ∀ term ∈ row.terms.filter fun term => term.1 ≠ removed,
      formerIndex removed (renumber removed term.1) = term.1 := by
    intro term hmem
    have hindex : term.1 ≠ removed := by simpa using List.of_mem_filter hmem
    exact ((renumber_eq_iff hindex).mp rfl).symm
  calc
    _ = termsValue ((row.terms.filter fun term => term.1 ≠ removed).map fun term =>
          (renumber removed term.1, term.2)) fun index => point (formerIndex removed index) :=
      ((terms_removeIndex_perm distinct removed).map _).sum_eq
    _ = termsValue (row.terms.filter fun term => term.1 ≠ removed) point := by
      rw [termsValue, termsValue, List.map_map]
      refine congrArg List.sum (List.map_congr_left fun term hmem => ?_)
      simp only [Function.comp_apply, hkept term hmem]
    _ = _ := termsValue_filter hzero

end Entry

end LinProg
