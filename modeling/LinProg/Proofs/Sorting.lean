/-
# Sorted lists

Sorting by a key only rearranges the elements. Numbers that are sorted repeat themselves side by
side, so that dropping equal neighbours leaves each of them once, and the last one left is the
greatest. That is why a bound for all numbers of a list need only be compared with one of them.
-/
import LinProg.Sorting
import Mathlib.Data.List.Sort

namespace LinProg

section Keys

variable {α : Type} {key : α → Nat}

theorem insertByKey_eq_orderedInsert (element : α) (elements : List α) :
    insertByKey key element elements =
      elements.orderedInsert (fun first second => key first ≤ key second) element := by
  induction elements with
  | nil => rfl
  | cons first rest ih => rw [insertByKey, ih, List.orderedInsert_cons]

theorem sortByKey_eq_insertionSort (elements : List α) :
    sortByKey key elements =
      elements.insertionSort fun first second => key first ≤ key second := by
  rw [sortByKey, List.insertionSort]
  congr 1
  funext element rest
  exact insertByKey_eq_orderedInsert element rest

theorem sortByKey_perm (elements : List α) : (sortByKey key elements).Perm elements := by
  rw [sortByKey_eq_insertionSort]
  exact List.perm_insertionSort _ elements

theorem pairwise_sortByKey (elements : List α) :
    (sortByKey key elements).Pairwise fun first second => key first ≤ key second := by
  let before := fun first second : α => key first ≤ key second
  have : Std.Total before := ⟨fun first second => Nat.le_total (key first) (key second)⟩
  have : IsTrans α before := ⟨fun _ _ _ => Nat.le_trans⟩
  rw [sortByKey_eq_insertionSort]
  exact List.pairwise_insertionSort before elements

end Keys

variable {numbers : List Nat} {number : Nat}

theorem mem_dropRepeats : number ∈ dropRepeats numbers ↔ number ∈ numbers := by
  fun_induction dropRepeats numbers with
  | case1 first rest ih => simp [ih]
  | case2 first second rest hne ih => rw [List.mem_cons, ih, ← List.mem_cons]
  | case3 numbers hshort => rfl

/-- Without repetitions, numbers in order increase. -/
theorem pairwise_dropRepeats (hsorted : numbers.Pairwise (· ≤ ·)) :
    (dropRepeats numbers).Pairwise (· < ·) := by
  fun_induction dropRepeats numbers with
  | case1 first rest ih => exact ih hsorted.of_cons
  | case2 first second rest hne ih =>
      obtain ⟨hfirst, hrest⟩ := List.pairwise_cons.mp hsorted
      have hsecond : ∀ other ∈ second :: rest, second ≤ other := by
        intro other hmem
        rcases List.mem_cons.mp hmem with rfl | hmem
        · exact Nat.le_refl _
        · exact List.rel_of_pairwise_cons hrest hmem
      apply List.pairwise_cons.mpr
      apply And.intro _ (ih hrest)
      intro other hmem
      have hlt : first < second :=
        Nat.lt_of_le_of_ne (hfirst second List.mem_cons_self) hne
      exact hlt.trans_le (hsecond other (mem_dropRepeats.mp hmem))
  | case3 numbers hshort =>
      cases numbers with
      | nil => exact .nil
      | cons first rest =>
          cases rest with
          | nil => exact List.pairwise_singleton _ _
          | cons second rest => exact absurd rfl (hshort first second rest)

theorem mem_increasing : number ∈ increasing numbers ↔ number ∈ numbers := by
  rw [increasing, mem_dropRepeats, (sortByKey_perm numbers).mem_iff]

theorem pairwise_increasing (numbers : List Nat) : (increasing numbers).Pairwise (· < ·) :=
  pairwise_dropRepeats (pairwise_sortByKey numbers)

/-- Increasing numbers are all below a bound if the last one is. -/
theorem getLast?_lt_iff (hincreasing : numbers.Pairwise (· < ·)) {bound : Nat} :
    (∀ last ∈ numbers.getLast?, last < bound) ↔ ∀ number ∈ numbers, number < bound := by
  rcases List.eq_nil_or_concat numbers with rfl | ⟨front, last, rfl⟩
  · simp
  · rw [List.concat_eq_append] at hincreasing ⊢
    have hfront : ∀ number ∈ front, number < last := by
      simpa using (List.pairwise_append.mp hincreasing).2.2
    rw [List.getLast?_concat, List.forall_mem_append, List.forall_mem_singleton]
    apply Iff.intro
    · intro hlast
      have hbelow := hlast last rfl
      exact ⟨fun number hmem => (hfront number hmem).trans hbelow, hbelow⟩
    · intro hall other hother
      rw [← Option.some.inj hother]
      exact hall.2

end LinProg
