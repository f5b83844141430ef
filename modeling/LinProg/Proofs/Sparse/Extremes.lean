/-
# Extreme values

The smallest and the largest stored value are found by one walk through the values, which
holds on to one of them. The undefined value compares with nothing, and the two walks treat it
differently. The one for the smallest value passes over it, or never leaves it if it comes
first, and either way nothing smaller is stored than what it ends with. The one for the
largest value takes it and then whatever comes next, so that it forgets what it held.
-/
import LinProg.Proofs.Binary64.Exact
import LinProg.Sparse.Entry

namespace LinProg

namespace Binary64

/-- A walk that holds on to one value ends with one of them. -/
theorem foldl_mem {pick : Binary64 → Binary64 → Binary64}
    (hpick : ∀ held next, pick held next = held ∨ pick held next = next)
    (held : Binary64) (rest : List Binary64) : rest.foldl pick held ∈ held :: rest := by
  induction rest generalizing held with
  | nil => exact List.mem_cons_self
  | cons next rest ih =>
      rw [List.foldl_cons]
      have hmem := ih (pick held next)
      rcases hpick held next with hheld | hnext
      · rw [hheld] at hmem ⊢
        exact List.cons_subset_cons held (List.subset_cons_self next rest) hmem
      · rw [hnext] at hmem ⊢
        exact List.mem_cons_of_mem held hmem

/-- Hold on to a value until a smaller one comes. -/
def lesser (held next : Binary64) : Binary64 :=
  if next < held then next else held

/-- Hold on to a value as long as smaller ones come. -/
def greater (held next : Binary64) : Binary64 :=
  if next < held then held else next

theorem foldl_lesser_mem (held : Binary64) (rest : List Binary64) :
    rest.foldl lesser held ∈ held :: rest :=
  foldl_mem (fun held next => by unfold lesser; split <;> simp) held rest

theorem foldl_greater_mem (held : Binary64) (rest : List Binary64) :
    rest.foldl greater held ∈ held :: rest :=
  foldl_mem (fun held next => by unfold greater; split <;> simp) held rest

/-- The walk for the smallest value only goes down. -/
theorem foldl_lesser_eq_or_lt (held : Binary64) (rest : List Binary64) :
    rest.foldl lesser held = held ∨ rest.foldl lesser held < held := by
  induction rest generalizing held with
  | nil => exact .inl rfl
  | cons next rest ih =>
      rw [List.foldl_cons]
      by_cases hnext : next < held
      · rw [lesser, if_pos hnext]
        rcases ih next with heq | hlt
        · rw [heq]
          exact .inr hnext
        · exact .inr (lt_of_le_of_lt (le_of_lt hlt) hnext)
      · rw [lesser, if_neg hnext]
        exact ih held

/-- Nothing is smaller than what the walk for the smallest value ends with. -/
theorem not_lt_foldl_lesser (held : Binary64) (rest : List Binary64) :
    ∀ value ∈ held :: rest, ¬ value < rest.foldl lesser held := by
  induction rest generalizing held with
  | nil =>
      intro value hmem
      rw [List.mem_singleton.mp hmem]
      exact lt_irrefl held
  | cons next rest ih =>
      intro value hmem hlt
      rw [List.foldl_cons] at hlt
      by_cases hnext : next < held
      · rw [lesser, if_pos hnext] at hlt
        rcases List.mem_cons.mp hmem with rfl | hrest
        · exact ih next next List.mem_cons_self (lt_of_le_of_lt (le_of_lt hnext) hlt)
        · exact ih next value hrest hlt
      · rw [lesser, if_neg hnext] at hlt
        rcases List.mem_cons.mp hmem with rfl | hrest
        · exact ih value value List.mem_cons_self hlt
        · rcases List.mem_cons.mp hrest with rfl | hrest
          · -- A value that was passed over is not below what is held, nor below what comes later.
            rcases foldl_lesser_eq_or_lt held rest with heq | hdown
            · exact hnext (heq ▸ hlt)
            · exact hnext (lt_of_le_of_lt (le_of_lt hlt) hdown)
          · exact ih held value (List.mem_cons_of_mem held hrest) hlt

/-- Nothing is greater than what the walk for the largest value ends with, as long as every
value is a number. -/
theorem not_foldl_greater_lt (held : Binary64) (rest : List Binary64)
    (hnumbers : .nan ∉ held :: rest) :
    ∀ value ∈ held :: rest, ¬ rest.foldl greater held < value := by
  induction rest generalizing held with
  | nil =>
      intro value hmem
      rw [List.mem_singleton.mp hmem]
      exact lt_irrefl held
  | cons next rest ih =>
      obtain ⟨hheld, hnext, hrest⟩ : held ≠ .nan ∧ next ≠ .nan ∧ .nan ∉ rest := by
        simpa [eq_comm, and_assoc] using hnumbers
      intro value hmem hlt
      rw [List.foldl_cons] at hlt
      by_cases hdown : next < held
      · rw [greater, if_pos hdown] at hlt
        have hend := ih held (by simp [hheld.symm, hrest])
        rcases List.mem_cons.mp hmem with rfl | hmem
        · exact hend value List.mem_cons_self hlt
        · rcases List.mem_cons.mp hmem with rfl | hmem
          · exact hend held List.mem_cons_self (lt_of_lt_of_le hlt (le_of_lt hdown))
          · exact hend value (List.mem_cons_of_mem held hmem) hlt
      · rw [greater, if_neg hdown] at hlt
        have hend := ih next (by simp [hnext.symm, hrest])
        rcases List.mem_cons.mp hmem with rfl | hmem
        · exact hend next List.mem_cons_self
            (lt_of_lt_of_le hlt (le_of_not_lt hnext hheld hdown))
        · exact hend value hmem hlt

theorem greater_nan (held : Binary64) : greater held nan = nan :=
  if_neg nan_not_lt

theorem nan_greater (next : Binary64) : greater nan next = next :=
  if_neg not_lt_nan

/-- The walk for the largest value forgets what it held at the undefined value. -/
theorem foldl_greater_append_nan (held : Binary64) (before after : List Binary64) :
    (before ++ nan :: after).foldl greater held = after.foldl greater nan := by
  rw [List.foldl_append, List.foldl_cons, greater_nan]

/-- A value that the undefined value stands behind, and behind that smaller values only. -/
def Forgotten (values : List Binary64) (value : Binary64) : Prop :=
  ∃ before after, values = before ++ nan :: after ∧ after ≠ [] ∧ value ∈ before ∧
    ∀ later ∈ after, later < value

theorem foldl_greater_nan_mem {values : List Binary64} (hne : values ≠ []) :
    values.foldl greater nan ∈ values := by
  obtain ⟨held, rest, rfl⟩ := List.exists_cons_of_ne_nil hne
  rw [List.foldl_cons, nan_greater]
  exact foldl_greater_mem held rest

theorem not_foldl_greater_nan_lt {values : List Binary64} (hnumbers : nan ∉ values) :
    ∀ value ∈ values, ¬ values.foldl greater nan < value := by
  cases values with
  | nil => simp
  | cons held rest =>
      rw [List.foldl_cons, nan_greater]
      exact not_foldl_greater_lt held rest hnumbers

/-- There is a last undefined value, if there is any. -/
theorem exists_last_nan {values : List Binary64} (hmem : nan ∈ values) :
    ∃ before after, values = before ++ nan :: after ∧ nan ∉ after := by
  obtain ⟨after, before, hsplit, hafter⟩ :=
    List.eq_append_cons_of_mem (List.mem_reverse.mpr hmem)
  refine ⟨before.reverse, after.reverse, ?_, by simpa using hafter⟩
  rw [← List.reverse_inj, hsplit]
  simp

/-- The values that are greater than what the walk for the largest value ends with are those
that it forgot. -/
theorem foldl_greater_lt_iff {values : List Binary64} {value : Binary64} :
    value ∈ values ∧ values.foldl greater nan < value ↔ Forgotten values value := by
  apply Iff.intro
  · rintro ⟨hmem, hlt⟩
    by_cases hnan : nan ∈ values
    · obtain ⟨before, after, rfl, hafter⟩ := exists_last_nan hnan
      rw [foldl_greater_append_nan] at hlt
      have hne : after ≠ [] := by
        rintro rfl
        exact nan_not_lt hlt
      have hend := not_foldl_greater_nan_lt hafter
      have hnumber : after.foldl greater nan ≠ nan :=
        ne_of_mem_of_not_mem (foldl_greater_nan_mem hne) hafter
      refine ⟨before, after, rfl, hne, ?_, fun later hlater => ?_⟩
      · rcases List.mem_append.mp hmem with hbefore | hbehind
        · exact hbefore
        · rcases List.mem_cons.mp hbehind with rfl | hbehind
          · exact absurd hlt not_lt_nan
          · exact absurd hlt (hend value hbehind)
      · have hle := le_of_not_lt hnumber (ne_of_mem_of_not_mem hlater hafter) (hend later hlater)
        exact lt_of_le_of_lt hle hlt
    · exact absurd hlt (not_foldl_greater_nan_lt hnan value hmem)
  · rintro ⟨before, after, rfl, hne, hmem, hlater⟩
    refine ⟨List.mem_append_left _ hmem, ?_⟩
    rw [foldl_greater_append_nan]
    exact hlater _ (foldl_greater_nan_mem hne)

end Binary64

namespace Entry

open Binary64

theorem lowerBound?_of_values {entry : Entry Binary64} {held : Binary64} {rest : List Binary64}
    (hvalues : entry.values = held :: rest) :
    entry.lowerBound? = some (rest.foldl lesser held) := by
  simp only [lowerBound?, hvalues]
  rfl

theorem upperBound?_of_values {entry : Entry Binary64} {held : Binary64} {rest : List Binary64}
    (hvalues : entry.values = held :: rest) :
    entry.upperBound? = some ((held :: rest).foldl greater nan) := by
  simp only [upperBound?, hvalues, List.foldl_cons, nan_greater]
  rfl

/-- There are bounds unless nothing is stored. Both are stored values. None is smaller than the
lower one. Those that are greater than the upper one are exactly the ones that an undefined
value and then only smaller ones stand behind. -/
theorem bounds_extreme (entry : Entry Binary64) :
    (entry.lowerBound? = none ↔ entry.terms = []) ∧
      (entry.upperBound? = none ↔ entry.terms = []) ∧
      (∀ least, entry.lowerBound? = some least →
        least ∈ entry.values ∧ ∀ value ∈ entry.values, ¬ value < least) ∧
      ∀ greatest, entry.upperBound? = some greatest →
        greatest ∈ entry.values ∧
          ∀ value, value ∈ entry.values ∧ greatest < value ↔ Forgotten entry.values value := by
  cases hvalues : entry.values with
  | nil =>
      have hterms : entry.terms = [] := List.map_eq_nil_iff.mp hvalues
      simp [lowerBound?, upperBound?, hvalues, hterms]
  | cons held rest =>
      have hterms : entry.terms ≠ [] := fun hnil => by simp [values, hnil] at hvalues
      rw [lowerBound?_of_values hvalues, upperBound?_of_values hvalues]
      refine ⟨by simp [hterms], by simp [hterms], ?_, ?_⟩
      · rintro least ⟨⟩
        exact ⟨foldl_lesser_mem held rest, not_lt_foldl_lesser held rest⟩
      · rintro greatest ⟨⟩
        exact ⟨foldl_greater_nan_mem (List.cons_ne_nil held rest), fun value =>
          foldl_greater_lt_iff⟩

/-- The 5 is forgotten. The 4, which stands behind the undefined value, is the upper bound. -/
theorem bounds_extreme_forgotten_five :
    let entry : Entry Binary64 := ⟨[(0, .ofInt 5), (3, .nan), (1, .ofInt 2), (2, .ofInt 4)]⟩
    entry.lowerBound? = some (.ofInt 2) ∧ (∀ value ∈ entry.values, ¬ value < .ofInt 2) ∧
      entry.upperBound? = some (.ofInt 4) ∧ Forgotten entry.values (.ofInt 5) := by
  intro entry
  have hlower : entry.lowerBound? = some (.ofInt 2) := by decide +kernel
  have hupper : entry.upperBound? = some (.ofInt 4) := by decide +kernel
  have hgreater : (.ofInt 4 : Binary64) < .ofInt 5 := by decide +kernel
  have hstored : .ofInt 5 ∈ entry.values := by simp [entry, values]
  obtain ⟨-, -, hleast, hgreatest⟩ := bounds_extreme entry
  exact ⟨hlower, (hleast _ hlower).2, hupper, ((hgreatest _ hupper).2 _).mp
    ⟨hstored, hgreater⟩⟩

/-- An entry that stores 3 has the upper bound 1, since an undefined value stands between. -/
theorem upperBound?_below_stored :
    let entry : Entry Binary64 := ⟨[(0, .ofInt 3), (1, .nan), (2, .ofInt 1)]⟩
    ofLists? [.ofInt 3, .nan, .ofInt 1] [0, 1, 2] = .ok entry ∧
      entry.upperBound? = some (.ofInt 1) ∧ .ofInt 3 ∈ entry.values ∧
      (.ofInt 1 : Binary64) < .ofInt 3 := by
  refine ⟨rfl, ?_, by simp [values], ?_⟩
  · decide +kernel
  · decide +kernel

end Entry

end LinProg
