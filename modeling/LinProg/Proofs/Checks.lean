/-
# Checks in sequence

An operation that checks its input in several steps ends well exactly if all steps do.
-/
import Mathlib.Data.List.Forall2

namespace LinProg

variable {ε α β : Type}

theorem bind_eq_ok_iff {first : Except ε α} {second : α → Except ε β} {result : β} :
    (first >>= second) = .ok result ↔ ∃ value, first = .ok value ∧ second value = .ok result := by
  cases first with
  | error error => simp [bind, Except.bind]
  | ok value => simp [bind, Except.bind]

/-- A second check is made only after a first one that ended well. -/
theorem bind_eq_error_iff {first : Except ε α} {second : α → Except ε β} {error : ε} :
    (first >>= second) = .error error ↔
      first = .error error ∨ ∃ value, first = .ok value ∧ second value = .error error := by
  cases first with
  | error other => simp [bind, Except.bind]
  | ok value => simp [bind, Except.bind]

/-- What is only packed up afterwards fails where it failed before. -/
theorem bind_pure_eq_error_iff {first : Except ε α} {pack : α → β} {error : ε} :
    (first >>= fun value => pure (pack value)) = .error error ↔ first = .error error := by
  cases first <;> simp [bind, Except.bind, pure, Except.pure]

theorem toOption_eq_some_iff {checked : Except ε α} {value : α} :
    checked.toOption = some value ↔ checked = .ok value := by
  cases checked <;> simp [Except.toOption]

theorem exists_eq_ok_iff_forall_ne_error {checked : Except ε α} :
    (∃ value, checked = .ok value) ↔ ∀ error, checked ≠ .error error := by
  cases checked <;> simp

theorem map_eq_error_iff {checked : Except ε α} {change : α → β} {error : ε} :
    checked.map change = .error error ↔ checked = .error error := by
  cases checked <;> simp [Except.map]

/-- All elements are checked, each with its own result. -/
theorem mapM_eq_ok_iff {check : α → Except ε β} {elements : List α} {results : List β} :
    elements.mapM check = .ok results ↔
      List.Forall₂ (fun element result => check element = .ok result) elements results := by
  induction elements generalizing results with
  | nil => simp [pure, Except.pure, eq_comm]
  | cons element rest ih =>
      rw [List.mapM_cons, bind_eq_ok_iff, List.forall₂_cons_left_iff]
      apply exists_congr
      intro result
      simp only [bind_eq_ok_iff, ih, ← exists_and_left]
      simp [pure, Except.pure, eq_comm]

/-- A list of checks that fails does so at the first element that is refused. -/
theorem exists_refused_of_mapM_eq_error {check : α → Except ε β} {elements : List α} {error : ε}
    (herror : elements.mapM check = .error error) :
    ∃ accepted refused rest, elements = accepted ++ refused :: rest ∧
      (∀ element ∈ accepted, ∃ result, check element = .ok result) ∧
      check refused = .error error := by
  induction elements with
  | nil => cases herror
  | cons element rest ih =>
      rw [List.mapM_cons] at herror
      cases hfirst : check element with
      | error other =>
          rw [hfirst] at herror
          cases herror
          exact ⟨[], element, rest, rfl, by simp, hfirst⟩
      | ok result =>
          have hrest : rest.mapM check = .error error := by
            rw [hfirst] at herror
            exact bind_pure_eq_error_iff.mp herror
          obtain ⟨accepted, refused, later, rfl, haccepted, hrefused⟩ := ih hrest
          refine ⟨element :: accepted, refused, later, rfl, ?_, hrefused⟩
          intro other hmem
          cases List.mem_cons.mp hmem with
          | inl hother => exact ⟨result, hother ▸ hfirst⟩
          | inr hother => exact haccepted other hother

/-- A list of checks fails exactly if there is a first element that is refused, and it fails as
the check of that element does. -/
theorem mapM_eq_error_iff {check : α → Except ε β} {elements : List α} {error : ε} :
    elements.mapM check = .error error ↔
      ∃ accepted refused rest, elements = accepted ++ refused :: rest ∧
        check refused = .error error ∧
          ∀ element ∈ accepted, ∃ result, check element = .ok result := by
  apply Iff.intro
  · intro herror
    obtain ⟨accepted, refused, rest, hsplit, haccepted, hrefused⟩ :=
      exists_refused_of_mapM_eq_error herror
    exact ⟨accepted, refused, rest, hsplit, hrefused, haccepted⟩
  · rintro ⟨accepted, refused, rest, rfl, hrefused, haccepted⟩
    induction accepted with
    | nil =>
        rw [List.nil_append, List.mapM_cons, hrefused]
        rfl
    | cons element accepted ih =>
        obtain ⟨result, hresult⟩ := haccepted element List.mem_cons_self
        have hrest := ih fun other hmem => haccepted other (List.mem_cons_of_mem _ hmem)
        rw [List.cons_append, List.mapM_cons, bind_eq_error_iff]
        exact .inr ⟨result, hresult, bind_eq_error_iff.mpr (.inl hrest)⟩

/-- A list of checks ends well exactly if no element is refused. -/
theorem exists_mapM_eq_ok_iff {check : α → Except ε β} {elements : List α} :
    (∃ results, elements.mapM check = .ok results) ↔
      ∀ element ∈ elements, ∃ result, check element = .ok result := by
  induction elements with
  | nil => simp [pure, Except.pure]
  | cons element rest ih =>
      rw [List.forall_mem_cons, ← ih]
      simp only [mapM_eq_ok_iff, List.forall₂_cons_left_iff]
      apply Iff.intro
      · rintro ⟨_, result, results, hresult, hresults, rfl⟩
        exact ⟨⟨result, hresult⟩, results, hresults⟩
      · rintro ⟨⟨result, hresult⟩, results, hresults⟩
        exact ⟨_, result, results, hresult, hresults, rfl⟩

/-- A check with one refusal of its own gives it to what it does not accept. -/
theorem eq_error_iff_of_refuses {checked : Except ε α} {accepts : Prop} {refusal error : ε}
    (haccepts : (∃ value, checked = .ok value) ↔ accepts)
    (hrefuses : ∀ other, checked = .error other → other = refusal) :
    checked = .error error ↔ ¬ accepts ∧ error = refusal := by
  rw [← haccepts]
  cases checked with
  | ok value => simp
  | error other =>
      obtain rfl := hrefuses other rfl
      simp [eq_comm]

/-- The first element of a kind is found by splitting the list there, or by its position. -/
theorem exists_split_iff_exists_position {elements : List α} {wanted passed : α → Prop} :
    (∃ before element after, elements = before ++ element :: after ∧ wanted element ∧
        ∀ other ∈ before, passed other) ↔
      ∃ (position : Nat) (element : α), elements[position]? = some element ∧ wanted element ∧
        ∀ earlier < position, ∀ other, elements[earlier]? = some other → passed other := by
  apply Iff.intro
  · rintro ⟨before, element, after, rfl, hwanted, hpassed⟩
    refine ⟨before.length, element, by simp, hwanted, fun earlier hlt other hother => ?_⟩
    rw [List.getElem?_append_left hlt] at hother
    exact hpassed other (List.mem_iff_getElem?.mpr ⟨earlier, hother⟩)
  · rintro ⟨position, element, helement, hwanted, hpassed⟩
    obtain ⟨hlt, rfl⟩ := List.getElem?_eq_some_iff.mp helement
    refine ⟨elements.take position, _, elements.drop (position + 1), ?_, hwanted, ?_⟩
    · rw [← List.drop_eq_getElem_cons hlt, List.take_append_drop]
    · intro other hmem
      obtain ⟨earlier, hearlier⟩ := List.mem_iff_getElem?.mp hmem
      rw [List.getElem?_take] at hearlier
      split at hearlier
      · exact hpassed earlier ‹_› other hearlier
      · cases hearlier

/-- Every result is that of some element. -/
theorem exists_of_mem_forall₂ {related : α → β → Prop} {elements : List α} {results : List β}
    (hrelated : List.Forall₂ related elements results) {result : β} (hmem : result ∈ results) :
    ∃ element ∈ elements, related element result := by
  induction hrelated with
  | nil => cases hmem
  | cons hfirst _ ih =>
      rcases List.mem_cons.mp hmem with rfl | hmem
      · exact ⟨_, List.mem_cons_self, hfirst⟩
      · obtain ⟨element, helement, hresult⟩ := ih hmem
        exact ⟨element, List.mem_cons_of_mem _ helement, hresult⟩

/-- A search for an offender that is refused lets exactly the lists without one pass. -/
theorem elim_find?_eq_ok_iff {elements : List α} {offends : α → Bool} {next : Except ε β}
    {refuse : α → Except ε β} (hrefuse : ∀ element result, refuse element ≠ .ok result)
    {result : β} :
    (elements.find? offends).elim next refuse = .ok result ↔
      (∀ element ∈ elements, offends element = false) ∧ next = .ok result := by
  cases hfind : elements.find? offends with
  | some element =>
      have hmem := List.mem_of_find?_eq_some hfind
      have hoffends := List.find?_some hfind
      apply iff_of_false
      · exact hrefuse element result
      · rintro ⟨hnone, -⟩
        rw [hnone element hmem] at hoffends
        cases hoffends
  | none =>
      have hnone : ∀ element ∈ elements, offends element = false := by
        simpa using List.find?_eq_none.mp hfind
      exact (and_iff_right hnone).symm

end LinProg
