/-
# Entries keep their indices distinct

An entry is a list of terms, and only the operations on it see to it that no index is
stored twice. The constructors accept exactly the entries for which this is so, and
every operation that changes the indices keeps it. Taking an index out of the numbering
moves terms about; what it does is said up to the order of the terms.
-/
import LinProg.Proofs.Lookup
import LinProg.Sparse.Entry
import Mathlib.Data.List.Perm.Basic

namespace LinProg

/-- The search for a repeated index fails exactly on distinct indices that are new. -/
theorem firstRepeated?_eq_none_iff (seen indices : List Nat) :
    firstRepeated? seen indices = none ↔
      indices.Nodup ∧ ∀ index ∈ indices, index ∉ seen := by
  induction indices generalizing seen with
  | nil => simp [firstRepeated?]
  | cons index rest ih =>
      by_cases hseen : index ∈ seen
      · simp [firstRepeated?, hseen]
      · rw [firstRepeated?, if_neg hseen, ih]
        simp only [List.nodup_cons, List.mem_cons]
        apply Iff.intro
        · rintro ⟨hnodup, hnew⟩
          refine ⟨⟨fun hmem => hnew index hmem (.inl rfl), hnodup⟩, ?_⟩
          rintro other (rfl | hmem)
          · exact hseen
          · exact fun hother => hnew other hmem (.inr hother)
        · rintro ⟨⟨hfirst, hnodup⟩, hnew⟩
          refine ⟨hnodup, fun other hmem => ?_⟩
          rintro (rfl | hother)
          · exact hfirst hmem
          · exact hnew other (.inr hmem) hother

/-- The search for a repeated index stops at the first one that was seen or stands before. -/
theorem firstRepeated?_eq_some_iff {seen indices : List Nat} {index : Nat} :
    firstRepeated? seen indices = some index ↔
      ∃ before after, indices = before ++ index :: after ∧
        firstRepeated? seen before = none ∧ (index ∈ seen ∨ index ∈ before) := by
  induction indices generalizing seen with
  | nil => simp [firstRepeated?]
  | cons first rest ih =>
      by_cases hseen : first ∈ seen
      · rw [firstRepeated?, if_pos hseen, Option.some.injEq]
        apply Iff.intro
        · rintro rfl
          exact ⟨[], rest, rfl, rfl, .inl hseen⟩
        · rintro ⟨before, after, hsplit, hnone, -⟩
          cases before with
          | nil => exact (List.cons.inj hsplit).1
          | cons other before =>
              obtain rfl := (List.cons.inj hsplit).1
              simp [firstRepeated?, hseen] at hnone
      · rw [firstRepeated?, if_neg hseen, ih]
        apply Iff.intro
        · rintro ⟨before, after, rfl, hnone, hrepeated⟩
          refine ⟨first :: before, after, rfl, ?_, ?_⟩
          · rwa [firstRepeated?, if_neg hseen]
          · simpa [or_left_comm, or_assoc] using hrepeated
        · rintro ⟨before, after, hsplit, hnone, hrepeated⟩
          cases before with
          | nil =>
              obtain rfl := (List.cons.inj hsplit).1
              simp [hseen] at hrepeated
          | cons other before =>
              obtain ⟨rfl, rfl⟩ := List.cons.inj hsplit
              rw [firstRepeated?, if_neg hseen] at hnone
              exact ⟨before, after, rfl, hnone, by
                simpa [or_left_comm, or_assoc] using hrepeated⟩

namespace Entry

variable {α : Type}

theorem indices_zip {values : List α} {indices : List Nat}
    (hlength : values.length = indices.length) :
    (⟨indices.zip values⟩ : Entry α).indices = indices :=
  List.map_fst_zip (Nat.le_of_eq hlength.symm)

/-- Lists make an entry exactly if they pair up and no index is repeated. -/
theorem ofLists?_eq_ok_iff (values : List α) (indices : List Nat) (entry : Entry α) :
    ofLists? values indices = .ok entry ↔
      values.length = indices.length ∧ indices.Nodup ∧ entry = ⟨indices.zip values⟩ := by
  by_cases hlength : values.length = indices.length
  · rw [ofLists?, if_neg (not_not_intro hlength)]
    cases hrepeated : firstRepeated? [] indices with
    | none =>
        have hnodup := ((firstRepeated?_eq_none_iff [] indices).mp hrepeated).1
        simp [hlength, hnodup, eq_comm]
    | some index =>
        have hnodup : ¬ indices.Nodup := fun hnodup => by
          have hnone := (firstRepeated?_eq_none_iff [] indices).mpr ⟨hnodup, by simp⟩
          simp [hnone] at hrepeated
        simp [hnodup]
  · simp [ofLists?, hlength]

/-- Lists that pair up are refused for a repeated index only. -/
theorem exists_repeatedIndex_of_ofLists?_eq_error {values : List α} {indices : List Nat}
    {error : InputError} (hlength : values.length = indices.length)
    (herror : ofLists? values indices = .error error) : ∃ index, error = .repeatedIndex index := by
  rw [ofLists?, if_neg (not_not_intro hlength)] at herror
  cases hrepeated : firstRepeated? [] indices with
  | none => simp [hrepeated] at herror
  | some index => exact ⟨index, by simpa [hrepeated] using herror.symm⟩

/-- Entries that a constructor accepts. -/
def Accepted (entry : Entry α) : Prop :=
  ∃ values indices, ofLists? values indices = .ok entry

theorem Accepted.distinct {entry : Entry α} (accepted : entry.Accepted) : entry.Distinct := by
  obtain ⟨values, indices, hok⟩ := accepted
  obtain ⟨hlength, hnodup, rfl⟩ := (ofLists?_eq_ok_iff values indices entry).mp hok
  rw [Distinct, indices_zip hlength]
  exact hnodup

theorem zip_indices_values (entry : Entry α) :
    entry.indices.zip entry.values = entry.terms := by
  rw [indices, values, List.zip_map', List.map_id'']
  exact fun _ => rfl

/-- Distinct entries are made of their own values and indices. -/
theorem Distinct.ofLists?_eq {entry : Entry α} (distinct : entry.Distinct) :
    ofLists? entry.values entry.indices = .ok entry := by
  refine (ofLists?_eq_ok_iff _ _ _).mpr ⟨?_, distinct, ?_⟩
  · simp [values, indices]
  · rw [zip_indices_values]

theorem Distinct.accepted {entry : Entry α} (distinct : entry.Distinct) : entry.Accepted :=
  ⟨entry.values, entry.indices, distinct.ofLists?_eq⟩

/-! ## Storing terms -/

@[simp]
theorem indices_append (entry : Entry α) (index : Nat) (value : α) :
    (entry.append index value).indices = entry.indices ++ [index] := by
  simp [indices, append]

@[simp]
theorem values_append (entry : Entry α) (index : Nat) (value : α) :
    (entry.append index value).values = entry.values ++ [value] := by
  simp [values, append]

theorem Distinct.append {entry : Entry α} (distinct : entry.Distinct) {index : Nat}
    (hnew : index ∉ entry.indices) (value : α) : (entry.append index value).Distinct := by
  rw [Distinct, indices_append, List.nodup_append]
  refine ⟨distinct, by simp, ?_⟩
  intro stored hmem other hother
  rw [List.mem_singleton.mp hother]
  exact fun heq => hnew (heq ▸ hmem)

/-- A push is accepted exactly at a new index, and then it appends. -/
theorem push?_eq_ok_iff (entry pushed : Entry α) (index : Nat) (value : α) :
    entry.push? index value = .ok pushed ↔
      index ∉ entry.indices ∧ pushed = entry.append index value := by
  by_cases hmem : index ∈ entry.indices
  · simp [push?, hmem]
  · simp [push?, hmem, eq_comm]

theorem indices_setValue? {entry changed : Entry α} {place : Nat} {value : α}
    (hset : entry.setValue? place value = some changed) : changed.indices = entry.indices := by
  obtain ⟨term, hterm, rfl⟩ := Option.map_eq_some_iff.mp hset
  obtain ⟨hlt, rfl⟩ := List.getElem?_eq_some_iff.mp hterm
  simp only [indices, List.map_set]
  rw [← List.getElem_map Prod.fst (h := by simpa using hlt)]
  exact List.set_getElem_self _

/-! ## Looking values up -/

theorem get?_eq_none_iff (entry : Entry α) (index : Nat) :
    entry.get? index = none ↔ index ∉ entry.indices :=
  lookup_eq_none_iff_notMem

theorem get?_isSome_iff (entry : Entry α) (index : Nat) :
    (entry.get? index).isSome ↔ index ∈ entry.indices := by
  rw [Option.isSome_iff_ne_none, ne_eq, get?_eq_none_iff, not_not]

theorem get?_cons (index : Nat) (value : α) (rest : List (Nat × α)) (position : Nat) :
    (⟨(index, value) :: rest⟩ : Entry α).get? position =
      if position = index then some value else (⟨rest⟩ : Entry α).get? position :=
  lookup_cons_eq_ite index value rest position

theorem get_cons [OfNat α 0] (index : Nat) (value : α) (rest : List (Nat × α)) (position : Nat) :
    (⟨(index, value) :: rest⟩ : Entry α).get position =
      if position = index then value else (⟨rest⟩ : Entry α).get position := by
  rw [get, get?_cons]
  split
  · rfl
  · rfl

/-! ## Taking an index out -/

/-- Moving the last element into a position deletes the element there, up to order. -/
theorem swapRemove_perm_eraseIdx {β : Type} {elements : List β} {position : Nat}
    (hlt : position < elements.length) :
    (swapRemove elements position).Perm (elements.eraseIdx position) := by
  rcases List.eq_nil_or_concat elements with rfl | ⟨front, last, rfl⟩
  · simp at hlt
  · rw [List.concat_eq_append] at hlt ⊢
    simp only [swapRemove, List.getLast?_concat]
    by_cases hfront : position < front.length
    · rw [List.set_append_left _ _ hfront, List.dropLast_concat,
        List.eraseIdx_append_of_lt_length hfront]
      exact (List.set_perm_cons_eraseIdx hfront last).trans
        (List.perm_append_singleton last _).symm
    · have hlast : position = front.length := by
        simp only [List.length_append, List.length_singleton] at hlt
        omega
      subst hlast
      simp [List.set_append_right, List.eraseIdx_append_of_length_le]

/-- Among terms with distinct indices, erasing a term keeps those with another index. -/
theorem eraseIdx_eq_filter {terms : List (Nat × α)} (hnodup : (terms.map Prod.fst).Nodup)
    {position : Nat} (hlt : position < terms.length) :
    terms.eraseIdx position = terms.filter fun term => term.1 ≠ (terms[position]).1 := by
  induction terms generalizing position with
  | nil => simp at hlt
  | cons term rest ih =>
      obtain ⟨hfirst, hrest⟩ := List.nodup_cons.mp hnodup
      cases position with
      | zero =>
          have hkept : ∀ other ∈ rest, other.1 ≠ term.1 := fun other hmem heq =>
            hfirst (heq ▸ List.mem_map_of_mem hmem)
          rw [List.eraseIdx_cons_zero, List.getElem_cons_zero, List.filter_cons_of_neg (by simp)]
          exact (List.filter_eq_self.mpr (by simpa using hkept)).symm
      | succ position =>
          have hlt' : position < rest.length := Nat.lt_of_succ_lt_succ hlt
          have hterm : term.1 ≠ (rest[position]).1 := fun heq =>
            hfirst (heq ▸ List.mem_map_of_mem (List.getElem_mem hlt'))
          rw [List.eraseIdx_cons_succ, List.getElem_cons_succ,
            List.filter_cons_of_pos (by simpa using hterm), ih hrest hlt']

/-- The new number of an index when another one is taken out of the numbering. -/
def renumber (removed index : Nat) : Nat :=
  if removed < index then index - 1 else index

theorem map_swapRemove {β γ : Type} (change : β → γ) (elements : List β) (position : Nat) :
    (swapRemove elements position).map change = swapRemove (elements.map change) position := by
  rw [swapRemove, swapRemove, List.getLast?_map]
  cases elements.getLast? with
  | none => rfl
  | some last => simp only [Option.map_some, List.map_dropLast, List.map_set]

/-- Of the indices, the last one moves to the place of the one that goes, and then all are
renumbered. -/
theorem indices_removeIndex (entry : Entry α) (removed : Nat) :
    (entry.removeIndex removed).indices =
      ((entry.indices.idxOf? removed).elim entry.indices (swapRemove entry.indices)).map
        (renumber removed) := by
  rw [indices, removeIndex, List.map_map]
  cases entry.indices.idxOf? removed with
  | none =>
      rw [Option.elim_none, indices, List.map_map]
      rfl
  | some position =>
      rw [Option.elim_some, indices, ← map_swapRemove, List.map_map]
      rfl

/-- The values follow the indices: the last one moves to the place of the one that goes. -/
theorem values_removeIndex (entry : Entry α) (removed : Nat) :
    (entry.removeIndex removed).values =
      (entry.indices.idxOf? removed).elim entry.values (swapRemove entry.values) := by
  rw [values, removeIndex, List.map_map]
  cases entry.indices.idxOf? removed with
  | none => rfl
  | some position =>
      rw [Option.elim_some, values, ← map_swapRemove]
      rfl

theorem renumber_inj {removed first second : Nat} (hfirst : first ≠ removed)
    (hsecond : second ≠ removed) (heq : renumber removed first = renumber removed second) :
    first = second := by
  simp only [renumber] at heq
  split at heq <;> split at heq <;> omega

/-- The terms that stay are those with another index, renumbered. -/
theorem terms_removeIndex_perm {entry : Entry α} (distinct : entry.Distinct) (removed : Nat) :
    (entry.removeIndex removed).terms.Perm
      ((entry.terms.filter fun term => term.1 ≠ removed).map fun term =>
        (renumber removed term.1, term.2)) := by
  refine List.Perm.map (fun term : Nat × α => (renumber removed term.1, term.2)) ?_
  cases hposition : entry.indices.idxOf? removed with
  | none =>
      have hkept : ∀ term ∈ entry.terms, term.1 ≠ removed := fun term hmem heq =>
        List.idxOf?_eq_none_iff.mp hposition (heq ▸ List.mem_map_of_mem hmem)
      rw [List.filter_eq_self.mpr (by simpa using hkept)]
  | some position =>
      obtain ⟨hlt, hat, -⟩ := List.idxOf?_eq_some_iff.mp hposition
      have hlt' : position < entry.terms.length := by simpa [indices] using hlt
      have hindex : (entry.terms[position]).1 = removed := by simpa [indices] using hat
      have herase := eraseIdx_eq_filter distinct hlt'
      rw [hindex] at herase
      exact herase ▸ swapRemove_perm_eraseIdx hlt'

/-- The indices that stay are all but the removed one, renumbered. -/
theorem indices_removeIndex_perm (entry : Entry α) (removed : Nat) :
    (entry.removeIndex removed).indices.Perm
      ((entry.indices.erase removed).map (renumber removed)) := by
  rw [indices_removeIndex, List.erase_eq_eraseIdx]
  refine List.Perm.map _ ?_
  cases hposition : entry.indices.idxOf? removed with
  | none => rfl
  | some position =>
      obtain ⟨hlt, -, -⟩ := List.idxOf?_eq_some_iff.mp hposition
      exact swapRemove_perm_eraseIdx hlt

theorem Distinct.removeIndex {entry : Entry α} (distinct : entry.Distinct) (removed : Nat) :
    (entry.removeIndex removed).Distinct := by
  refine (indices_removeIndex_perm entry removed).nodup_iff.mpr ?_
  have hkept : ∀ index ∈ entry.indices.erase removed, index ≠ removed :=
    fun index hmem => (distinct.mem_erase_iff.mp hmem).1
  exact (List.Nodup.erase removed distinct).map_on fun first hfirst second hsecond =>
    renumber_inj (hkept first hfirst) (hkept second hsecond)

end Entry

end LinProg
