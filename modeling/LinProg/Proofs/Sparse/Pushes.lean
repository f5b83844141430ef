/-
# Entries term by term

An entry can be made of two lists at once, which are searched for a repetition, or by pushing
one term after the other, where each push looks at the indices that are stored already. The
two ways accept the same lists, make the same entry of them, and name the same index where
they do not.
-/
import LinProg.Proofs.Sparse.Equality
import LinProg.Proofs.Sparse.Repetition

namespace LinProg

/-- The search for a repeated index asks only which indices were seen. -/
theorem firstRepeated?_congr {first second : List Nat}
    (hseen : ∀ index, index ∈ first ↔ index ∈ second) (indices : List Nat) :
    firstRepeated? first indices = firstRepeated? second indices := by
  induction indices generalizing first second with
  | nil => rfl
  | cons index rest ih =>
      have hrest : firstRepeated? (index :: first) rest = firstRepeated? (index :: second) rest :=
        ih fun other => by simp only [List.mem_cons, hseen]
      simp only [firstRepeated?, hseen, hrest]

namespace Entry

variable {α : Type}

/-- Push terms one after the other. The first refusal ends this. -/
def pushAll? (entry : Entry α) (terms : List (Nat × α)) : Except InputError (Entry α) :=
  terms.foldlM (fun pushed term => pushed.push? term.1 term.2) entry

theorem pushAll?_cons_of_mem {entry : Entry α} {term : Nat × α} (hmem : term.1 ∈ entry.indices)
    (rest : List (Nat × α)) :
    entry.pushAll? (term :: rest) = .error (.repeatedIndex term.1) := by
  rw [pushAll?, List.foldlM_cons, push?, if_pos hmem]
  rfl

theorem pushAll?_cons_of_notMem {entry : Entry α} {term : Nat × α} (hnew : term.1 ∉ entry.indices)
    (rest : List (Nat × α)) :
    entry.pushAll? (term :: rest) = (entry.append term.1 term.2).pushAll? rest := by
  rw [pushAll?, List.foldlM_cons, push?, if_neg hnew]
  rfl

/-- The pushes find a repetition where a search would that has seen the stored indices. Without
one they store all terms, in order. -/
theorem pushAll?_eq (entry : Entry α) (terms : List (Nat × α)) :
    entry.pushAll? terms =
      match firstRepeated? entry.indices (terms.map Prod.fst) with
      | some index => .error (.repeatedIndex index)
      | none => .ok ⟨entry.terms ++ terms⟩ := by
  induction terms generalizing entry with
  | nil => simp [pushAll?, firstRepeated?, pure, Except.pure]
  | cons term rest ih =>
      by_cases hmem : term.1 ∈ entry.indices
      · rw [pushAll?_cons_of_mem hmem, List.map_cons, firstRepeated?, if_pos hmem]
      · have hseen : firstRepeated? (entry.append term.1 term.2).indices (rest.map Prod.fst) =
            firstRepeated? (term.1 :: entry.indices) (rest.map Prod.fst) :=
          firstRepeated?_congr (fun index => by simp [or_comm]) _
        rw [pushAll?_cons_of_notMem hmem, ih, hseen, List.map_cons, firstRepeated?, if_neg hmem,
          append, List.append_assoc]
        rfl

/-- Lists that pair up are taken at once as they are taken term by term. -/
theorem ofLists?_eq_pushAll? {values : List α} {indices : List Nat}
    (hlength : values.length = indices.length) :
    ofLists? values indices = empty.pushAll? (indices.zip values) := by
  have hindices : (indices.zip values).map Prod.fst = indices := indices_zip hlength
  rw [pushAll?_eq, hindices, ofLists?, if_neg (not_not_intro hlength)]
  rfl

/-- Lists that pair up are refused for the index whose second occurrence comes first. -/
theorem ofLists?_eq_error_iff {values : List α} {indices : List Nat}
    (hlength : values.length = indices.length) (error : InputError) :
    ofLists? values indices = .error error ↔
      ∃ index position, error = .repeatedIndex index ∧
        IsLeast (repeatsWithin indices 0 indices.length) position ∧
        indices[position]? = some index := by
  have hsearch : ofLists? values indices = .error error ↔
      ∃ index, error = .repeatedIndex index ∧ firstRepeated? [] indices = some index := by
    rw [ofLists?, if_neg (not_not_intro hlength)]
    cases firstRepeated? [] indices with
    | none => simp
    | some index => simp [eq_comm]
  simp only [hsearch, firstRepeated?_eq_some_iff_isLeast, exists_and_left]

/-- A value is read back at its index. -/
theorem get_of_ofLists? [OfNat α 0] {values : List α} {indices : List Nat} {entry : Entry α}
    (hok : ofLists? values indices = .ok entry) {position index : Nat} {value : α}
    (hindex : indices[position]? = some index) (hvalue : values[position]? = some value) :
    entry.get index = value := by
  have distinct : entry.Distinct := Accepted.distinct ⟨values, indices, hok⟩
  obtain ⟨-, -, rfl⟩ := (ofLists?_eq_ok_iff values indices entry).mp hok
  have hmem : (index, value) ∈ indices.zip values :=
    List.mem_of_getElem? (List.getElem?_zip_eq_some.mpr ⟨hindex, hvalue⟩)
  rw [get, distinct.get?_eq_some_iff.mpr hmem, Option.getD_some]

/-- Everywhere else stands zero. -/
theorem get_of_ofLists?_of_notMem [OfNat α 0] {values : List α} {indices : List Nat}
    {entry : Entry α} (hok : ofLists? values indices = .ok entry) {index : Nat}
    (hindex : index ∉ indices) : entry.get index = 0 := by
  obtain ⟨hlength, -, rfl⟩ := (ofLists?_eq_ok_iff values indices entry).mp hok
  have hterms : index ∉ (⟨indices.zip values⟩ : Entry α).indices :=
    (indices_zip hlength).symm ▸ hindex
  rw [get, (get?_eq_none_iff _ _).mpr hterms, Option.getD_none]

/-- Lists of different lengths are refused with their lengths. All other lists are taken at once
exactly as they are taken term by term, with the same entry or the same refusal, which names
the index whose second occurrence comes first. An entry that is made has each value at its
index, and zeros everywhere else. -/
theorem ofLists?_same_as_pushes [OfNat α 0] (values : List α) (indices : List Nat) :
    (values.length ≠ indices.length →
      ofLists? values indices = .error (.lengthMismatch values.length indices.length)) ∧
    (values.length = indices.length →
      ofLists? values indices = empty.pushAll? (indices.zip values) ∧
        (∀ error, ofLists? values indices = .error error ↔
          ∃ index position, error = .repeatedIndex index ∧
            IsLeast (repeatsWithin indices 0 indices.length) position ∧
            indices[position]? = some index) ∧
        ∀ entry, ofLists? values indices = .ok entry →
          (∀ (position index : Nat) (value : α), indices[position]? = some index →
            values[position]? = some value → entry.get index = value) ∧
          ∀ index, index ∉ indices → entry.get index = 0) := by
  apply And.intro
  · intro hlength
    rw [ofLists?, if_pos hlength]
  · intro hlength
    refine ⟨ofLists?_eq_pushAll? hlength, ofLists?_eq_error_iff hlength, fun entry hok => ?_⟩
    exact ⟨fun position index value hindex hvalue => get_of_ofLists? hok hindex hvalue,
      fun index hindex => get_of_ofLists?_of_notMem hok hindex⟩

/-- The 7 is stored a second time before the 4 is, which stands first. Without the repetitions
the same values are stored. -/
theorem ofLists?_same_as_pushes_interleaved :
    (empty : Entry Int).pushAll? [(4, 1), (7, 2), (7, 3), (4, 5)] =
        .error (.repeatedIndex 7) ∧
      ofLists? [1, 2, 3, 5] [4, 7, 7, 4] = (.error (.repeatedIndex 7) : Except _ (Entry Int)) ∧
      (∃ entry : Entry Int, ofLists? [1, 2] [4, 7] = .ok entry ∧ entry.get 7 = 2 ∧
        entry.get 0 = 0) := by
  have hpushed : (empty : Entry Int).pushAll? [(4, 1), (7, 2), (7, 3), (4, 5)] =
      .error (.repeatedIndex 7) := rfl
  have hmade : ofLists? [1, 2] [4, 7] = .ok (⟨[(4, 1), (7, 2)]⟩ : Entry Int) := rfl
  have hsame := ((ofLists?_same_as_pushes ([1, 2, 3, 5] : List Int) [4, 7, 7, 4]).2 rfl).1
  obtain ⟨hvalue, hzero⟩ :=
    ((ofLists?_same_as_pushes ([1, 2] : List Int) [4, 7]).2 rfl).2.2 _ hmade
  exact ⟨hpushed, hsame.trans hpushed, _, hmade, hvalue 1 7 2 rfl rfl, hzero 0 (by decide)⟩

end Entry

end LinProg
