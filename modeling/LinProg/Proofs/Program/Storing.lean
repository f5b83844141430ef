/-
# Rows after storing

Terms that are stored one after another are scattered over the rows. Seen from one row, they
are appended in the order in which they come, those for other rows left out, and nothing
else in the constraints changes.
-/
import LinProg.Proofs.Program.Ingestion

namespace LinProg.PlacedTerm

/-- What terms bring to the row at a position. -/
def termsAt (terms : List PlacedTerm) (position : Nat) : List (Nat × Binary64) :=
  (terms.filter fun term => term.position = position).map fun term => (term.index, term.value)

theorem mem_termsAt {terms : List PlacedTerm} {position : Nat} {stored : Nat × Binary64} :
    stored ∈ termsAt terms position ↔ ⟨position, stored.1, stored.2⟩ ∈ terms := by
  rw [termsAt, List.mem_map]
  apply Iff.intro
  · rintro ⟨term, hmem, rfl⟩
    have hposition : term.position = position := by simpa using List.of_mem_filter hmem
    subst hposition
    exact List.mem_of_mem_filter hmem
  · intro hmem
    exact ⟨_, List.mem_filter.mpr ⟨hmem, decide_eq_true rfl⟩, rfl⟩

theorem termsAt_perm {first second : List PlacedTerm} (hperm : first.Perm second)
    (position : Nat) : (termsAt first position).Perm (termsAt second position) :=
  (hperm.filter _).map _

theorem termsAt_append (left right : List PlacedTerm) (position : Nat) :
    termsAt (left ++ right) position = termsAt left position ++ termsAt right position := by
  rw [termsAt, List.filter_append, List.map_append]
  rfl

/-- Storing one term, seen from one row. -/
theorem getElem?_store (term : PlacedTerm) (constraints : List Constraint) (position : Nat) :
    (term.store constraints)[position]? = constraints[position]?.map fun constraint =>
      { constraint with row := ⟨constraint.row.terms ++ termsAt [term] position⟩ } := by
  rw [store, List.getElem?_modify]
  by_cases hposition : term.position = position
  · simp [hposition, termsAt, Entry.append]
  · simp [hposition, termsAt]

/-- Storing terms in order, seen from one row. -/
theorem getElem?_foldl_store (terms : List PlacedTerm) (constraints : List Constraint)
    (position : Nat) :
    (terms.foldl (fun constraints term => term.store constraints) constraints)[position]? =
      constraints[position]?.map fun constraint =>
        { constraint with row := ⟨constraint.row.terms ++ termsAt terms position⟩ } := by
  induction terms generalizing constraints with
  | nil => simp [termsAt]
  | cons term rest ih =>
      have hsplit : termsAt (term :: rest) position =
          termsAt [term] position ++ termsAt rest position := termsAt_append [term] rest position
      rw [List.foldl_cons, ih, getElem?_store, Option.map_map, hsplit]
      simp [Function.comp_def]

theorem length_foldl_store (terms : List PlacedTerm) (constraints : List Constraint) :
    (terms.foldl (fun constraints term => term.store constraints) constraints).length =
      constraints.length := by
  induction terms generalizing constraints with
  | nil => rfl
  | cons term rest ih => rw [List.foldl_cons, ih, store, List.length_modify]

/-- Terms for other places take no room, and make none. -/
theorem hasRoom_foldl_store_iff {terms : List PlacedTerm} {place : Nat × Nat}
    (hother : ∀ term ∈ terms, term.index ≠ place.2) (constraints : List Constraint) :
    HasRoom (terms.foldl (fun constraints term => term.store constraints) constraints) place ↔
      HasRoom constraints place := by
  have hnew : ∀ value, (place.2, value) ∉ termsAt terms place.1 :=
    fun value hmem => hother _ (mem_termsAt.mp hmem) rfl
  simp only [HasRoom, getElem?_foldl_store, Option.map_eq_some_iff]
  apply Iff.intro
  · rintro ⟨_, ⟨constraint, hat, rfl⟩, hfree⟩
    refine ⟨constraint, hat, fun hmem => hfree ?_⟩
    simp only [Entry.indices, List.map_append, List.mem_append]
    exact .inl hmem
  · rintro ⟨constraint, hat, hfree⟩
    refine ⟨_, ⟨constraint, hat, rfl⟩, fun hmem => ?_⟩
    simp only [Entry.indices, List.map_append, List.mem_append] at hmem
    cases hmem with
    | inl hold => exact hfree hold
    | inr hstored =>
        obtain ⟨term, hterm, hindex⟩ := List.mem_map.mp hstored
        exact hnew term.2 (hindex ▸ hterm)

theorem ofColumns_append (first second : List (Entry Binary64 × Nat)) :
    ofColumns (first ++ second) = ofColumns first ++ ofColumns second :=
  List.flatMap_append

/-- The terms of numbered columns have the numbers of the columns. -/
theorem index_of_mem_ofColumns {columns : List (Entry Binary64)} {start : Nat} {term : PlacedTerm}
    (hmem : term ∈ ofColumns (columns.zipIdx start)) :
    start ≤ term.index ∧ term.index < start + columns.length := by
  obtain ⟨column, hcolumn, hterm⟩ := List.mem_flatMap.mp hmem
  obtain ⟨stored, -, rfl⟩ := List.mem_map.mp hterm
  obtain ⟨hstart, hstop, -⟩ := List.mem_zipIdx hcolumn
  exact ⟨hstart, hstop⟩

end LinProg.PlacedTerm
