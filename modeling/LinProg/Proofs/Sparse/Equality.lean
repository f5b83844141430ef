/-
# Equality of entries

An entry without repeated indices is a finite map, and looking an index up finds the one
term that there is. Equality sorts the terms of both sides by their indices and goes through them
side by side. No index occurs twice, so there is one way to sort the terms, and it is enough
that both sides lead to equal values, or to none, wherever they are looked up. Entries that
store the same terms in different orders are equal, as long as each value equals itself, which
an undefined double does not.
-/
import LinProg.Proofs.Sorting
import LinProg.Proofs.Sparse.Entry

namespace LinProg

/-- Lists are equal exactly if their elements are, in order. -/
theorem beq_iff_forall₂ {α : Type} [BEq α] {left right : List α} :
    (left == right) = true ↔
      List.Forall₂ (fun first second => (first == second) = true) left right := by
  induction left generalizing right with
  | nil => cases right <;> simp
  | cons first left ih =>
      cases right with
      | nil => simp
      | cons second right =>
          rw [List.cons_beq_cons, Bool.and_eq_true, ih, List.forall₂_cons]

theorem list_beq_self {α : Type} [BEq α] {elements : List α}
    (hself : ∀ element ∈ elements, (element == element) = true) : (elements == elements) = true :=
  beq_iff_forall₂.mpr (List.forall₂_same.mpr hself)

theorem list_beq_comm {α : Type} [BEq α]
    (hcomm : ∀ first second : α, (first == second) = (second == first)) (left right : List α) :
    (left == right) = (right == left) := by
  induction left generalizing right with
  | nil => cases right <;> rfl
  | cons first left ih =>
      cases right with
      | nil => rfl
      | cons second right => rw [List.cons_beq_cons, List.cons_beq_cons, hcomm, ih]

/-- Lists compare as others do whose elements compare alike, in order. -/
theorem list_beq_congr {α : Type} [BEq α] {related : α → α → Prop}
    (hcongr : ∀ {first first' second second' : α}, related first first' → related second second' →
      (first' == second') = (first == second)) {left left' right right' : List α}
    (hleft : List.Forall₂ related left left') (hright : List.Forall₂ related right right') :
    (left' == right') = (left == right) := by
  induction hleft generalizing right right' with
  | nil => cases hright <;> rfl
  | cons hfirst _ ih =>
      cases hright with
      | nil => rfl
      | cons hsecond hright =>
          rw [List.cons_beq_cons, List.cons_beq_cons, hcongr hfirst hsecond, ih hright]

/-- Values that are there on both sides and related, or on neither, are an equivalence, too. -/
theorem equivalence_rel {α : Type} {related : α → α → Prop} (hrelated : Equivalence related) :
    Equivalence (Option.Rel related) where
  refl
    | none => .none
    | some value => .some (hrelated.refl value)
  symm
    | .none => .none
    | .some hvalue => .some (hrelated.symm hvalue)
  trans
    | .none, .none => .none
    | .some hfirst, .some hsecond => .some (hrelated.trans hfirst hsecond)

namespace Entry

variable {α : Type} {left right entry : Entry α} {index : Nat} {value : α}

/-- An index that is stored once leads to its only value. -/
theorem Distinct.get?_eq_some_iff (distinct : entry.Distinct) :
    entry.get? index = some value ↔ (index, value) ∈ entry.terms :=
  lookup_eq_some_iff_mem distinct

theorem Distinct.of_perm (distinct : left.Distinct) (hperm : left.terms.Perm right.terms) :
    right.Distinct :=
  (hperm.map Prod.fst).nodup_iff.mp distinct

/-- The order of the terms plays no part in what they lead to. -/
theorem Distinct.get?_eq_of_perm (distinct : left.Distinct)
    (hperm : left.terms.Perm right.terms) (index : Nat) : left.get? index = right.get? index := by
  apply Option.ext
  intro value
  rw [distinct.get?_eq_some_iff, (distinct.of_perm hperm).get?_eq_some_iff, hperm.mem_iff]

/-- Entries that lead to the same values store the same terms. -/
theorem Distinct.perm_of_get?_eq (hleft : left.Distinct) (hright : right.Distinct)
    (hget : ∀ index, left.get? index = right.get? index) : left.terms.Perm right.terms := by
  apply (List.perm_ext_iff_of_nodup hleft.of_map hright.of_map).mpr
  intro term
  rw [← hleft.get?_eq_some_iff, hget, hright.get?_eq_some_iff]

/-! ## Sorted terms -/

theorem sortedTerms_perm (entry : Entry α) : entry.sortedTerms.Perm entry.terms :=
  sortByKey_perm entry.terms

theorem Distinct.pairwise_sortedTerms (distinct : entry.Distinct) :
    entry.sortedTerms.Pairwise fun first second => first.1 < second.1 := by
  have hordered : entry.sortedTerms.Pairwise fun first second => first.1 ≤ second.1 :=
    pairwise_sortByKey entry.terms
  have hnodup : (entry.sortedTerms.map Prod.fst).Nodup :=
    ((sortedTerms_perm entry).map Prod.fst).nodup_iff.mpr distinct
  have hboth := hordered.and (List.pairwise_map.mp hnodup)
  exact hboth.imp fun hpair => Nat.lt_of_le_of_ne hpair.1 hpair.2

/-- There is one way to sort terms of distinct indices. -/
theorem Distinct.sortedTerms_eq_of_perm (distinct : left.Distinct)
    (hperm : left.terms.Perm right.terms) : left.sortedTerms = right.sortedTerms := by
  have hsorted : left.sortedTerms.Perm right.sortedTerms :=
    (sortedTerms_perm left).trans (hperm.trans (sortedTerms_perm right).symm)
  apply List.Perm.eq_of_pairwise _ distinct.pairwise_sortedTerms
    (distinct.of_perm hperm).pairwise_sortedTerms hsorted
  intro first second _ _ hlt hgt
  exact absurd hlt (Nat.lt_asymm hgt)

theorem Distinct.get?_sortedTerms (distinct : entry.Distinct) (index : Nat) :
    (⟨entry.sortedTerms⟩ : Entry α).get? index = entry.get? index :=
  (distinct.get?_eq_of_perm (sortedTerms_perm entry).symm index).symm

/-- Of terms by increasing indices, the first one has the least index. -/
theorem head_le_of_mem_indices {first : Nat × α} {rest : List (Nat × α)}
    (hsorted : (first :: rest).Pairwise fun first second => first.1 < second.1)
    (hmem : index ∈ (⟨first :: rest⟩ : Entry α).indices) : first.1 ≤ index := by
  obtain ⟨term, hterm, rfl⟩ := List.mem_map.mp hmem
  rcases List.mem_cons.mp hterm with rfl | hterm
  · exact Nat.le_refl _
  · exact Nat.le_of_lt (List.rel_of_pairwise_cons hsorted hterm)

theorem get?_rest_of_head {first : Nat × α} {rest : List (Nat × α)}
    (hsorted : (first :: rest).Pairwise fun first second => first.1 < second.1) :
    (⟨rest⟩ : Entry α).get? first.1 = none := by
  rw [get?_eq_none_iff]
  intro hmem
  obtain ⟨term, hterm, hindex⟩ := List.mem_map.mp hmem
  exact absurd hindex (Nat.ne_of_gt (List.rel_of_pairwise_cons hsorted hterm))

/-! ## Values at the same indices -/

section Values

variable [BEq α]

theorem term_beq_iff {first second : Nat × α} :
    (first == second) = true ↔ first.1 = second.1 ∧ (first.2 == second.2) = true := by
  show (first.1 == second.1 && first.2 == second.2) = true ↔ _
  rw [Bool.and_eq_true, beq_iff_eq]

/-- Both entries store nothing at an index, or both store values that are equal. -/
def SameAt (left right : Entry α) (index : Nat) : Prop :=
  Option.Rel (fun value other => (value == other) = true) (left.get? index) (right.get? index)

/-- An index that leads to a value on one side is stored on the other side, too. -/
theorem SameAt.mem_indices_iff (same : left.SameAt right index) :
    index ∈ left.indices ↔ index ∈ right.indices := by
  rw [SameAt] at same
  rw [← get?_isSome_iff, ← get?_isSome_iff]
  cases hleft : left.get? index <;> cases hright : right.get? index <;>
    simp [hleft, hright] at same ⊢

/-- First terms of the same index count at that index, and the others count elsewhere. -/
theorem sameAt_cons_iff {first second : Nat × α} {terms others : List (Nat × α)}
    (hindex : first.1 = second.1) :
    SameAt ⟨first :: terms⟩ ⟨second :: others⟩ index ↔
      if index = first.1 then (first.2 == second.2) = true
      else SameAt ⟨terms⟩ ⟨others⟩ index := by
  rw [SameAt, get?_cons first.1 first.2, get?_cons second.1 second.2, ← hindex]
  split
  · simp
  · rfl

/-- Terms that are equal side by side lead to equal values. -/
theorem sameAt_of_forall₂ {terms others : List (Nat × α)}
    (hequal : List.Forall₂ (fun first second => (first == second) = true) terms others)
    (index : Nat) : SameAt ⟨terms⟩ ⟨others⟩ index := by
  induction hequal with
  | nil => exact .none
  | cons hfirst _ ih =>
      obtain ⟨hindex, hvalue⟩ := term_beq_iff.mp hfirst
      rw [sameAt_cons_iff hindex]
      split
      · exact hvalue
      · exact ih

/-- Terms by increasing indices that lead to equal values are equal side by side. -/
theorem forall₂_of_sameAt {terms others : List (Nat × α)}
    (hterms : terms.Pairwise fun first second => first.1 < second.1)
    (hothers : others.Pairwise fun first second => first.1 < second.1)
    (same : ∀ index, SameAt ⟨terms⟩ ⟨others⟩ index) :
    List.Forall₂ (fun first second => (first == second) = true) terms others := by
  induction terms generalizing others with
  | nil =>
      cases others with
      | nil => exact .nil
      | cons second others =>
          have hmem := (same second.1).mem_indices_iff.mpr List.mem_cons_self
          cases hmem
  | cons first terms ih =>
      cases others with
      | nil =>
          have hmem := (same first.1).mem_indices_iff.mp List.mem_cons_self
          cases hmem
      | cons second others =>
          -- Each side stores the first index of the other one, so neither begins later.
          have hindex : first.1 = second.1 := by
            have hfirst := (same first.1).mem_indices_iff.mp List.mem_cons_self
            have hsecond := (same second.1).mem_indices_iff.mpr List.mem_cons_self
            exact Nat.le_antisymm (head_le_of_mem_indices hterms hsecond)
              (head_le_of_mem_indices hothers hfirst)
          simp only [sameAt_cons_iff hindex] at same
          have hvalue : (first.2 == second.2) = true := by
            simpa using same first.1
          have hrest : ∀ index, SameAt ⟨terms⟩ ⟨others⟩ index := by
            intro index
            by_cases hother : index = first.1
            · rw [SameAt, hother, get?_rest_of_head hterms, hindex, get?_rest_of_head hothers]
              exact .none
            · simpa [hother] using same index
          exact .cons (term_beq_iff.mpr ⟨hindex, hvalue⟩)
            (ih hterms.of_cons hothers.of_cons hrest)

theorem beq_iff_sortedTerms :
    (left == right) = true ↔ left.size = right.size ∧
      List.Forall₂ (fun first second => (first == second) = true)
        left.sortedTerms right.sortedTerms := by
  show left.isSame right = true ↔ _
  rw [isSame, Bool.and_eq_true, beq_iff_eq, beq_iff_forall₂]

/-- Entries are equal exactly if they have equal values at the same indices. -/
theorem Distinct.beq_iff (hleft : left.Distinct) (hright : right.Distinct) :
    (left == right) = true ↔ left.size = right.size ∧ ∀ index, left.SameAt right index := by
  have hsorted (index : Nat) :
      SameAt ⟨left.sortedTerms⟩ ⟨right.sortedTerms⟩ index ↔ left.SameAt right index := by
    rw [SameAt, SameAt, hleft.get?_sortedTerms, hright.get?_sortedTerms]
  rw [beq_iff_sortedTerms]
  apply and_congr_right
  intro _
  apply Iff.intro
  · intro hequal index
    exact (hsorted index).mp (sameAt_of_forall₂ hequal index)
  · intro same
    exact forall₂_of_sameAt hleft.pairwise_sortedTerms hright.pairwise_sortedTerms
      fun index => (hsorted index).mpr (same index)

/-- Distinct entries with values at the same indices are of the same size. -/
theorem Distinct.size_eq_of_sameAt (hleft : left.Distinct) (hright : right.Distinct)
    (same : ∀ index, left.SameAt right index) : left.size = right.size := by
  have hindices : left.indices.Perm right.indices :=
    (List.perm_ext_iff_of_nodup hleft hright).mpr fun index => (same index).mem_indices_iff
  simpa [size, indices] using hindices.length_eq

theorem Distinct.beq_iff_sameAt (hleft : left.Distinct) (hright : right.Distinct) :
    (left == right) = true ↔ ∀ index, left.SameAt right index := by
  rw [hleft.beq_iff hright, and_iff_right_of_imp (hleft.size_eq_of_sameAt hright)]

theorem beq_comm (hcomm : ∀ value other : α, (value == other) = (other == value))
    (left right : Entry α) : (left == right) = (right == left) := by
  have hterms : ∀ first second : Nat × α, (first == second) = (second == first) := by
    intro first second
    show (first.1 == second.1 && first.2 == second.2) = (second.1 == first.1 && second.2 == first.2)
    rw [hcomm, BEq.comm (a := first.1)]
  show left.isSame right = right.isSame left
  rw [isSame, isSame, list_beq_comm hterms, BEq.comm (a := left.size)]

/-- Rearranged entries compare as the original ones do. -/
theorem Distinct.beq_congr (hleft : left.Distinct) (hright : right.Distinct)
    {left' right' : Entry α} (hleftPerm : left.terms.Perm left'.terms)
    (hrightPerm : right.terms.Perm right'.terms) : (left' == right') = (left == right) := by
  show left'.isSame right' = left.isSame right
  rw [isSame, isSame, size, size, size, size, hleftPerm.length_eq, hrightPerm.length_eq,
    hleft.sortedTerms_eq_of_perm hleftPerm, hright.sortedTerms_eq_of_perm hrightPerm]

/-- An entry is equal to itself if each of its values is. -/
theorem beq_self (hself : ∀ value ∈ entry.values, (value == value) = true) :
    (entry == entry) = true := by
  apply beq_iff_sortedTerms.mpr
  refine ⟨rfl, List.forall₂_same.mpr ?_⟩
  intro term hmem
  have hvalue : term.2 ∈ entry.values :=
    List.mem_map_of_mem ((sortedTerms_perm entry).mem_iff.mp hmem)
  exact term_beq_iff.mpr ⟨rfl, hself term.2 hvalue⟩

/-- Equality of distinct entries is an equivalence if equality of values is. -/
theorem equivalence_beq (hequal : Equivalence fun value other : α => (value == other) = true) :
    Equivalence fun left right : {entry : Entry α // entry.Distinct} =>
      (left.1 == right.1) = true where
  refl entry := beq_self fun value _ => hequal.refl value
  symm {left right} hbeq := by
    obtain ⟨hsize, same⟩ := (left.2.beq_iff right.2).mp hbeq
    apply (right.2.beq_iff left.2).mpr
    exact ⟨hsize.symm, fun index => (equivalence_rel hequal).symm (same index)⟩
  trans {left middle right} hfirst hsecond := by
    obtain ⟨hleft, sameLeft⟩ := (left.2.beq_iff middle.2).mp hfirst
    obtain ⟨hright, sameRight⟩ := (middle.2.beq_iff right.2).mp hsecond
    apply (left.2.beq_iff right.2).mpr
    exact ⟨hleft.trans hright,
      fun index => (equivalence_rel hequal).trans (sameLeft index) (sameRight index)⟩

/-- Distinct entries are equal exactly if they store equally many values and, at every index,
none on either side or equal ones. So the order of the terms plays no part, and entries differ
where an index is stored on one side only or with other values. If equality of values is an
equivalence, then equality of entries is one. -/
theorem beq_iff_same_values (α : Type) [BEq α] :
    (∀ left right : Entry α, left.Distinct → right.Distinct →
      ((left == right) = true ↔
        left.size = right.size ∧ ∀ index, left.SameAt right index) ∧
      (∀ left' right' : Entry α, left.terms.Perm left'.terms → right.terms.Perm right'.terms →
        (left' == right') = (left == right)) ∧
      ∀ index, ¬ left.SameAt right index → (left == right) = false) ∧
    ((Equivalence fun value other : α => (value == other) = true) →
      Equivalence fun left right : {entry : Entry α // entry.Distinct} =>
        (left.1 == right.1) = true) := by
  apply And.intro _ equivalence_beq
  intro left right hleft hright
  have hequal := hleft.beq_iff hright
  refine ⟨hequal, fun _ _ => hleft.beq_congr hright, ?_⟩
  intro index hdiffers
  rw [← Bool.not_eq_true, hequal]
  intro hsame
  exact hdiffers (hsame.2 index)

end Values

/-- Terms in another order are the same entry. Values paired with the indices the other way
round are not, and neither is a zero stored at an index that the other side leaves out. -/
theorem beq_iff_same_values_rearranged :
    let entry : Entry Int := ⟨[(4, 1), (0, 0), (2, 5)]⟩
    let rearranged : Entry Int := ⟨[(0, 0), (2, 5), (4, 1)]⟩
    let swapped : Entry Int := ⟨[(4, 0), (0, 1), (2, 5)]⟩
    let shifted : Entry Int := ⟨[(4, 1), (3, 0), (2, 5)]⟩
    entry.Distinct ∧ swapped.Distinct ∧ shifted.Distinct ∧
      entry.terms.Perm rearranged.terms ∧ (entry == rearranged) = true ∧
      ¬ entry.SameAt swapped 4 ∧ (entry == swapped) = false ∧
      ¬ entry.SameAt shifted 3 ∧ (entry == shifted) = false := by
  intro entry rearranged swapped shifted
  have hentry : entry.Distinct := show entry.indices.Nodup by decide
  have hswapped : swapped.Distinct := show swapped.indices.Nodup by decide
  have hshifted : shifted.Distinct := show shifted.indices.Nodup by decide
  have hperm : entry.terms.Perm rearranged.terms := by decide
  have hequal : Equivalence fun value other : Int => (value == other) = true := by
    simpa using eq_equivalence
  obtain ⟨hcompare, hequivalence⟩ := beq_iff_same_values Int
  have hrearranged : (entry == rearranged) = true := by
    rw [(hcompare entry entry hentry hentry).2.1 entry rearranged (.refl _) hperm]
    exact (hequivalence hequal).refl ⟨entry, hentry⟩
  have hpairs : ¬ entry.SameAt swapped 4 := by
    show ¬ Option.Rel _ (some (1 : Int)) (some 0)
    simp
  have hzero : ¬ entry.SameAt shifted 3 := by
    show ¬ Option.Rel _ none (some (0 : Int))
    simp
  exact ⟨hentry, hswapped, hshifted, hperm, hrearranged,
    hpairs, (hcompare entry swapped hentry hswapped).2.2 4 hpairs,
    hzero, (hcompare entry shifted hentry hshifted).2.2 3 hzero⟩

end Entry

end LinProg
