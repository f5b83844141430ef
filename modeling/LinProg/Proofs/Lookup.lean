/-
# Looking up keys

A list of pairs is searched for a key from the front. The search ends without a value exactly
if the key is not listed, and where no key is listed twice, it leads to the one value that there
is.
-/
import Mathlib.Data.List.Nodup

namespace LinProg

variable {κ α : Type} [BEq κ] [LawfulBEq κ] {pairs : List (κ × α)} {key : κ} {value : α}

theorem lookup_cons_eq_ite [DecidableEq κ] (stored : κ) (held : α) (rest : List (κ × α)) (key : κ) :
    ((stored, held) :: rest).lookup key = if key = stored then some held else rest.lookup key := by
  rw [List.lookup_cons]
  split
  case h_1 hfound => rw [if_pos (eq_of_beq hfound)]
  case h_2 hother => rw [if_neg (beq_eq_false_iff_ne.mp hother)]

theorem mem_of_lookup_eq_some (hlookup : pairs.lookup key = some value) :
    (key, value) ∈ pairs := by
  obtain ⟨before, after, hpairs, -⟩ := List.lookup_eq_some_iff.mp hlookup
  simp [hpairs]

theorem lookup_eq_none_iff_notMem : pairs.lookup key = none ↔ key ∉ pairs.map Prod.fst := by
  rw [List.lookup_eq_none_iff]
  simp only [bne_iff_ne, List.mem_map, not_exists, not_and]
  exact forall₂_congr fun pair _ => ne_comm

/-- A key that is listed once leads to its only value. -/
theorem lookup_eq_some_iff_mem (hnodup : (pairs.map Prod.fst).Nodup) :
    pairs.lookup key = some value ↔ (key, value) ∈ pairs := by
  apply Iff.intro mem_of_lookup_eq_some
  intro hmem
  have hlisted : pairs.lookup key ≠ none := fun hnone =>
    lookup_eq_none_iff_notMem.mp hnone (List.mem_map_of_mem hmem)
  obtain ⟨found, hfound⟩ := Option.ne_none_iff_exists'.mp hlisted
  have hsame : (key, found) = (key, value) :=
    List.inj_on_of_nodup_map hnodup (mem_of_lookup_eq_some hfound) hmem rfl
  cases hsame
  exact hfound

end LinProg
