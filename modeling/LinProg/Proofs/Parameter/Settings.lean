/-
# Settings as a finite map

A bundle of settings is made by setting one parameter after the other. A parameter that is set
again keeps its place and takes the new value. So a bundle lists every parameter that was ever
set once, in the order in which they were first set, and each leads to the value that it was
last set to, of whatever kind the values before it were.
-/
import LinProg.Parameter.Settings
import LinProg.Proofs.Lookup
import Mathlib.Data.List.Induction

namespace LinProg.Settings

variable {calls : List (Parameter × ParameterValue)} {parameter : Parameter}
  {value : ParameterValue}

/-- The parameters that are set, in order. -/
def parameters (settings : Settings) : List Parameter :=
  settings.entries.map Prod.fst

/-! ## One call -/

theorem get?_set (settings : Settings) (parameter : Parameter) (value : ParameterValue)
    (other : Parameter) :
    (settings.set parameter value).get? other =
      if other = parameter then some value else settings.get? other := by
  obtain ⟨entries⟩ := settings
  show (assign parameter value entries).lookup other =
    if other = parameter then some value else entries.lookup other
  induction entries with
  | nil => rw [assign, lookup_cons_eq_ite, List.lookup_nil]
  | cons entry rest ih =>
      obtain ⟨stored, held⟩ := entry
      rw [assign, lookup_cons_eq_ite]
      split
      · -- The value is replaced where the parameter stands.
        next hstored =>
          subst hstored
          rw [lookup_cons_eq_ite]
          split <;> rfl
      · next hstored =>
          rw [lookup_cons_eq_ite, ih]
          split
          · next hother => rw [if_neg (hother ▸ hstored)]
          · rfl

/-- Only a parameter that was not set before is added, behind the others. -/
theorem parameters_set (settings : Settings) (parameter : Parameter) (value : ParameterValue) :
    (settings.set parameter value).parameters =
      if parameter ∈ settings.parameters then settings.parameters
      else settings.parameters ++ [parameter] := by
  obtain ⟨entries⟩ := settings
  show (assign parameter value entries).map Prod.fst =
    if parameter ∈ entries.map Prod.fst then entries.map Prod.fst
    else entries.map Prod.fst ++ [parameter]
  induction entries with
  | nil => rfl
  | cons entry rest ih =>
      by_cases hstored : entry.1 = parameter
      · simp [assign, hstored]
      · have hother : parameter ≠ entry.1 := Ne.symm hstored
        simp only [assign, if_neg hstored, List.map_cons, ih, List.mem_cons, hother, false_or]
        split <;> rfl

/-! ## All calls -/

theorem ofList_concat (calls : List (Parameter × ParameterValue))
    (call : Parameter × ParameterValue) :
    ofList (calls ++ [call]) = (ofList calls).set call.1 call.2 := by
  rw [ofList, List.foldl_concat]
  rfl

/-- What a parameter leads to is found from the end of the calls. -/
theorem get?_ofList (calls : List (Parameter × ParameterValue)) (parameter : Parameter) :
    (ofList calls).get? parameter = calls.reverse.lookup parameter := by
  induction calls using List.reverseRecOn with
  | nil => rfl
  | append_singleton calls call ih =>
      rw [ofList_concat, get?_set, ih, List.reverse_concat, lookup_cons_eq_ite]

theorem mem_parameters_ofList :
    parameter ∈ (ofList calls).parameters ↔ parameter ∈ calls.map Prod.fst := by
  induction calls using List.reverseRecOn with
  | nil => rfl
  | append_singleton calls call ih =>
      rw [ofList_concat, parameters_set, List.map_append, List.mem_append, ← ih]
      split
      · next hset =>
          refine Iff.intro .inl ?_
          rintro (hmem | hmem)
          · exact hmem
          · exact List.mem_singleton.mp hmem ▸ hset
      · exact List.mem_append

/-- Parameters stand in the order of their first calls. -/
theorem pairwise_parameters_ofList (calls : List (Parameter × ParameterValue)) :
    (ofList calls).parameters.Pairwise fun first second =>
      (calls.map Prod.fst).idxOf first < (calls.map Prod.fst).idxOf second := by
  induction calls using List.reverseRecOn with
  | nil => exact .nil
  | append_singleton calls call ih =>
      -- A further call moves no first call.
      have hkept : ∀ parameter ∈ (ofList calls).parameters,
          ((calls ++ [call]).map Prod.fst).idxOf parameter =
            (calls.map Prod.fst).idxOf parameter := by
        intro parameter hmem
        rw [List.map_append, List.idxOf_append_of_mem (mem_parameters_ofList.mp hmem)]
      have hordered : (ofList calls).parameters.Pairwise fun first second =>
          ((calls ++ [call]).map Prod.fst).idxOf first <
            ((calls ++ [call]).map Prod.fst).idxOf second := by
        apply ih.imp_of_mem
        intro first second hfirst hsecond hlt
        rwa [hkept first hfirst, hkept second hsecond]
      rw [ofList_concat, parameters_set]
      split
      · exact hordered
      · next hnew =>
          apply List.pairwise_append.mpr
          refine ⟨hordered, List.pairwise_singleton _ _, ?_⟩
          intro first hfirst second hsecond
          obtain rfl := List.mem_singleton.mp hsecond
          rw [hkept first hfirst, List.map_append,
            List.idxOf_append_of_notMem (mt mem_parameters_ofList.mpr hnew)]
          exact Nat.lt_add_right _
            (List.idxOf_lt_length_iff.mpr (mem_parameters_ofList.mp hfirst))

theorem nodup_parameters_ofList (calls : List (Parameter × ParameterValue)) :
    (ofList calls).parameters.Nodup := by
  apply (pairwise_parameters_ofList calls).imp
  intro first second hlt heq
  exact Nat.lt_irrefl _ (heq ▸ hlt)

/-- The last of the calls for a parameter sets it to a value. -/
def LastSets (calls : List (Parameter × ParameterValue)) (parameter : Parameter)
    (value : ParameterValue) : Prop :=
  ∃ before after, calls = before ++ (parameter, value) :: after ∧
    parameter ∉ after.map Prod.fst

theorem lookup_reverse_eq_some_iff :
    calls.reverse.lookup parameter = some value ↔ LastSets calls parameter value := by
  rw [List.lookup_eq_some_iff]
  apply Iff.intro
  · rintro ⟨after, before, hsplit, hafter⟩
    refine ⟨before.reverse, after.reverse, ?_, ?_⟩
    · rw [← List.reverse_eq_iff.mpr hsplit.symm]
      simp
    · intro hmem
      obtain ⟨call, hcall, rfl⟩ := List.mem_map.mp hmem
      simpa using hafter call (List.mem_reverse.mp hcall)
  · rintro ⟨before, after, rfl, hafter⟩
    refine ⟨after.reverse, before.reverse, by simp, ?_⟩
    intro call hcall
    apply bne_iff_ne.mpr
    rintro rfl
    exact hafter (List.mem_map_of_mem (List.mem_reverse.mp hcall))

theorem get?_ofList_eq_some_iff :
    (ofList calls).get? parameter = some value ↔ LastSets calls parameter value := by
  rw [get?_ofList, lookup_reverse_eq_some_iff]

/-- A bundle is a finite map of the calls that made it. A parameter leads to the value of the
last call for it, and to none without a call. The entries are the parameters that were set, once
each, in the order of their first calls, with the values of their last ones. -/
theorem ofList_last_values_in_first_order (calls : List (Parameter × ParameterValue)) :
    let settings := ofList calls
    let called := calls.map Prod.fst
    (∀ parameter value,
        settings.get? parameter = some value ↔ LastSets calls parameter value) ∧
      (∀ parameter, settings.get? parameter = none ↔ parameter ∉ called) ∧
      (∀ parameter, parameter ∈ settings.parameters ↔ parameter ∈ called) ∧
      settings.parameters.Nodup ∧
      (settings.parameters.Pairwise fun first second =>
        called.idxOf first < called.idxOf second) ∧
      ∀ parameter value,
        (parameter, value) ∈ settings.entries ↔ LastSets calls parameter value := by
  intro settings called
  refine ⟨fun _ _ => get?_ofList_eq_some_iff, ?_, fun _ => mem_parameters_ofList,
    nodup_parameters_ofList calls, pairwise_parameters_ofList calls, ?_⟩
  · intro parameter
    exact lookup_eq_none_iff_notMem.trans (not_congr mem_parameters_ofList)
  · intro parameter value
    rw [← get?_ofList_eq_some_iff]
    exact (lookup_eq_some_iff_mem (nodup_parameters_ofList calls)).symm

/-- The verbosity is listed where it was first set, with the value of the last call. -/
example :
    (ofList [(.verbosity, .integer 1), (.timeLimit, .real 0), (.verbosity, .integer 0),
      (.timeLimit, .integer 2)]).entries =
      [(.verbosity, .integer 0), (.timeLimit, .integer 2)] := by
  decide

end LinProg.Settings
