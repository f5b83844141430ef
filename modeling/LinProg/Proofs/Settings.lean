/-
# Bundles of settings

Whether a setting is supported is asked in one place, refused in another, and sorted out from
the other faults in a third. Where the three agree, applying a bundle is nothing but setting
what is supported, one parameter after the other, and the parameters that are left out are
reported. A session has one fault left that ends a bundle, a sense that is no direction.
-/
import LinProg.Proofs.Session.Operations

namespace LinProg

theorem Reply.map_map {σ α β γ : Type} (first : α → β) (second : β → γ) (reply : Reply σ α) :
    (reply.map first).map second = reply.map (second ∘ first) := by
  obtain ⟨result, next, log⟩ := reply
  cases result <;> rfl

theorem ParameterTable.lookup_of_not_supports {table : ParameterTable} {parameter : Parameter}
    {kind : ValueKind} (htold : table.supports parameter kind = false) :
    table.lookup parameter kind = .error (.unsupportedParameter parameter kind) := by
  cases hlookup : table.lookup parameter kind with
  | ok key => simp [supports, hlookup, Except.isOk, Except.toBool] at htold
  | error error =>
      simp only [lookup] at hlookup
      split at hlookup
      · split at hlookup
        · cases hlookup
        · exact hlookup ▸ rfl
      · exact hlookup ▸ rfl

/-- One request for each setting. -/
def Request.setEach (settings : List (Parameter × ParameterValue)) : List Request :=
  settings.map fun setting => .set setting.1 setting.2

namespace Contract

variable {σ : Type} (contract : Contract σ)

/-- The settings that a solver says it supports. -/
def supported (solver : σ) (settings : List (Parameter × ParameterValue)) :
    List (Parameter × ParameterValue) :=
  settings.filter fun setting => contract.supports solver setting.1 setting.2.kind

/-- The parameters for which a solver says that it does not support the setting. -/
def unsupported (solver : σ) (settings : List (Parameter × ParameterValue)) : List Parameter :=
  (settings.filter fun setting => !contract.supports solver setting.1 setting.2.kind).map Prod.fst

/-- Set parameters in order. Every fault ends this. -/
def setAll (solver : σ) : List (Parameter × ParameterValue) → Reply σ Unit
  | [] => .succeed solver ()
  | (parameter, value) :: rest =>
      (contract.set solver parameter value).andThen fun _ next => setAll next rest

/-- What a solver says about support is what it does. A setting that is not supported is
refused for this and nothing happens, no other setting is refused for this, and no setting
changes what is supported. -/
structure TellsSupport : Prop where
  set_unsupported : ∀ solver parameter value,
    contract.supports solver parameter value.kind = false →
      contract.set solver parameter value =
        .refuse solver (.unsupportedParameter parameter value.kind)
  set_supported : ∀ solver parameter value,
    contract.supports solver parameter value.kind = true → ∀ other kind,
      (contract.set solver parameter value).result ≠
        .error (.solver (.unsupportedParameter other kind))
  supports_next : ∀ solver parameter value,
    contract.supports (contract.set solver parameter value).next = contract.supports solver

variable {contract} {solver : σ} {parameter : Parameter} {value : ParameterValue}

theorem applyAll_of_ok (hok : (contract.set solver parameter value).result = .ok ())
    (rest : List (Parameter × ParameterValue)) :
    contract.applyAll solver ((parameter, value) :: rest) =
      (contract.applyAll (contract.set solver parameter value).next rest).logging
        (contract.set solver parameter value).log := by
  simp only [applyAll, hok]

theorem applyAll_of_refused {kind : ValueKind}
    (hrefused : contract.set solver parameter value =
      .refuse solver (.unsupportedParameter parameter kind))
    (rest : List (Parameter × ParameterValue)) :
    contract.applyAll solver ((parameter, value) :: rest) =
      (contract.applyAll solver rest).map (parameter :: ·) := by
  simp only [applyAll, hrefused]
  rfl

theorem applyAll_of_error {fault : Fault}
    (herror : (contract.set solver parameter value).result = .error fault)
    (hother : ∀ other kind, fault ≠ .solver (.unsupportedParameter other kind))
    (rest : List (Parameter × ParameterValue)) :
    contract.applyAll solver ((parameter, value) :: rest) =
      ⟨.error fault, (contract.set solver parameter value).next,
        (contract.set solver parameter value).log⟩ := by
  simp only [applyAll, herror]

/-- A bundle sets what is supported, and reports what is not. -/
theorem TellsSupport.applyAll_eq (tells : contract.TellsSupport) (solver : σ)
    (settings : List (Parameter × ParameterValue)) :
    contract.applyAll solver settings =
      (contract.setAll solver (contract.supported solver settings)).map fun _ =>
        contract.unsupported solver settings := by
  induction settings generalizing solver with
  | nil => rfl
  | cons setting rest ih =>
      obtain ⟨parameter, value⟩ := setting
      cases htold : contract.supports solver parameter value.kind with
      | false =>
          have hsupported : contract.supported solver ((parameter, value) :: rest) =
              contract.supported solver rest := by simp [supported, htold]
          have hunsupported : contract.unsupported solver ((parameter, value) :: rest) =
              parameter :: contract.unsupported solver rest := by simp [unsupported, htold]
          rw [applyAll_of_refused (tells.set_unsupported solver parameter value htold), ih,
            hsupported, hunsupported, Reply.map_map]
          rfl
      | true =>
          have hnext := tells.supports_next solver parameter value
          have hsupported : contract.supported solver ((parameter, value) :: rest) =
              (parameter, value) ::
                contract.supported (contract.set solver parameter value).next rest := by
            simp [supported, htold, hnext]
          have hunsupported : contract.unsupported solver ((parameter, value) :: rest) =
              contract.unsupported (contract.set solver parameter value).next rest := by
            simp [unsupported, htold, hnext]
          rw [hsupported, hunsupported, setAll]
          cases hresult : (contract.set solver parameter value).result with
          | ok value =>
              rw [applyAll_of_ok hresult, ih, Reply.andThen_of_ok hresult]
              rfl
          | error fault =>
              have hother := tells.set_supported solver parameter value htold
              rw [hresult] at hother
              rw [applyAll_of_error hresult (fun other kind heq => hother other kind (heq ▸ rfl)),
                Reply.andThen_of_error hresult]
              rfl

/-- Settings that are accepted wherever the same is supported are set one after the other, and
then come the rest. -/
theorem TellsSupport.setAll_append_of_ok (tells : contract.TellsSupport)
    {settings : List (Parameter × ParameterValue)} {solver : σ}
    (hok : ∀ state, contract.supports state = contract.supports solver →
      ∀ setting ∈ settings, (contract.set state setting.1 setting.2).result = .ok ())
    (rest : List (Parameter × ParameterValue)) :
    (contract.setAll solver (settings ++ rest)).result =
        (contract.setAll (contract.run solver (Request.setEach settings)) rest).result ∧
      (contract.setAll solver (settings ++ rest)).next =
        (contract.setAll (contract.run solver (Request.setEach settings)) rest).next := by
  induction settings generalizing solver with
  | nil => exact ⟨rfl, rfl⟩
  | cons setting settings ih =>
      have hnext := tells.supports_next solver setting.1 setting.2
      have hfirst := hok solver rfl setting List.mem_cons_self
      rw [List.cons_append, setAll, Reply.andThen_of_ok hfirst]
      exact ih fun state hstate other hmem =>
        hok state (hstate.trans hnext) other (List.mem_cons_of_mem _ hmem)

/-- A bundle whose supported settings are all accepted comes to its end. -/
theorem TellsSupport.applyAll_of_ok (tells : contract.TellsSupport)
    {settings : List (Parameter × ParameterValue)} {solver : σ}
    (hok : ∀ state, contract.supports state = contract.supports solver →
      ∀ setting ∈ contract.supported solver settings,
        (contract.set state setting.1 setting.2).result = .ok ()) :
    (contract.applyAll solver settings).result = .ok (contract.unsupported solver settings) ∧
      (contract.applyAll solver settings).next =
        contract.run solver (Request.setEach (contract.supported solver settings)) := by
  obtain ⟨hresult, hnext⟩ := tells.setAll_append_of_ok hok []
  rw [List.append_nil] at hresult hnext
  rw [tells.applyAll_eq, Reply.result_map, Reply.next_map, hresult, hnext]
  exact ⟨rfl, rfl⟩

end Contract

namespace Session

variable {engine : Engine} {session : Session} {parameter : Parameter} {value : ParameterValue}

/-- A value that has a meaning for a parameter. Only senses may lack one. -/
def Meaningful (parameter : Parameter) (value : ParameterValue) : Prop :=
  parameter = .objectiveSense → ∀ number, value = .integer number → number = 1 ∨ number = -1

theorem not_meaningful_iff :
    ¬ Meaningful parameter value ↔ parameter = .objectiveSense ∧
      ∃ number, value = .integer number ∧ ¬ (number = 1 ∨ number = -1) := by
  simp only [Meaningful, Classical.not_imp, Classical.not_forall]

theorem supports_iff {kind : ValueKind} :
    Backend.inProcess.parameterTable.supports parameter kind = true ↔
      kind = .integer ∧ (parameter = .objectiveSense ∨ parameter = .verbosity) := by
  cases kind <;> cases parameter <;> decide

theorem set_of_meaningful
    (htold : (contract engine).supports session parameter value.kind = true)
    (hvalue : Meaningful parameter value) :
    ((contract engine).set session parameter value).result = .ok () := by
  obtain ⟨hkind, hparameter⟩ := supports_iff.mp htold
  cases value with
  | real number => cases hkind
  | integer number =>
      cases hparameter with
      | inl hsense =>
          subst hsense
          rcases hvalue rfl number rfl with rfl | rfl
          · rfl
          · rfl
      | inr hverbosity =>
          subst hverbosity
          rfl

/-- A number that is no direction is refused as a value, by every session. -/
theorem set_of_meaningless (session : Session) {number : Int}
    (hnumber : ¬ (number = 1 ∨ number = -1)) :
    (contract engine).set session .objectiveSense (.integer number) =
      .refuse session (.invalidValue .objectiveSense (integerText number)) := by
  obtain ⟨hminimize, hmaximize⟩ := not_or.mp hnumber
  have hsense : senseOf? number = none := by simp [senseOf?, hminimize, hmaximize]
  show session.setInteger .objectiveSense number = _
  simp only [setInteger, hsense]
  rfl

theorem tellsSupport (engine : Engine) : (contract engine).TellsSupport where
  set_unsupported := by
    intro session parameter value htold
    have hlookup := ParameterTable.lookup_of_not_supports htold
    cases value with
    | integer number =>
        show session.setInteger parameter number = _
        simp only [ParameterValue.kind] at hlookup
        simp only [setInteger, hlookup]
        rfl
    | real number =>
        show session.setReal parameter number = _
        simp only [ParameterValue.kind] at hlookup
        simp only [setReal, hlookup]
        rfl
  set_supported := by
    intro session parameter value htold other kind
    by_cases hvalue : Meaningful parameter value
    · rw [set_of_meaningful htold hvalue]
      simp
    · obtain ⟨rfl, number, rfl, hnumber⟩ := not_meaningful_iff.mp hvalue
      simp [set_of_meaningless session hnumber]
  supports_next _ _ _ := rfl

/-- Supported settings with a meaning are accepted by every session. -/
theorem set_of_mem_supported (engine : Engine) (session : Session)
    {settings : List (Parameter × ParameterValue)}
    (hmeaningful : ∀ setting ∈ settings, Meaningful setting.1 setting.2) :
    ∀ state, (contract engine).supports state = (contract engine).supports session →
      ∀ setting ∈ (contract engine).supported session settings,
        ((contract engine).set state setting.1 setting.2).result = .ok () := by
  intro state _ setting hmem
  obtain ⟨hsetting, htold⟩ := List.mem_filter.mp hmem
  exact set_of_meaningful htold (hmeaningful setting hsetting)

/-- The first value without a meaning ends a bundle. -/
theorem applyAll_of_meaningless (engine : Engine) (session : Session)
    {before : List (Parameter × ParameterValue)}
    (hbefore : ∀ setting ∈ before, Meaningful setting.1 setting.2) {number : Int}
    (hnumber : ¬ (number = 1 ∨ number = -1)) (after : List (Parameter × ParameterValue)) :
    ((contract engine).applyAll session
        (before ++ (.objectiveSense, .integer number) :: after)).result =
        .error (.solver (.invalidValue .objectiveSense (integerText number))) ∧
      ((contract engine).applyAll session
        (before ++ (.objectiveSense, .integer number) :: after)).next =
        (contract engine).run session
          (Request.setEach ((contract engine).supported session before)) := by
  have hsupported : (contract engine).supported session
      (before ++ (.objectiveSense, .integer number) :: after) =
        (contract engine).supported session before ++
          (.objectiveSense, .integer number) :: (contract engine).supported session after := by
    rw [Contract.supported, List.filter_append, List.filter_cons_of_pos rfl]
    rfl
  obtain ⟨hresult, hnext⟩ := (tellsSupport engine).setAll_append_of_ok
    (set_of_mem_supported engine session hbefore)
    ((.objectiveSense, .integer number) :: (contract engine).supported session after)
  rw [(tellsSupport engine).applyAll_eq, Reply.result_map, Reply.next_map, hsupported, hresult,
    hnext, Contract.setAll, set_of_meaningless _ hnumber]
  exact ⟨rfl, rfl⟩

/-- A bundle with a meaningless value has a first one. -/
theorem exists_first_meaningless {settings : List (Parameter × ParameterValue)}
    (hsome : ∃ setting ∈ settings, ¬ Meaningful setting.1 setting.2) :
    ∃ before number after,
      settings = before ++ (.objectiveSense, .integer number) :: after ∧
        (∀ setting ∈ before, Meaningful setting.1 setting.2) ∧ ¬ (number = 1 ∨ number = -1) := by
  induction settings with
  | nil => simp at hsome
  | cons first rest ih =>
      by_cases hfirst : Meaningful first.1 first.2
      · have hrest : ∃ setting ∈ rest, ¬ Meaningful setting.1 setting.2 := by
          simpa [hfirst] using hsome
        obtain ⟨before, number, after, rfl, hbefore, hnumber⟩ := ih hrest
        refine ⟨first :: before, number, after, rfl, ?_, hnumber⟩
        exact List.forall_mem_cons.mpr ⟨hfirst, hbefore⟩
      · obtain ⟨hparameter, number, hvalue, hnumber⟩ := not_meaningful_iff.mp hfirst
        refine ⟨[], number, rest, ?_, by simp, hnumber⟩
        rw [List.nil_append, ← hparameter, ← hvalue]

/-- A bundle in which every setting has a meaning sets what is supported and reports the other
parameters, in order. In any other bundle, the first value without a meaning is refused after
the supported settings before it. A setting that is not supported does nothing at all. -/
theorem apply_exact (engine : Engine) (session : Session) (settings : Settings) :
    let operations := contract engine
    let reply := operations.apply session settings
    ((∀ setting ∈ settings.entries, Meaningful setting.1 setting.2) →
      reply.result = .ok (operations.unsupported session settings.entries) ∧
        reply.next = operations.run session
          (Request.setEach (operations.supported session settings.entries))) ∧
      ((∃ setting ∈ settings.entries, ¬ Meaningful setting.1 setting.2) →
        ∃ before number after,
          settings.entries = before ++ (.objectiveSense, .integer number) :: after ∧
            (∀ setting ∈ before, Meaningful setting.1 setting.2) ∧
            ¬ (number = 1 ∨ number = -1) ∧
            reply.result =
              .error (.solver (.invalidValue .objectiveSense (integerText number))) ∧
            reply.next = operations.run session
              (Request.setEach (operations.supported session before))) ∧
      ∀ session parameter value, operations.supports session parameter value.kind = false →
        operations.set session parameter value =
          .refuse session (.unsupportedParameter parameter value.kind) := by
  intro operations reply
  refine ⟨?_, ?_, (tellsSupport engine).set_unsupported⟩
  · intro hmeaningful
    exact (tellsSupport engine).applyAll_of_ok (set_of_mem_supported engine session hmeaningful)
  · intro hsome
    obtain ⟨before, number, after, hsplit, hbefore, hnumber⟩ := exists_first_meaningless hsome
    refine ⟨before, number, after, hsplit, hbefore, hnumber, ?_⟩
    have hended := applyAll_of_meaningless engine session hbefore hnumber after
    rw [← hsplit] at hended
    exact hended

/-- A sense of zero is refused after the verbosity was set. What comes behind it is not looked
at, so nothing is reported about the number of threads. -/
theorem apply_exact_direction_zero :
    let engine : Engine := fun _ => .unbounded
    let session := start (.empty .minimize)
    let settings : Settings := ⟨[(.verbosity, .integer 0), (.timeLimit, .real 0),
      (.objectiveSense, .integer 0), (.threadCount, .integer 1)]⟩
    let reply := (contract engine).apply session settings
    (∃ setting ∈ settings.entries, ¬ Meaningful setting.1 setting.2) ∧
      reply.result = .error (.solver (.invalidValue .objectiveSense (integerText 0))) ∧
      reply.next = session.withVerbosity 0 := by
  intro engine session settings reply
  have hsome : ∃ setting ∈ settings.entries, ¬ Meaningful setting.1 setting.2 :=
    ⟨(.objectiveSense, .integer 0), by simp [settings], by simp [Meaningful]⟩
  obtain ⟨before, number, after, hsplit, -, -, hresult, hnext⟩ :=
    (apply_exact engine session settings).2.1 hsome
  rcases before with _ | ⟨first, _ | ⟨second, _ | ⟨third, _ | ⟨fourth, before⟩⟩⟩⟩ <;>
    simp [settings] at hsplit
  obtain ⟨rfl, rfl, rfl, rfl⟩ := hsplit
  exact ⟨hsome, hresult, hnext⟩

end Session

end LinProg
