/-
# A batch of rows against single rows

Rows can be handed to a session in bulk, as flat lists that are checked together and then
cut at offsets, or one by one, each made by its own constructor and added by an edit of the
held program. Both ways accept the same segments and leave the same session behind, and
when a segment is refused the batch reports what the constructor reports for the first
segment that it refuses.
-/
import LinProg.Proofs.Program.Batches
import LinProg.Proofs.Session.Operations

namespace LinProg.Session

variable {engine : Engine} {session : Session} {segments : List (List Binary64 × List Nat)}
  {lower upper : List Binary64}

/-- Rows that the constructor makes of all segments are added as by an edit. -/
theorem ingest_rows_of_ok
    (hpaired : ∀ segment ∈ segments, segment.1.length = segment.2.length)
    (hlower : lower.length = segments.length) (hupper : upper.length = segments.length)
    {rows : List (Entry Binary64)}
    (hrows : segments.mapM (fun segment => Entry.ofLists? segment.1 segment.2) = .ok rows) :
    (session.perform engine (.ingest (.rows (.ofSegments segments lower upper)))).result =
        .ok .done ∧
      (session.perform engine (.ingest (.rows (.ofSegments segments lower upper)))).next =
        session.change (session.program.addConstraints (Constraint.ofRows rows lower upper)) := by
  apply perform_ingest_of_ok
  show session.program.ingestRows _ = _
  rw [Program.ingestRows_ofSegments _ hpaired hlower hupper, hrows]
  rfl

/-- A segment that the constructor refuses has the batch refused with the same error. -/
theorem ingest_rows_of_error
    (hpaired : ∀ segment ∈ segments, segment.1.length = segment.2.length)
    (hlower : lower.length = segments.length) (hupper : upper.length = segments.length)
    {error : InputError}
    (herror : segments.mapM (fun segment => Entry.ofLists? segment.1 segment.2) = .error error) :
    (session.ingest (.rows (.ofSegments segments lower upper))).result =
      .error (.solver (.invalidInput error)) := by
  have hrefused : session.program.ingest (.rows (.ofSegments segments lower upper)) =
      .error (.invalidInput error) := by
    show session.program.ingestRows _ = _
    rw [Program.ingestRows_ofSegments _ hpaired hlower hupper, herror]
    rfl
  exact (ingest_of_error session hrefused).1

/-- Segments of values and indices in equal number, with bounds for each, are taken in as
rows if and only if the constructor makes a row of every segment. If not, the error names
the index that is repeated in the first segment without a row. If so, the session is the
one that adding the constraints with these rows and bounds leaves behind. -/
theorem ingest_rows_same_as_addConstraints (engine : Engine) (session : Session)
    (segments : List (List Binary64 × List Nat)) (lower upper : List Binary64)
    (hpaired : ∀ segment ∈ segments, segment.1.length = segment.2.length)
    (hlower : lower.length = segments.length) (hupper : upper.length = segments.length) :
    let reply := session.perform engine (.ingest (.rows (.ofSegments segments lower upper)))
    (reply.result = .ok .done ↔
        ∀ segment ∈ segments, ∃ row, Entry.ofLists? segment.1 segment.2 = .ok row) ∧
      (∀ fault, reply.result = .error fault →
        ∃ accepted refused rest index, segments = accepted ++ refused :: rest ∧
          (∀ segment ∈ accepted, ∃ row, Entry.ofLists? segment.1 segment.2 = .ok row) ∧
          Entry.ofLists? refused.1 refused.2 = .error (.repeatedIndex index) ∧
          fault = .solver (.invalidInput (.repeatedIndex index))) ∧
      (reply.result = .ok .done →
        ∃ rows, List.Forall₂ (fun segment row => Entry.ofLists? segment.1 segment.2 = .ok row)
            segments rows ∧
          let added := session.perform engine
            (.request (.edit (.addConstraints (Constraint.ofRows rows lower upper))))
          added.result = .ok .done ∧ reply.next = added.next) := by
  intro reply
  cases hrows : segments.mapM fun segment => Entry.ofLists? segment.1 segment.2 with
  | error error =>
      have hresult : reply.result = .error (.solver (.invalidInput error)) :=
        congrArg (Except.map _) (ingest_rows_of_error hpaired hlower hupper hrows)
      obtain ⟨accepted, refused, rest, hsplit, haccepted, hrefused⟩ :=
        exists_refused_of_mapM_eq_error hrows
      have hmem : refused ∈ segments := by simp [hsplit]
      obtain ⟨index, rfl⟩ :=
        Entry.exists_repeatedIndex_of_ofLists?_eq_error (hpaired refused hmem) hrefused
      rw [hresult]
      refine ⟨⟨nofun, fun hall => ?_⟩, fun fault hfault => ?_, nofun⟩
      · obtain ⟨row, hrow⟩ := hall refused hmem
        rw [hrefused] at hrow
        cases hrow
      · cases hfault
        exact ⟨accepted, refused, rest, index, hsplit, haccepted, hrefused, rfl⟩
  | ok rows =>
      obtain ⟨hresult, hnext⟩ : reply.result = .ok .done ∧ reply.next = _ :=
        ingest_rows_of_ok hpaired hlower hupper hrows
      have hmade := mapM_eq_ok_iff.mp hrows
      refine ⟨⟨fun _ segment hmem => ?_, fun _ => hresult⟩, fun fault hfault => ?_,
        fun _ => ⟨rows, hmade, rfl, hnext⟩⟩
      · obtain ⟨row, -, hrow⟩ := exists_of_mem_forall₂ hmade.flip hmem
        exact ⟨row, hrow⟩
      · rw [hresult] at hfault
        cases hfault

/-- An empty row between two rows that share an index is accepted, with bounds of any kind.
Of two rows that each repeat indices, the first one is reported, by the index that comes a
second time first. -/
theorem ingest_rows_same_as_addConstraints_shared_index :
    let session := start (.ofObjective .minimize [] ⟨[⟨0, .integer⟩]⟩)
    let engine : Engine := fun _ => .unbounded
    let lower : List Binary64 := [.posInf, 0, .nan]
    let upper : List Binary64 := [.negInf, .posInf, 0]
    let shared : List (List Binary64 × List Nat) := [([0, .posInf], [7, 0]), ([], []), ([0], [7])]
    let repeated : List (List Binary64 × List Nat) :=
      [([0], [7]), ([.nan, 0, 0, .nan], [1, 2, 2, 1]), ([0, 0], [3, 3])]
    let reply := session.perform engine (.ingest (.rows (.ofSegments shared lower upper)))
    let refused := session.perform engine (.ingest (.rows (.ofSegments repeated lower upper)))
    (∀ segment ∈ shared ++ repeated, segment.1.length = segment.2.length) ∧
      (lower.length = 3 ∧ upper.length = 3 ∧ shared.length = 3 ∧ repeated.length = 3) ∧
      reply.result = .ok .done ∧
      reply.next = (session.perform engine (.request (.edit (.addConstraints
        (Constraint.ofRows [⟨[(7, 0), (0, .posInf)]⟩, ⟨[]⟩, ⟨[(7, 0)]⟩] lower upper))))).next ∧
      refused.result = .error (.solver (.invalidInput (.repeatedIndex 2))) ∧
      ∃ accepted segment rest, repeated = accepted ++ segment :: rest ∧
        Entry.ofLists? segment.1 segment.2 = .error (.repeatedIndex 2) := by
  intro session engine lower upper shared repeated reply refused
  have hpaired : ∀ segment ∈ shared ++ repeated, segment.1.length = segment.2.length := by
    decide +kernel
  have hshared : ∀ segment ∈ shared, segment.1.length = segment.2.length :=
    fun segment hmem => hpaired segment (List.mem_append_left repeated hmem)
  have hrepeated : ∀ segment ∈ repeated, segment.1.length = segment.2.length :=
    fun segment hmem => hpaired segment (List.mem_append_right shared hmem)
  obtain ⟨haccepted, -, hadded⟩ := ingest_rows_same_as_addConstraints engine session shared
    lower upper hshared rfl rfl
  obtain ⟨-, hfirst, -⟩ := ingest_rows_same_as_addConstraints engine session repeated
    lower upper hrepeated rfl rfl
  have hrows : shared.mapM (fun segment => Entry.ofLists? segment.1 segment.2) =
      .ok [⟨[(7, 0), (0, .posInf)]⟩, ⟨[]⟩, ⟨[(7, 0)]⟩] := rfl
  have hreply : reply.result = .ok .done := by
    apply haccepted.mpr
    intro segment hmem
    obtain ⟨row, -, hrow⟩ := exists_of_mem_forall₂ (mapM_eq_ok_iff.mp hrows).flip hmem
    exact ⟨row, hrow⟩
  obtain ⟨rows, hmade, -, hnext⟩ := hadded hreply
  have hsame : rows = _ := Except.ok.inj ((mapM_eq_ok_iff.mpr hmade).symm.trans hrows)
  have hrefused : refused.result = .error (.solver (.invalidInput (.repeatedIndex 2))) := rfl
  obtain ⟨accepted, segment, rest, index, hsplit, -, hsegment, hindex⟩ := hfirst _ hrefused
  cases hindex
  exact ⟨hpaired, ⟨rfl, rfl, rfl, rfl⟩, hreply, hsame ▸ hnext, hrefused, accepted, segment, rest,
    hsplit, hsegment⟩

end LinProg.Session
