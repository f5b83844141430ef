/-
# Batches that come in chunks

A session that takes a batch takes its chunks too, and two batches that it takes one after
the other it takes as one. Batches of rows and of objective terms do not get into each
other's way: rows are not checked against the program, and objective terms only against the
variables. So two of them that follow each other can change places, and all rows can come
first.
-/
import LinProg.Proofs.Program.Chunks
import LinProg.Proofs.Session.Operations

namespace LinProg

namespace Ingestion

/-- Whether a batch brings rows. -/
def isRows : Ingestion → Bool
  | .rows _ => true
  | .columns _ | .objective .. => false

/-- Whether a batch brings objective terms. -/
def isObjective : Ingestion → Bool
  | .objective .. => true
  | .rows _ | .columns _ => false

/-- Batches of rows and objective terms, with the rows in the same order in both lists and the
objective terms too. -/
structure SameOrder (left right : List Ingestion) : Prop where
  kinds : ∀ ingestion ∈ left ++ right, ingestion.isRows || ingestion.isObjective
  rows : left.filter isRows = right.filter isRows
  objective : left.filter isObjective = right.filter isObjective

namespace SameOrder

variable {left right : List Ingestion}

theorem symm (same : SameOrder left right) : SameOrder right left where
  kinds ingestion hmem := same.kinds ingestion (List.mem_append.mpr (List.mem_append.mp hmem).symm)
  rows := same.rows.symm
  objective := same.objective.symm

theorem eq_nil (same : SameOrder [] right) : right = [] := by
  apply List.eq_nil_iff_forall_not_mem.mpr
  intro ingestion hmem
  have hkind := same.kinds ingestion hmem
  have hrows := List.filter_eq_nil_iff.mp same.rows.symm ingestion hmem
  have hobjective := List.filter_eq_nil_iff.mp same.objective.symm ingestion hmem
  simp [hrows, hobjective] at hkind

end SameOrder

end Ingestion

namespace Program

variable {program next : Program}

/-- Rows and objective terms that follow each other can change places. -/
theorem ingestRows_ingestObjective_iff {batch : RawBatch} {coefficients : List Binary64}
    {types : List VariableType} :
    (∃ middle, program.ingestRows batch = .ok middle ∧
        middle.ingestObjective coefficients types = .ok next) ↔
      ∃ middle, program.ingestObjective coefficients types = .ok middle ∧
        middle.ingestRows batch = .ok next := by
  simp only [ingestRows_eq_ok_iff, ingestObjective_iff]
  apply Iff.intro
  · rintro ⟨_, ⟨compressed, hcompressed, rfl⟩, hlength, hsupported, hsize, rfl⟩
    exact ⟨_, ⟨hlength, hsupported, hsize, rfl⟩, compressed, hcompressed, rfl⟩
  · rintro ⟨_, ⟨hlength, hsupported, hsize, rfl⟩, compressed, hcompressed, rfl⟩
    exact ⟨_, ⟨compressed, hcompressed, rfl⟩, hlength, hsupported, hsize, rfl⟩

theorem foldlM_ingest_cons_iff {first : Ingestion} {rest : List Ingestion} :
    (first :: rest).foldlM ingest program = .ok next ↔
      ∃ middle, program.ingest first = .ok middle ∧ rest.foldlM ingest middle = .ok next := by
  rw [List.foldlM_cons, bind_eq_ok_iff]

/-- Objective terms can wait until some rows are taken. -/
theorem foldlM_ingest_objective_cons_iff {coefficients : List Binary64} {types : List VariableType}
    {rows rest : List Ingestion} (hrows : ∀ ingestion ∈ rows, ingestion.isRows) :
    (.objective coefficients types :: (rows ++ rest)).foldlM ingest program = .ok next ↔
      (rows ++ .objective coefficients types :: rest).foldlM ingest program = .ok next := by
  -- The terms are moved past one batch of rows at a time.
  induction rows generalizing program with
  | nil => rfl
  | cons first rows ih =>
      have hrest : ∀ ingestion ∈ rows, ingestion.isRows :=
        fun ingestion hmem => hrows ingestion (List.mem_cons_of_mem first hmem)
      cases first with
      | columns batch => exact absurd (hrows _ List.mem_cons_self) nofun
      | objective coefficients' types' => exact absurd (hrows _ List.mem_cons_self) nofun
      | rows batch =>
          have hswap : ∀ {last : Program},
              (∃ middle, program.ingest (.rows batch) = .ok middle ∧
                  middle.ingest (.objective coefficients types) = .ok last) ↔
                ∃ middle, program.ingest (.objective coefficients types) = .ok middle ∧
                  middle.ingest (.rows batch) = .ok last := ingestRows_ingestObjective_iff
          simp only [List.cons_append, foldlM_ingest_cons_iff, ← ih hrest]
          apply Iff.intro
          · rintro ⟨middle, hobjective, last, hbatch, hlast⟩
            obtain ⟨middle', hbatch', hobjective'⟩ := hswap.mpr ⟨middle, hobjective, hbatch⟩
            exact ⟨middle', hbatch', last, hobjective', hlast⟩
          · rintro ⟨middle, hbatch, last, hobjective, hlast⟩
            obtain ⟨middle', hobjective', hbatch'⟩ := hswap.mp ⟨middle, hbatch, hobjective⟩
            exact ⟨middle', hobjective', last, hbatch', hlast⟩

/-- All rows can come first. -/
theorem foldlM_ingest_iff_rows_first {calls : List Ingestion}
    (hkinds : ∀ ingestion ∈ calls, ingestion.isRows || ingestion.isObjective) :
    calls.foldlM ingest program = .ok next ↔
      (calls.filter Ingestion.isRows ++ calls.filter Ingestion.isObjective).foldlM ingest program =
        .ok next := by
  induction calls generalizing program with
  | nil => rfl
  | cons first rest ih =>
      have hrest : ∀ ingestion ∈ rest, ingestion.isRows || ingestion.isObjective :=
        fun ingestion hmem => hkinds ingestion (List.mem_cons_of_mem first hmem)
      rw [foldlM_ingest_cons_iff]
      simp only [ih hrest]
      rw [← foldlM_ingest_cons_iff]
      cases first with
      | columns batch => exact absurd (hkinds _ List.mem_cons_self) nofun
      | rows batch => rfl
      | objective coefficients types =>
          exact foldlM_ingest_objective_cons_iff fun ingestion hmem => List.of_mem_filter hmem

theorem foldlM_ingest_of_sameOrder {left right : List Ingestion}
    (same : Ingestion.SameOrder left right) (hok : left.foldlM ingest program = .ok next) :
    right.foldlM ingest program = .ok next := by
  obtain ⟨hleft, hright⟩ := List.forall_mem_append.mp same.kinds
  rw [foldlM_ingest_iff_rows_first hleft, same.rows, same.objective] at hok
  exact (foldlM_ingest_iff_rows_first hright).mpr hok

end Program

namespace Session

/-- All batches are taken, one after the other, and this is the session afterwards. -/
inductive Takes (engine : Engine) : Session → List Ingestion → Session → Prop where
  | nil (session : Session) : Takes engine session [] session
  | cons {session last : Session} {first : Ingestion} {rest : List Ingestion}
      (hresult : (session.perform engine (.ingest first)).result = .ok .done)
      (takes : Takes engine (session.perform engine (.ingest first)).next rest last) :
      Takes engine session (first :: rest) last

variable {engine : Engine} {session last : Session}

theorem takes_nil_iff : Takes engine session [] last ↔ last = session := by
  apply Iff.intro
  · rintro ⟨⟩
    rfl
  · rintro rfl
    exact .nil last

theorem takes_cons_iff {first : Ingestion} {rest : List Ingestion} :
    Takes engine session (first :: rest) last ↔
      ∃ program, session.program.ingest first = .ok program ∧
        Takes engine (session.change program) rest last := by
  apply Iff.intro
  · rintro (_ | ⟨hresult, takes⟩)
    cases hingest : session.program.ingest first with
    | ok program =>
        rw [(perform_ingest_of_ok engine session hingest).2] at takes
        exact ⟨program, rfl, takes⟩
    | error error =>
        cases hresult.symm.trans (perform_ingest_of_error engine session hingest).1
  · rintro ⟨program, hingest, takes⟩
    obtain ⟨hresult, hnext⟩ := perform_ingest_of_ok engine session hingest
    exact .cons hresult (hnext ▸ takes)

/-- What is left of taking batches is the program, and that a change is expected. -/
theorem takes_iff {first : Ingestion} {rest : List Ingestion} :
    Takes engine session (first :: rest) last ↔
      ∃ program, (first :: rest).foldlM Program.ingest session.program = .ok program ∧
        last = session.change program := by
  induction rest generalizing session first with
  | nil => simp only [takes_cons_iff, takes_nil_iff, List.foldlM_cons, List.foldlM_nil, bind_pure]
  | cons second rest ih =>
      rw [takes_cons_iff]
      apply Iff.intro
      · rintro ⟨middle, hfirst, takes⟩
        obtain ⟨program, hrest, hlast⟩ := ih.mp takes
        exact ⟨program, Program.foldlM_ingest_cons_iff.mpr ⟨middle, hfirst, hrest⟩, hlast⟩
      · rintro ⟨program, hall, hlast⟩
        obtain ⟨middle, hfirst, hrest⟩ := Program.foldlM_ingest_cons_iff.mp hall
        exact ⟨middle, hfirst, ih.mpr ⟨program, hrest, hlast⟩⟩

theorem takes_singleton_iff {ingestion : Ingestion} :
    Takes engine session [ingestion] last ↔
      ∃ program, session.program.ingest ingestion = .ok program ∧
        last = session.change program := by
  rw [takes_cons_iff]
  simp only [takes_nil_iff]

theorem takes_pair_iff {first second : Ingestion} :
    Takes engine session [first, second] last ↔
      ∃ middle program, session.program.ingest first = .ok middle ∧
        middle.ingest second = .ok program ∧ last = session.change program := by
  rw [takes_cons_iff]
  apply exists_congr
  intro middle
  rw [takes_singleton_iff, exists_and_left]
  rfl

/-- Batches in the same order, rows and objective terms each for themselves, are all taken or
not, and leave the same session behind. -/
theorem takes_of_sameOrder {left right : List Ingestion} (same : Ingestion.SameOrder left right)
    (takes : Takes engine session left last) : Takes engine session right last := by
  cases left with
  | nil => rwa [same.eq_nil]
  | cons first rest =>
      cases right with
      | nil => cases same.symm.eq_nil
      | cons first' rest' =>
          obtain ⟨program, hall, hlast⟩ := takes_iff.mp takes
          exact takes_iff.mpr ⟨program, Program.foldlM_ingest_of_sameOrder same hall, hlast⟩

/-- In a session with a consistent program, as every run leads to, a batch that is taken is taken
in two chunks, cut between any of its segments or terms, and two batches of the same kind that
are taken one after the other are taken as one. The order in which rows come between objective
terms does not matter. The session afterwards is the same in each case. -/
theorem takes_whole_same_as_chunks (engine : Engine) {session : Session}
    (consistent : session.program.Consistent) (last : Session) :
    (∀ (whole : Ingestion) (count : Nat), count ≤ whole.size →
        Takes engine session [whole] last →
        (whole.front count).followedBy? (whole.back count) = some whole ∧
          Takes engine session [whole.front count, whole.back count] last) ∧
      (∀ first second whole : Ingestion, first.followedBy? second = some whole →
        Takes engine session [first, second] last → Takes engine session [whole] last) ∧
      ∀ left right : List Ingestion, Ingestion.SameOrder left right →
        Takes engine session left last → Takes engine session right last := by
  have hsize : session.program.vars.length ≤ session.program.objective.size :=
    Nat.le_of_eq consistent.symm
  refine ⟨?_, ?_, fun left right => takes_of_sameOrder⟩
  · intro whole count hcount takes
    obtain ⟨program, hwhole, hlast⟩ := takes_singleton_iff.mp takes
    obtain ⟨middle, hfront, hback⟩ := Program.ingest_front_back hsize hcount hwhole
    exact ⟨Program.followedBy?_front_back hcount hwhole,
      takes_pair_iff.mpr ⟨middle, program, hfront, hback, hlast⟩⟩
  · intro first second whole hwhole takes
    obtain ⟨middle, program, hfirst, hsecond, hlast⟩ := takes_pair_iff.mp takes
    have hok := Program.ingest_followedBy hsize hwhole hfirst hsecond
    exact takes_singleton_iff.mpr ⟨program, hok, hlast⟩

/-- Three columns are cut behind an empty one, and two batches of terms are joined. A row that
names variables to come is taken before or after the terms of these variables. -/
theorem takes_whole_same_as_chunks_empty_column :
    let one := Binary64.ofInt 1
    let engine : Engine := fun _ => .unbounded
    let session := start (.ofObjective .minimize [⟨⟨[(0, one)]⟩, 0, .posInf⟩, ⟨⟨[]⟩, 0, 0⟩]
      ⟨[⟨one, .integer⟩]⟩)
    let columns : Ingestion := .columns
      ⟨[one, 0, one], [0, 2, 2, 3], [1, 0, 1], [0, 0, one], [one, .posInf, one]⟩
    let row : Ingestion := .rows ⟨[one], [0, 1], [2], [0], [one]⟩
    let terms (types : List VariableType) : Ingestion := .objective (types.map fun _ => one) types
    (∃ last, Takes engine session [columns] last ∧
        Takes engine session [.columns ⟨[one, 0], [0, 2, 2], [1, 0], [0, 0], [one, .posInf]⟩,
          .columns ⟨[one], [0, 1], [1], [one], [one]⟩] last) ∧
      (∃ last, Takes engine session [terms [.binary], terms [.real, .integer]] last ∧
        Takes engine session [terms [.binary, .real, .integer]] last) ∧
      ∃ last, Takes engine session [row, terms [.binary], terms [.real]] last ∧
        Takes engine session [terms [.binary], row, terms [.real]] last := by
  intro one engine session columns row terms
  have consistent : session.program.Consistent := by
    simp [session, start, Program.Consistent, Program.ofObjective]
  have hsame : Ingestion.SameOrder [row, terms [.binary], terms [.real]]
      [terms [.binary], row, terms [.real]] := by
    refine ⟨?_, rfl, rfl⟩
    decide +kernel
  obtain ⟨whole, hwhole⟩ : ∃ last, Takes engine session [columns] last :=
    ⟨_, .cons (by decide +kernel) (.nil _)⟩
  obtain ⟨joined, hpair⟩ : ∃ last,
      Takes engine session [terms [.binary], terms [.real, .integer]] last :=
    ⟨_, .cons (by decide +kernel) (.cons (by decide +kernel) (.nil _))⟩
  obtain ⟨mixed, hmixed⟩ : ∃ last,
      Takes engine session [row, terms [.binary], terms [.real]] last :=
    ⟨_, .cons (by decide +kernel) (.cons (by decide +kernel) (.cons (by decide +kernel) (.nil _)))⟩
  refine ⟨⟨whole, hwhole, ?_⟩, ⟨joined, hpair, ?_⟩, ⟨mixed, hmixed, ?_⟩⟩
  · exact ((takes_whole_same_as_chunks engine consistent whole).1 columns 2 (by decide) hwhole).2
  · exact (takes_whole_same_as_chunks engine consistent joined).2.1 _ _ _ rfl hpair
  · exact (takes_whole_same_as_chunks engine consistent mixed).2.2 _ _ hsame hmixed

end Session

end LinProg
