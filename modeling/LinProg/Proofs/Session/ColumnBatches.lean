/-
# A batch of columns against a batch of rows

A block of terms comes into a program in two ways. Either its variables are added first,
without any terms, and its rows are ingested after that, or its rows are ingested without any
terms, and its columns after that. Both succeed, and the programs that they lead to are equal.
-/
import LinProg.Proofs.Program.Blocks
import LinProg.Proofs.Session.Operations

namespace LinProg.Session

/-- Variables and rows, or empty rows and columns, make equal programs of the same block. The
columns count their terms from the first new row, and the rows from the first new variable.
The rows that the program has repeat no index, as none does that comes out of a constructor. -/
theorem ingest_rows_same_as_ingest_columns (engine : Engine) (session : Session)
    (nanFree : session.program.NanFree)
    (distinct : ∀ constraint ∈ session.program.constraints, constraint.row.Distinct)
    {height width : Nat} (block : Block height width) (lower upper : List Binary64)
    (added : List Variable) (rows columns : List (Entry Binary64))
    (hlower : lower.length = height) (hupper : upper.length = height)
    (hranges : ∀ bound ∈ lower ++ upper, bound ≠ .nan)
    (hadded : added.length = width) (ordered : ∀ bounds ∈ added, bounds.Ordered)
    (rowWise : block.RowWise session.program.vars.length rows)
    (columnWise : block.ColumnWise session.program.constraints.length columns) :
    let widened := session.perform engine (.request (.edit (.addVariables added)))
    let byRows := widened.next.perform engine (.ingest (.rows (.ofEntries rows lower upper)))
    let lengthened := session.perform engine
      (.ingest (.rows (.ofEntries (List.replicate height .empty) lower upper)))
    let byColumns := lengthened.next.perform engine
      (.ingest (.columns
        (.ofEntries columns (added.map Variable.lower) (added.map Variable.upper))))
    (widened.result = .ok .done ∧ byRows.result = .ok .done) ∧
      (lengthened.result = .ok .done ∧ byColumns.result = .ok .done) ∧
      (byRows.next.program == byColumns.next.program) = true := by
  intro widened byRows lengthened byColumns
  have hwidened : widened.next = session.change (session.program.addVariables added) := rfl
  obtain ⟨hbyRows, hrows⟩ : byRows.result = .ok .done ∧ byRows.next = _ := by
    apply perform_ingest_of_ok engine widened.next
    rw [hwidened]
    exact rowWise.ingest _ hlower hupper
  obtain ⟨hlengthened, hempty⟩ : lengthened.result = .ok .done ∧ lengthened.next = _ :=
    perform_ingest_of_ok engine session (Block.ingest_emptyRows session.program hlower hupper)
  obtain ⟨hbyColumns, hcolumns⟩ : byColumns.result = .ok .done ∧ byColumns.next = _ := by
    apply perform_ingest_of_ok engine lengthened.next
    rw [hempty]
    exact columnWise.ingest hlower hupper hadded ordered
  refine ⟨⟨rfl, hbyRows⟩, ⟨hlengthened, hbyColumns⟩, ?_⟩
  rw [hrows, hcolumns]
  exact Block.beq_addColumns nanFree distinct hlower hupper hranges ordered rowWise columnWise

/-- Three terms are added below a row and to the right of a variable. The first new row was
handed over with its last term first, and the other way it has that term last. -/
theorem ingest_rows_same_as_ingest_columns_three_terms :
    let session := start (.ofObjective .minimize [⟨⟨[(0, 0)]⟩, 0, .posInf⟩] ⟨[⟨0, .real⟩]⟩)
    let engine : Engine := fun _ => .unbounded
    let added : List Variable := [⟨0, .posInf⟩, ⟨.negInf, 0⟩]
    let widened := session.perform engine (.request (.edit (.addVariables added)))
    let byRows := widened.next.perform engine (.ingest (.rows (.ofEntries
      [⟨[(2, .negInf), (1, .posInf)]⟩, ⟨[(1, 0)]⟩] [0, .negInf] [.posInf, .posInf])))
    let lengthened := session.perform engine
      (.ingest (.rows (.ofEntries (List.replicate 2 .empty) [0, .negInf] [.posInf, .posInf])))
    let byColumns := lengthened.next.perform engine (.ingest (.columns (.ofEntries
      [⟨[(2, 0), (1, .posInf)]⟩, ⟨[(1, .negInf)]⟩] (added.map Variable.lower)
      (added.map Variable.upper))))
    (byRows.result = .ok .done ∧ byColumns.result = .ok .done) ∧
      (byRows.next.program == byColumns.next.program) = true ∧
      byRows.next.program.constraints[1]? =
        some ⟨⟨[(2, .negInf), (1, .posInf)]⟩, 0, .posInf⟩ ∧
      byColumns.next.program.constraints[1]? =
        some ⟨⟨[(1, .posInf), (2, .negInf)]⟩, 0, .posInf⟩ := by
  intro session engine added widened byRows lengthened byColumns
  let block : Block 2 2 :=
    { terms := [⟨0, 0, .posInf⟩, ⟨1, 0, 0⟩, ⟨0, 1, .negInf⟩]
      inside := by decide
      nodup := by decide
      defined := by decide +kernel }
  have nanFree : session.program.NanFree := by
    refine ⟨?_, by decide +kernel, ?_⟩
    · intro constraint hmem
      cases List.mem_singleton.mp hmem
      exact ⟨nofun, nofun, by decide +kernel⟩
    · intro bounds hmem
      cases List.mem_singleton.mp hmem
      exact ⟨nofun, nofun⟩
  have distinct : ∀ constraint ∈ session.program.constraints, constraint.row.Distinct := by
    intro constraint hmem
    cases List.mem_singleton.mp hmem
    exact List.nodup_singleton 0
  have rowWise : block.RowWise session.program.vars.length
      [⟨[(2, .negInf), (1, .posInf)]⟩, ⟨[(1, 0)]⟩] := by
    refine ⟨rfl, fun position row hat => ?_⟩
    match position with
    | 0 => cases hat; exact .swap _ _ _
    | 1 => cases hat; exact .refl _
  have columnWise : block.ColumnWise session.program.constraints.length
      [⟨[(2, 0), (1, .posInf)]⟩, ⟨[(1, .negInf)]⟩] := by
    refine ⟨rfl, fun position column hat => ?_⟩
    match position with
    | 0 => cases hat; exact .swap _ _ _
    | 1 => cases hat; exact .refl _
  have ordered : ∀ bounds ∈ added, bounds.Ordered := by
    show ∀ bounds ∈ added, bounds.lower ≤ bounds.upper
    decide +kernel
  obtain ⟨⟨-, hrows⟩, ⟨-, hcolumns⟩, hsame⟩ := ingest_rows_same_as_ingest_columns engine session
    nanFree distinct block [0, .negInf] [.posInf, .posInf] added _ _ rfl rfl (by decide +kernel) rfl
    ordered rowWise columnWise
  refine ⟨⟨hrows, hcolumns⟩, ?_, by decide +kernel, by decide +kernel⟩
  dsimp only [byRows, widened, byColumns, lengthened]
  exact hsame

end LinProg.Session
