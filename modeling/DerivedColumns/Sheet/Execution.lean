import DerivedColumns.Evaluation.Whole
import DerivedColumns.Sheet.Basic

set_option autoImplicit false

/-!
Columns are computed in an order in which each comes after all that it reads. Once computed, a column
can be read from the rows like a source column; a cell that failed reads as null.
-/

namespace DerivedColumns

def Result.at (formula : Formula) (result : Result) (row : Row) : Value :=
  match result with
  | .scalar v => v
  | .byRow ranks => ranks[row.id]?.getD .null
  | .byGroup groups =>
    let keys := match formula with
      | .group keys _ _ => keys
      | _ => []
    (groups.get? (Evaluation.groupKey keys row.fields)).getD .null

/-- The outcomes of a formula for all rows. One for all rows fails for all of them or for none. -/
def outcomes (library : Library) (formula : Formula) (rows : List Row) :
    List (RowId × Evaluated Value) :=
  if formula.isWhole then
    let result := Evaluation.evaluate ⟨library, .empty⟩ rows formula
    rows.map fun row => (row.id, result.map (·.at formula row))
  else rows.map fun row => (row.id, Evaluation.scalar ⟨library, row.fields⟩ formula)

def cells (outcomes : List (RowId × Evaluated Value)) : ColumnValues :=
  .ofList (outcomes.map fun o => (o.1, o.2.toOption))

def failures (outcomes : List (RowId × Evaluated Value)) : List RowFailure :=
  outcomes.filterMap fun (row, outcome) =>
    match outcome with
    | .ok _ => none
    | .error e => some ⟨row, e⟩

def publish (column : String) (values : ColumnValues) (rows : List Row) : List Row :=
  rows.map fun row =>
    { row with fields := row.fields.insert column ((values[row.id]?.bind id).getD .null) }

namespace Sheet

structure Progress where
  rows : List Row
  cache : ByName ColumnValues
  report : Report

def Progress.compute (library : Library) (p : Progress) (column : String) (formula : Formula) :
    Progress :=
  let outcomes := outcomes library formula p.rows
  let values := cells outcomes
  let failed := failures outcomes
  { rows := publish column values p.rows
    cache := p.cache.insert column values
    report :=
      { affected := p.report.affected.insert column
        results := p.report.results.insert column values
        failures := if failed.isEmpty then p.report.failures
          else p.report.failures.insert column failed } }

def isStale (s : Sheet) (column : String) : Bool := s.isActive column && !s.isCached column

/-- The active ones of some columns, and all stale columns that they need. -/
def closure (s : Sheet) (targets : List String) : List String :=
  let run := targets.filter s.isActive
  let stale := s.calculations.keys.filter fun column => s.isStale column && !run.contains column
  run ++ gather s.graph.readsOf stale run

/-- The source rows with the cached columns that are not computed again. -/
def snapshot (s : Sheet) (run : List String) : List Row :=
  s.calculations.entries.foldl
    (fun rows (column, c) =>
      if c.active && !run.contains column then
        match s.cache[column]? with
        | some values => publish column values rows
        | none => rows
      else rows)
    s.source.rows

def computeAll (s : Sheet) (run order : List String) : Progress :=
  order.foldl
    (fun p column =>
      match s.calculations.get? column with
      | some c => p.compute s.library column c.formula
      | none => p)
    ⟨s.snapshot run, s.cache, .empty⟩

def execute (s : Sheet) (targets : List String) : Except SheetError Report × Sheet :=
  let run := s.closure targets
  match s.graph.topologicalOrder s.isActive (s.calculations.keys.filter run.contains) with
  | .error cycle => (.error (.cycle cycle), s)
  | .ok order =>
    let p := s.computeAll run order
    (.ok p.report, { s with cache := p.cache })

def executeAll (s : Sheet) : Except SheetError Report × Sheet := s.execute s.activeColumns

def refresh (s : Sheet) : Except SheetError Report × Sheet :=
  s.execute (s.activeColumns.filter fun column => !s.isCached column)

end Sheet

end DerivedColumns
