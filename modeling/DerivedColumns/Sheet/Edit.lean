import DerivedColumns.Formula.Reads
import DerivedColumns.Sheet.Execution
import DerivedColumns.Text.Blank

set_option autoImplicit false

namespace DerivedColumns

structure Patch where
  name : Option String
  column : Option String
  formula : Option Formula
  active : Option Bool

namespace Sheet

def nameFault? (s : Sheet) (column : String) : Option SheetError :=
  if column.toList.all Text.isBlank then some (.invalidColumnName column)
  else if s.calculations.contains column || s.source.columns.contains column then
    some (.duplicateColumn column)
  else none

def readersOf (s : Sheet) (graph : DependencyGraph) (column : String) : List String :=
  (s.calculations.entries.filter fun (reader, c) =>
    reader != column && graph.contains reader && c.formula.reads.contains column).map Prod.fst

def linkAll (graph : DependencyGraph) (readers : List String) (column : String) : DependencyGraph :=
  readers.foldl (fun g reader => g.link reader column) graph

def uncache (s : Sheet) (columns : List String) : Sheet :=
  { s with cache := columns.foldl (fun cache column => cache.erase column) s.cache }

def cascade (s : Sheet) (column : String) : Names := (s.dependents column).insert column

def uncacheCascade (s : Sheet) (column : String) : Sheet := s.uncache (s.cascade column).toList

/-- Adds a calculation and computes it, with all that depend on it. Calculations that read the column
already, from a time when it was not there, are linked to it. An inactive calculation is not
computed. -/
def add (s : Sheet) (column : String) (c : Calculation) : Except SheetError Report × Sheet :=
  match s.nameFault? column with
  | some fault => (.error fault, s)
  | none =>
    let graph := s.graph.set column c.formula.reads
    let graph := linkAll graph (s.readersOf graph column) column
    match graph.cycleThrough? column with
    | some cycle => (.error (.cycle cycle), s)
    | none =>
      let s := { s with graph, calculations := s.calculations.insert column c }
      let targets := (s.cascade column).toList
      let s := s.uncache targets
      if c.active then s.execute targets else (.ok .empty, s)

def addText (s : Sheet) (id : Nat) (name column text : String) : Except Failure Report × Sheet :=
  match Formula.parse text with
  | .error e => (.error (.parsing e), s)
  | .ok formula =>
    let (result, s) := s.add column ⟨id, name, formula, true⟩
    (result.mapError .calculation, s)

def renameColumn (s : Sheet) (old new : String) : Sheet :=
  let cache := match s.cache[old]? with
    | some values => (s.cache.erase old).insert new values
    | none => s.cache
  let calculations := (s.calculations.rename old new).map fun _ c =>
    if c.formula.reads.contains old then { c with formula := c.formula.rename old new } else c
  { s with cache, calculations }

/-- The calculation with the changes of a patch other than that of its column. -/
def patched (c : Calculation) (p : Patch) : Calculation :=
  { c with
    name := p.name.getD c.name
    formula := p.formula.getD c.formula
    active := p.active.getD c.active }

/-- Changes a calculation. A new formula or a change of activity makes the column and its dependents
stale, and so does a new name for the calculations that read it already. Nothing is computed. -/
def update (s : Sheet) (column : String) (p : Patch) : Except SheetError Unit × Sheet :=
  if !s.calculations.contains column then (.error (.unknownCalculation column), s)
  else
    let renamed := p.column.filter (· != column)
    match renamed.bind s.nameFault? with
    | some fault => (.error fault, s)
    | none =>
      let target := renamed.getD column
      let (graph, relinked) := match renamed with
        | some new =>
          let graph := s.graph.rename column new
          let readers := s.readersOf graph new
          (linkAll graph readers new, readers)
        | none => (s.graph, [])
      let graph := match p.formula with
        | some formula => graph.set target formula.reads
        | none => graph
      match graph.cycleThrough? target with
      | some cycle => (.error (.cycle cycle), s)
      | none =>
        let s := { s with graph }
        let s := match renamed with
          | some new => s.renameColumn column new
          | none => s
        match s.calculations.get? target with
        | none => (.error (.unknownCalculation target), s)
        | some c =>
          let s := { s with calculations := s.calculations.insert target (patched c p) }
          let s :=
            if p.formula.isSome || p.active.any (· != c.active) then s.uncacheCascade target else s
          (.ok (), relinked.foldl uncacheCascade s)

def remove (s : Sheet) (column : String) : Except SheetError Calculation × Sheet :=
  match s.calculations.get? column with
  | none => (.error (.unknownCalculation column), s)
  | some c =>
    let stale := column :: (s.dependents column).toList
    let s := { s with
      calculations := s.calculations.erase column
      graph := (s.graph.remove column).strip column }
    (.ok c, s.uncache stale)

def invalidate (s : Sheet) (column : String) : Except SheetError Names × Sheet :=
  if s.calculations.contains column then (.ok (s.cascade column), s.uncacheCascade column)
  else (.error (.unknownCalculation column), s)

def setSource (s : Sheet) (source : Dataset) : Sheet := { s with source, cache := ∅ }

/-- The source shows other rows. The sheet is not told, so nothing becomes stale. -/
def swapRows (s : Sheet) (rows : List Row) : Sheet :=
  { s with source := { s.source with rows } }

/-- The source lists other columns and shows other rows. -/
def drift (s : Sheet) (source : Dataset) : Sheet :=
  ({ s with source := { s.source with columns := source.columns } } : Sheet).swapRows source.rows

end Sheet

end DerivedColumns
