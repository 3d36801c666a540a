import DerivedColumns.Graph.Reach
import DerivedColumns.Sheet.Error

set_option autoImplicit false

/-!
A sheet holds calculations over one dataset. Each calculation defines a column by a formula, which may
read source columns and other calculated ones. What has been computed is kept until an edit makes it
stale; a column without an entry in the cache is stale.
-/

namespace DerivedColumns

/-- What defines a calculated column. The number tells definitions apart. -/
structure Calculation where
  id : Nat
  name : String
  formula : Formula
  active : Bool

/-- The cells of a column by row, none for a row whose evaluation failed. -/
abbrev ColumnValues := Std.ExtTreeMap RowId (Option Value)

structure RowFailure where
  row : RowId
  error : EvalError
deriving DecidableEq

structure Report where
  affected : Names
  results : ByName ColumnValues
  /-- The failures of each column that has some, in the order of the rows. -/
  failures : ByName (List RowFailure)

namespace Report

def empty : Report := ⟨∅, ∅, ∅⟩

def isEmpty (r : Report) : Bool := r.affected.isEmpty

def failureCount (r : Report) : Nat := r.failures.values.foldl (fun count more => count + more.length) 0

end Report

structure Sheet where
  source : Dataset
  library : Library
  /-- The calculations by column, in the order in which they were added. -/
  calculations : Keyed Calculation
  cache : ByName ColumnValues
  graph : DependencyGraph

namespace Sheet

def ofSource (source : Dataset) (library : Library) : Sheet := ⟨source, library, .empty, ∅, ∅⟩

def isActive (s : Sheet) (column : String) : Bool :=
  (s.calculations.get? column).any (·.active)

def isCached (s : Sheet) (column : String) : Bool := s.cache.contains column

def activeColumns (s : Sheet) : List String := s.calculations.keys.filter s.isActive

def columnNames (s : Sheet) : List String := s.source.columns ++ s.activeColumns

def rowCount (s : Sheet) : Nat := s.source.rows.length

def virtualColumns (s : Sheet) : ByName ColumnValues := s.cache.filter fun column _ => s.isActive column

def virtualColumn? (s : Sheet) (column : String) : Option ColumnValues :=
  if s.isActive column then s.cache[column]? else none

def dependents (s : Sheet) (column : String) : Names := s.graph.dependents column

end Sheet

end DerivedColumns
