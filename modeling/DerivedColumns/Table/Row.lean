import DerivedColumns.Keyed
import DerivedColumns.Value.Basic

set_option autoImplicit false

namespace DerivedColumns

abbrev RowId := Nat

abbrev Fields := Keyed Value

structure Row where
  id : RowId
  fields : Fields

structure Dataset where
  columns : List String
  rows : List Row

namespace Dataset

def empty : Dataset := ⟨[], []⟩

/-- The names that some row has a field for, in the order in which they are first seen. -/
def columnsOf (rows : List Row) : List String :=
  (rows.foldl (fun seen row => row.fields.keys.foldl (fun seen name => seen.insert name ()) seen)
    (Keyed.empty : Keyed Unit)).keys

def ofRows (rows : List Row) : Dataset := ⟨columnsOf rows, rows⟩

end Dataset

end DerivedColumns
