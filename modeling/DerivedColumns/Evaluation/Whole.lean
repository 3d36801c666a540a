import DerivedColumns.Evaluation.Scalar

set_option autoImplicit false

namespace DerivedColumns

inductive Result where
  | scalar (v : Value)
  | byGroup (groups : Keyed Value)
  | byRow (ranks : Std.ExtTreeMap RowId Value)

namespace Evaluation

def fieldValue (fields : Fields) (name : String) : Value := (fields.get? name).getD .null

/-- The key of the group of a row: the texts of the fields, joined. -/
def groupKey (keys : List String) (fields : Fields) : String :=
  "|".intercalate (keys.map fun name => (fieldValue fields name).display)

def partition (keys : List String) (rows : List Row) : Keyed (List Row) :=
  (rows.foldl (fun groups row =>
    let key := groupKey keys row.fields
    groups.insert key (row :: (groups.get? key).getD [])) (Keyed.empty : Keyed (List Row))).map
      fun _ members => members.reverse

def aggregateNumbers (aggregation : Aggregation) (values : List Value) : Evaluated (List Number) :=
  values.mapM (numberOperand aggregation.text)

/-- A text that tells values of different kinds apart. -/
def taggedText (v : Value) : String := v.kindName ++ ":" ++ v.display

def aggregate (aggregation : Aggregation) (rowCount : Nat) (values : List Value) : Evaluated Value :=
  match aggregation with
  | .count => .ok (.number (.ofNat rowCount))
  | .countUnique => .ok (.number (.ofNat (values.map taggedText).eraseDups.length))
  | .sum => do return .number (Number.sum (← aggregateNumbers aggregation values))
  | .average => do return Builtin.mean (← aggregateNumbers aggregation values)
  | .min => do return Builtin.chosen Number.lesser (← aggregateNumbers aggregation values)
  | .max => do return Builtin.chosen Number.greater (← aggregateNumbers aggregation values)

def present (field : String) (rows : List Row) : List Value :=
  (rows.filterMap fun row => row.fields.get? field).filter fun v => !v.isNull

def groupAggregate (aggregation : Aggregation) (field : Option String) (rows : List Row) :
    Evaluated Value :=
  aggregate aggregation rows.length ((field.map fun name => present name rows).getD [])

def evaluateEntries (f : List Row → Evaluated Value) :
    List (String × List Row) → Evaluated (List (String × Value))
  | [] => .ok []
  | (key, rows) :: more => do
    let v ← f rows
    let vs ← evaluateEntries f more
    return (key, v) :: vs

def group (keys : List String) (aggregation : Aggregation) (field : Option String)
    (rows : List Row) : Evaluated (Keyed Value) :=
  if aggregation.needsField && field.isNone then
    .error (.argument aggregation.text "aggregation needs a value field")
  else (evaluateEntries (groupAggregate aggregation field) (partition keys rows).entries).map
    Keyed.ofList

/-- The order of two rows by some fields, the first that differs deciding. -/
def rankCompare (keys : List String) (a b : Row) : Ordering :=
  match keys with
  | [] => .eq
  | name :: more =>
    ((fieldValue a.fields name).sortCompare (fieldValue b.fields name)).then (rankCompare more a b)

def ranked (keys : List String) (rows : List Row) : List Row :=
  rows.mergeSort fun a b => rankCompare keys a b != .gt

/-- The ranks of sorted rows from `place` on: the place from 1, over the number of rows if normalized,
and added up if cumulative. -/
def numbered (normalized cumulative : Bool) (total : Float) (place : Nat) (running : Float) :
    List Row → List (RowId × Value)
  | [] => []
  | row :: more =>
    let own := Float.ofNat (place + 1)
    let own := if normalized then own / total else own
    let running := if cumulative then running + own else running
    (row.id, .number (.ofFloat (if cumulative then running else own))) ::
      numbered normalized cumulative total (place + 1) running more

def rank (keys : List String) (normalized cumulative : Bool) (rows : List Row) :
    Std.ExtTreeMap RowId Value :=
  .ofList (numbered normalized cumulative (Float.ofNat rows.length) 0 0 (ranked keys rows))

def evaluate (scope : Scope) (rows : List Row) : Formula → Evaluated Result
  | .group keys aggregation field => (group keys aggregation field rows).map .byGroup
  | .rank keys normalized cumulative => .ok (.byRow (rank keys normalized cumulative rows))
  | f => (scalar scope f).map .scalar

end Evaluation

end DerivedColumns
