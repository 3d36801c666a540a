import DerivedColumns.Service.Basic
import DerivedColumns.Value.Json

set_option autoImplicit false

namespace DerivedColumns

inductive Content where
  | none
  | json (body : Json)
  | withheld

def Content.text? : Content → Option String
  | .none => .none
  | .json body => some body.text
  | .withheld => some ""

structure Reply where
  status : Nat
  content : Content

namespace Reply

def ok (body : Json) : Reply := ⟨200, .json body⟩

def bare (status : Nat) : Reply := ⟨status, .none⟩

def failed (status : Nat) (message : String) : Reply :=
  ⟨status, .json (.object [("error", .string message)])⟩

def withheld (r : Reply) : Reply :=
  match r.content with
  | .json _ => { r with content := .withheld }
  | _ => r

end Reply

def Failure.status : Failure → Nat
  | .calculation (.unknownCalculation _) => 404
  | .calculation (.duplicateColumn _) => 409
  | .calculation (.cycle _) => 409
  | _ => 400

def Failure.reply (f : Failure) : Reply := .failed f.status f.message

/-- The cells of a column by the ids of the rows in ascending order, null for a row that failed. -/
def columnJson (values : ColumnValues) : Json :=
  .object (values.toList.map fun (row, cell) =>
    (toString row, (cell.map Value.toJson).getD .null))

def columnsJson (columns : ByName ColumnValues) : Json :=
  .object (columns.toList.map fun (name, values) => (name, columnJson values))

def RowFailure.toJson (f : RowFailure) : Json :=
  .object [("row_id", .integer f.row), ("error", .string f.error.message)]

def Report.toJson (r : Report) : Json :=
  .object
    [("affected_columns", Json.strings r.affected.toList),
      ("results", columnsJson r.results),
      ("failures", .object (r.failures.toList.map fun (name, failures) =>
        (name, .array (failures.map RowFailure.toJson))))]

def CalculationView.toJson (c : CalculationView) : Json :=
  .object
    [("id", .integer c.id),
      ("name", .string c.name),
      ("column", .string c.column),
      ("formula", .string c.formula),
      ("active", .bool c.active),
      ("dependencies", Json.strings c.reads),
      ("cached", .bool c.cached)]

def parsedJson (f : Formula) : Json :=
  .object [("expression", .string f.text), ("dependencies", Json.strings f.reads.toList)]

def inventoryJson (s : Sheet) : Json :=
  .object
    [("columns", Json.strings s.columnNames),
      ("calculated", Json.strings s.activeColumns),
      ("row_count", .integer s.rowCount)]

def Reply.of {α : Type} (toJson : α → Json) : Except Failure α → Reply
  | .ok a => .ok (toJson a)
  | .error f => f.reply

end DerivedColumns
