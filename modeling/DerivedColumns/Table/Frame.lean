import DerivedColumns.Table.Error

set_option autoImplicit false

/-!
A frame is a table by columns, with cells of more kinds than values have. It becomes a dataset by
turning every cell into a value, column by column; the rows are known by their positions or by the cells
of a column.
-/

namespace DerivedColumns

open Calendar (Moment)

inductive TickUnit where
  | milli
  | micro
  | nano
deriving DecidableEq

def TickUnit.perMilli : TickUnit → Nat
  | .milli => 1
  | .micro => 1000
  | .nano => 1000000

inductive Cell where
  | bool (b : Bool)
  | text (s : String)
  | integer (n : Int)
  | real (x : Number)
  | day (n : Int)
  | ticks (unit : TickUnit) (n : Int)
  /-- A cell of another kind, such as a time of day, by its text and by the number it is kept as. -/
  | other (text : Option String) (number : Option Int)

/-- The conversions of cells: numbers to floating point, dates and moments to milliseconds, cells of other
kinds to texts, and the moments that milliseconds stand for. Each may lose a cell. -/
structure CellCast where
  number? : Cell → Option Number
  millis? : Cell → Option Int
  text? : Cell → Option String
  moment? : Int → Option Moment

/-- Moments are counted in whole milliseconds; one out of range is lost. -/
def CellCast.standard : CellCast where
  number?
    | .integer n => some (.ofInt n)
    | .real x => some x
    | _ => none
  millis?
    | .day n => some (n * 86400000)
    | .ticks unit n => some (n / unit.perMilli)
    | _ => none
  text?
    | .other shown _ => shown
    | _ => none
  moment? := Moment.ofMillis?

namespace Cell

def value (cast : CellCast) (c : Cell) : Value :=
  match c with
  | .bool b => .bool b
  | .text s => .text s
  | .day _ | .ticks _ _ => (((cast.millis? c).bind cast.moment?).map Value.date).getD .null
  | .integer _ | .real _ => ((cast.number? c).map Value.number).getD .null
  | .other _ _ => ((cast.text? c).map Value.text).getD .null

def idLimit : Nat := Nat.pow 2 64

def idOfInt? (n : Int) : Option RowId :=
  if 0 ≤ n ∧ n < idLimit then some n.toNat else none

def idOfText? (s : List Char) : Option RowId :=
  let digits := match s with
    | '+' :: s => s
    | s => s
  if digits.isEmpty || !digits.all Char.isDigit then none
  else idOfInt? (Number.ofDigits digits)

/-- The id that a cell stands for. Numbers lose their fraction, dates and moments are taken by their
number. -/
def rowId? : Cell → Option RowId
  | .bool b => some (if b then 1 else 0)
  | .text s => idOfText? s.toList
  | .integer n => idOfInt? n
  | .real x => x.truncate?.bind idOfInt?
  | .day n => idOfInt? n
  | .ticks _ n => idOfInt? n
  | .other _ number => number.bind idOfInt?

def valueOf (cast : CellCast) (cell : Option Cell) : Value := (cell.map (value cast)).getD .null

end Cell

structure Column where
  name : String
  cells : List (Option Cell)

def Column.values (cast : CellCast) (c : Column) : List Value := c.cells.map (Cell.valueOf cast)

/-- A cast of columns to row ids. A column cannot be cast, or every cell becomes an id or is lost. -/
structure IdCast where
  ids? : Column → Option (List (Option RowId))
  length_ids : ∀ c ids, ids? c = some ids → ids.length = c.cells.length

def IdCast.cellwise : IdCast where
  ids? c := some (c.cells.map fun cell => cell.bind Cell.rowId?)
  length_ids c ids h := by
    obtain rfl := Option.some.inj h
    exact List.length_map _

structure Frame where
  columns : List Column
  height : Nat
  nodup : (columns.map Column.name).Nodup
  heights : ∀ c ∈ columns, c.cells.length = height

namespace Frame

def ofColumns? (columns : List Column) : Option Frame :=
  let height := ((columns.head?).map fun c => c.cells.length).getD 0
  if h : (columns.map Column.name).Nodup ∧ ∀ c ∈ columns, c.cells.length = height then
    some ⟨columns, height, h.1, h.2⟩
  else none

def names (f : Frame) : List String := f.columns.map Column.name

def column? (f : Frame) (name : String) : Option Column := f.columns.find? fun c => c.name == name

/-- Writes the values of a column into rows, one after the other. Rows past the last value stay as they
are. -/
def fill (name : String) : List Row → List Value → List Row
  | row :: rows, v :: values =>
    { row with fields := row.fields.insert name v } :: fill name rows values
  | rows, _ => rows

def withIds (f : Frame) (values : CellCast) (ids : List RowId) : Dataset :=
  ⟨f.names, f.columns.foldl (fun rows c => fill c.name rows (c.values values))
    (ids.map fun id => ⟨id, .empty⟩)⟩

def toDataset (f : Frame) (values : CellCast) : Dataset := f.withIds values (List.range f.height)

def checkIds (column : String) (seen : List RowId) (position : Nat) :
    List (Option RowId) → Except TableError (List RowId)
  | [] => .ok []
  | none :: _ => .error (.nullId position column)
  | some id :: more =>
    if seen.contains id then .error (.duplicateId id column)
    else (checkIds column (id :: seen) (position + 1) more).map (id :: ·)

def toDatasetBy (f : Frame) (values : CellCast) (cast : IdCast) (column : String) :
    Except TableError Dataset :=
  match f.column? column with
  | none => .error (.columnNotFound column)
  | some c =>
    match cast.ids? c with
    | none => .error .malformed
    | some ids => (checkIds column [] 0 ids).map (f.withIds values)

end Frame

def Dataset.ofColumns (columns : List Column) (idColumn : Option String) : Except TableError Dataset :=
  match Frame.ofColumns? columns with
  | none => .error .malformed
  | some f =>
    match idColumn with
    | none => .ok (f.toDataset .standard)
    | some column => f.toDatasetBy .standard .cellwise column

end DerivedColumns
