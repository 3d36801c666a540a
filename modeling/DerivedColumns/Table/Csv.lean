import DerivedColumns.Table.Frame
import DerivedColumns.Text.Case

set_option autoImplicit false

/-!
The first line names the columns. Fields may be quoted, with a quote inside written twice; an empty
field is an empty cell, and so are the fields that a line lacks. A column holds truth values or numbers
if all its fields do, and texts otherwise.

Lines end in a line feed, with or without a carriage return before it. In a cell the carriage return
does not count, but a line of nothing else makes the first column one of texts.
-/

namespace DerivedColumns.Csv

/-- A field as it stands in the text, without its quotes. One without quotes keeps a carriage return at
its end. -/
structure RawField where
  quoted : Bool
  content : List Char
deriving DecidableEq

inductive Place where
  | start
  | plain
  | quoted
  | closed
deriving DecidableEq

def finish (place : Place) (reversed : List Char) : RawField :=
  ⟨place = .quoted || place = .closed, reversed.reverse⟩

def readRecords (place : Place) (field : List Char) (before : List RawField) :
    List Char → List (List RawField)
  | [] => if place = .start ∧ before = [] then [] else [before ++ [finish place field]]
  | c :: s =>
    if place = .quoted then
      if c = '"' then readRecords .closed field before s
      else readRecords .quoted (c :: field) before s
    else if c = ',' then readRecords .start [] (before ++ [finish place field]) s
    else if c = '\n' then (before ++ [finish place field]) :: readRecords .start [] [] s
    else if c = '"' ∧ place = .start then readRecords .quoted field before s
    else if c = '"' ∧ place = .closed then readRecords .quoted (c :: field) before s
    else if c = '\r' ∧ place = .closed then readRecords .closed field before s
    else readRecords (if place = .start then .plain else place) (c :: field) before s

def records (s : List Char) : List (List RawField) := readRecords .start [] [] s

def RawField.chop (f : RawField) : RawField :=
  if !f.quoted && f.content.getLast? == some '\r' then { f with content := f.content.dropLast } else f

def chopLast : List RawField → List RawField
  | [] => []
  | [f] => [f.chop]
  | f :: g :: more => f :: chopLast (g :: more)

/-- The fields by which a line tells the names or the kinds of columns. -/
def telling (record : List RawField) : List RawField :=
  if record = [⟨false, ['\r']⟩] then record else chopLast record

inductive Kind where
  | bool
  | integer
  | real
  | text
deriving DecidableEq

def isInteger (s : List Char) : Bool :=
  let digits := match s with
    | '-' :: s => s
    | s => s
  !digits.isEmpty && digits.all Char.isDigit

def isExponent (s : List Char) : Bool :=
  match Number.exponent? s with
  | some (_, []) => true
  | _ => false

/-- A number with a point or an exponent, or one of the words `inf` and `NaN`. A point after digits may
end the number. -/
def isReal (s : List Char) : Bool :=
  let s := match s with
    | '-' :: s => s
    | '+' :: s => s
    | s => s
  if s = ['i', 'n', 'f'] ∨ s = ['N', 'a', 'N'] then true
  else
    let (whole, rest) := Number.spanDigits s
    match rest with
    | '.' :: rest =>
      match Number.spanDigits rest with
      | ([], _) => !whole.isEmpty && rest.isEmpty
      | (_, rest) => rest.isEmpty || isExponent rest
    | rest => !whole.isEmpty && isExponent rest

def kindOf (s : List Char) : Kind :=
  let word := Text.lowercase (String.ofList s)
  if word = "true" ∨ word = "false" then .bool
  else if isReal s then .real
  else if isInteger s then .integer
  else .text

def commonKind (kinds : List Kind) : Kind :=
  match kinds.eraseDups with
  | [kind] => kind
  | [.integer, .real] => .real
  | [.real, .integer] => .real
  | _ => .text

def isMissing (f : RawField) : Bool := f.content.isEmpty && !f.quoted

def cell? (kind : Kind) (f : RawField) : Option Cell :=
  if isMissing f then none
  else
    match kind with
    | .bool => some (.bool (Text.lowercase (String.ofList f.content) == "true"))
    | .integer =>
      match f.content with
      | '-' :: digits => some (.integer (-(Number.ofDigits digits : Int)))
      | digits => some (.integer (Number.ofDigits digits))
    | .real => (Number.read? f.content).map .real
    | .text => some (.text (String.ofList f.content))

def column (name : String) (body : List (List RawField)) (position : Nat) : Column :=
  let told := body.filterMap fun record => (telling record)[position]?
  let kind := commonKind ((told.filter fun f => !isMissing f).map fun f => kindOf f.content)
  ⟨name, body.map fun record => record[position]?.bind fun f => cell? kind f.chop⟩

def columnNames (seen : List String) : List String → List String
  | [] => []
  | name :: more =>
    let count := seen.count name
    (if count = 0 then name else name ++ "_duplicated_" ++ toString (count - 1)) ::
      columnNames (name :: seen) more

/-- A text from its first line on: a byte order mark and line ends before it do not count. -/
def start (s : List Char) : List Char :=
  (if s.head? = some '\uFEFF' then s.tail else s).dropWhile fun c => c = '\n' || c = '\r'

/-- The columns of a table, in which no line may have more fields than the first. -/
def columns? (text : String) : Option (List Column) :=
  match records (start text.toList) with
  | [] => none
  | header :: body =>
    if body.all fun record => record.length ≤ header.length then
      let names := columnNames [] ((telling header).map fun f => String.ofList f.content)
      some (names.zipIdx.map fun (name, position) => column name body position)
    else none

end DerivedColumns.Csv
