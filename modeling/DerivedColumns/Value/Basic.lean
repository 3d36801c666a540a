import DerivedColumns.Calendar.Reader
import DerivedColumns.Calendar.Text
import DerivedColumns.Number.Binary
import DerivedColumns.Number.Layout
import DerivedColumns.Number.Reader
import DerivedColumns.Text.Blank

set_option autoImplicit false

namespace DerivedColumns

open Calendar (Moment)

inductive Value where
  | null
  | bool (b : Bool)
  | number (x : Number)
  | date (m : Moment)
  | text (s : String)

namespace Value

instance : Inhabited Value := ⟨.null⟩

def kindName : Value → String
  | .null => "null"
  | .bool _ => "bool"
  | .number _ => "number"
  | .date _ => "date"
  | .text _ => "string"

def isNull : Value → Bool
  | .null => true
  | _ => false

/-- The reading of a value as a condition: null, zero, NaN and the empty text are not true. -/
def isTruthy : Value → Bool
  | .null => false
  | .bool b => b
  | .number x => !x.isZero && !x.isNaN
  | .date _ => true
  | .text s => !s.isEmpty

/-- The reading of a value as a number. A missing value is not zero, and a date counts as its
milliseconds. -/
def toNumber? : Value → Option Number
  | .null => none
  | .bool b => some (.ofNat (if b then 1 else 0))
  | .number x => some x
  | .date m => some (.ofInt m.millis)
  | .text s => Number.read? (Text.trim s.toList)

def toMoment? : Value → Option Moment
  | .date m => some m
  | .number x => x.truncate?.bind Moment.ofMillis?
  | .text s => Calendar.readMoment? (Text.trim s.toList)
  | _ => none

/-- Equality of values in formulas: numbers as numbers, so NaN is unequal to itself and zero equal to
negative zero. -/
def beq : Value → Value → Bool
  | .null, .null => true
  | .bool a, .bool b => a == b
  | .number a, .number b => a.equals b
  | .date a, .date b => a == b
  | .text a, .text b => a == b
  | _, _ => false

instance : BEq Value := ⟨beq⟩

def compare? : Value → Value → Option Ordering
  | .null, .null => some .eq
  | .bool a, .bool b => some (compare a b)
  | .number a, .number b => a.compare? b
  | .date a, .date b => some (a.compare b)
  | .text a, .text b => some (compare a b)
  | _, _ => none

def kindRank : Value → Nat
  | .null => 0
  | .bool _ => 1
  | .number _ => 2
  | .date _ => 3
  | .text _ => 4

/-- The order in which rows are sorted: by kind, then within the kind. Numbers are in total order. -/
def sortCompare (a b : Value) : Ordering :=
  match a, b with
  | .number x, .number y => x.totalCompare y
  | a, b => (a.compare? b).getD (compare a.kindRank b.kindRank)

def boolText (b : Bool) : String := if b then "true" else "false"

def display : Value → String
  | .null => "null"
  | .bool b => boolText b
  | .number x => x.text
  | .date m => m.cellText
  | .text s => s

def describe : Value → String
  | .text s => "string \"" ++ s ++ "\""
  | v => v.kindName ++ " " ++ v.display

end Value

end DerivedColumns
