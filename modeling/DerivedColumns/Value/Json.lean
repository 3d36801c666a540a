import DerivedColumns.Json.Scan
import DerivedColumns.Json.Writer
import DerivedColumns.Value.Basic

set_option autoImplicit false

namespace DerivedColumns

open Calendar (Moment)
open Json.Scan (Scalar)

/-- How scalars are written as JSON text and read from it, and how moments are written and read as the
contents of JSON strings. -/
structure Codec where
  write : Json → List Char
  read? : List Char → Option Scalar
  writeMoment : Moment → String
  readMoment? : List Char → Option Moment

def Codec.standard : Codec where
  write := Json.chars
  read? := Json.Scan.wholeScalar?
  writeMoment := Moment.iso
  readMoment? := Calendar.readIso?

namespace Value

def toJsonBy (writeMoment : Moment → String) : Value → Json
  | .null => .null
  | .bool b => .bool b
  | .number x => .number x
  | .date m => .string (writeMoment m)
  | .text s => .string s

def toJson (v : Value) : Json := v.toJsonBy Moment.iso

def kinds (readMoment? : List Char → Option Moment) : List (Scalar → Option Value) :=
  [fun | .null => some .null | _ => none,
    fun | .bool b => some (.bool b) | _ => none,
    fun | .number x => some (.number x) | _ => none,
    fun | .string s => (readMoment? s).map .date | _ => none,
    fun | .string s => some (.text (String.ofList s)) | _ => none]

def encode (c : Codec) (v : Value) : List Char := c.write (v.toJsonBy c.writeMoment)

/-- The value that a JSON text holds: that of the first kind that takes it. -/
def decode? (c : Codec) (s : List Char) : Option Value :=
  (c.read? s).bind fun scalar => (kinds c.readMoment?).findSome? fun kind => kind scalar

def ofJson? (s : List Char) : Option Value := decode? .standard s

end Value

end DerivedColumns
