import DerivedColumns.Calendar.Format
import DerivedColumns.Function.Library

set_option autoImplicit false

namespace DerivedColumns

namespace Builtin

open Calendar (Moment)

def numbers (function : String) (args : List Value) : Evaluated (List Number) :=
  (args.filter fun v => !v.isNull).mapM fun v =>
    match v.toNumber? with
    | some x => .ok x
    | none => .error (.invalidOperand (function ++ "()") v.describe)

def sum (args : List Value) : Evaluated Value := do
  return .number (Number.sum (← numbers "sum" args))

def mean (xs : List Number) : Value :=
  if xs.isEmpty then .null else .number ((Number.sum xs).divideBy xs.length)

def average (args : List Value) : Evaluated Value := do
  return mean (← numbers "avg" args)

/-- The number chosen from all by choosing from two at a time; null of none. -/
def chosen (choose : Number → Number → Number) : List Number → Value
  | [] => .null
  | x :: xs => .number (xs.foldl choose x)

def min (args : List Value) : Evaluated Value := do
  return chosen Number.lesser (← numbers "min" args)

def max (args : List Value) : Evaluated Value := do
  return chosen Number.greater (← numbers "max" args)

def count (args : List Value) : Evaluated Value :=
  .ok (.number (.ofNat (args.filter fun v => !v.isNull).length))

def dateArgument (function : String) : List Value → Evaluated Moment
  | .date m :: _ => .ok m
  | v :: _ => .error (.invalidDate v.display)
  | [] => .error (.argument function "expected a date argument")

def textArgument (function : String) (args : List Value) (place : Nat) : Evaluated (Option String) :=
  match args[place]? with
  | none | some .null => .ok none
  | some (.text s) => .ok (some s)
  | some v =>
    .error (.argument function
      ("argument " ++ toString (place + 1) ++ " must be a string, got " ++ v.kindName))

def formatDateBy (format? : Moment → List Char → Option (List Char)) (m : Moment) (pattern : String) :
    Evaluated Value :=
  match format? m (Calendar.translate pattern.toList) with
  | some text => .ok (.text (String.ofList text))
  | none => .error (.argument "formatdate" ("invalid date pattern: " ++ pattern))

def formatDate (format? : Moment → List Char → Option (List Char)) (args : List Value) :
    Evaluated Value := do
  let m ← dateArgument "formatdate" args
  let pattern ← textArgument "formatdate" args 1
  formatDateBy format? m (pattern.getD "yyyy-MM-dd")

/-- The parts of a date that can be asked for, by name. Weekdays are counted from Sunday, which is 0.
A leap second is counted as second 59. -/
def component? (m : Moment) (name : String) : Option Int :=
  match name with
  | "year" => some m.date.year
  | "quarter" => some ((m.date.month - 1) / 3 + 1 : Nat)
  | "month" => some m.date.month
  | "week" => some m.date.week
  | "day" | "date" => some m.date.day
  | "dayofweek" | "weekday" => some m.date.weekday
  | "dayofyear" => some m.date.ordinal
  | "hour" => some m.time.hour
  | "minute" => some m.time.minute
  | "second" => some (Nat.min m.time.second 59)
  | _ => none

def extractDateComponent (args : List Value) : Evaluated Value := do
  let function := "extractdatecomponent"
  let m ← dateArgument function args
  match ← textArgument function args 1 with
  | none => .error (.argument function "expected a component name")
  | some name =>
    let name := Text.lowercase name
    match component? m name with
    | some n => return .number (.ofInt n)
    | none => .error (.argument function ("unknown date component: " ++ name))

/-- Analyses that are known by name only. -/
def reserved : List String :=
  ["pca", "tsne", "umap", "regression", "linearregression", "median", "stddev", "variance", "concat",
    "upper", "lower"]

end Builtin

def Library.standard : Library :=
  let functions := Library.empty
    |>.register "sum" Builtin.sum
    |>.register "avg" Builtin.average
    |>.register "average" Builtin.average
    |>.register "min" Builtin.min
    |>.register "max" Builtin.max
    |>.register "count" Builtin.count
    |>.registerDate "formatdate" (Builtin.formatDate Calendar.Moment.format?)
    |>.registerDate "extractdatecomponent" Builtin.extractDateComponent
  Builtin.reserved.foldl Library.reserve functions

end DerivedColumns
