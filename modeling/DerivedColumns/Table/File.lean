import DerivedColumns.Table.Csv

set_option autoImplicit false

namespace DerivedColumns

/-- What stands after the last point of a file name, if anything stands before it. -/
def extension? (file : String) : Option String :=
  let reversed := file.toList.reverse
  match reversed.dropWhile (· ≠ '.') with
  | [] => none
  | [_] => none
  | _ => some (String.ofList (reversed.takeWhile (· ≠ '.')).reverse)

inductive TableFormat where
  | text
  | typed
deriving DecidableEq

def TableFormat.ofExtension? (extension : String) : Option TableFormat :=
  if extension = "csv" then some .text
  else if extension = "parquet" ∨ extension = "ipc" ∨ extension = "arrow" then some .typed
  else none

def isSupportedFile (file : String) : Bool :=
  ((extension? file).bind TableFormat.ofExtension?).isSome

inductive FileContent where
  | text (s : String)
  | typed (columns : List Column)

def columnsOfFile (file : String) (content : FileContent) : Except TableError (List Column) :=
  match extension? file with
  | none => .error .noExtension
  | some extension =>
    match TableFormat.ofExtension? extension, content with
    | none, _ => .error (.unsupportedExtension extension)
    | some .text, .text s =>
      match Csv.columns? s with
      | some columns => .ok columns
      | none => .error .malformed
    | some .typed, .typed columns => .ok columns
    | some _, _ => .error .malformed

def Dataset.ofFile (file : String) (content : FileContent) (idColumn : Option String) :
    Except TableError Dataset := do
  Dataset.ofColumns (← columnsOfFile file content) idColumn

end DerivedColumns
