import DerivedColumns.Text.Blank

set_option autoImplicit false

namespace DerivedColumns

structure FormulaSpec where
  column : String
  formula : String
deriving DecidableEq

inductive SpecFault where
  | missingColumn
  | missingFormula (column : String)
deriving DecidableEq

def SpecFault.message : SpecFault → String
  | .missingColumn => "Formula is missing a column name"
  | .missingFormula column => "Column '" ++ column ++ "' is missing a formula"

/-- What is wrong on a line; lines are counted from 1. -/
structure LineFault where
  line : Nat
  fault : SpecFault
deriving DecidableEq

def LineFault.message (f : LineFault) : String := "line " ++ toString f.line ++ ": " ++ f.fault.message

inductive FormulaFileError where
  | unreadable
  | invalid (f : LineFault)
deriving DecidableEq

def FormulaFileError.message (path : String) : FormulaFileError → String
  | .unreadable => "Reading formulas from " ++ path
  | .invalid f => "Parsing " ++ path ++ ": " ++ f.message

namespace FormulaSpec

def ofLine (line : List Char) : Except SpecFault FormulaSpec :=
  let column := Text.trim (line.takeWhile (· ≠ '='))
  let formula := Text.trim ((line.dropWhile (· ≠ '=')).drop 1)
  if column.isEmpty then .error .missingColumn
  else if formula.isEmpty then .error (.missingFormula (String.ofList column))
  else .ok ⟨String.ofList column, String.ofList formula⟩

def parse (text : String) : Except SpecFault FormulaSpec := ofLine text.toList

end FormulaSpec

namespace FormulaFile

/-- The lines of a text. What follows the last line end is a line unless it is empty. -/
def lines : List Char → List (List Char)
  | [] => []
  | c :: s =>
    if c = '\n' then [] :: lines s
    else (c :: s.takeWhile (· ≠ '\n')) :: lines ((s.dropWhile (· ≠ '\n')).drop 1)
termination_by s => s.length
decreasing_by
  · simp
  · have := (List.dropWhile_sublist (l := s) (· ≠ '\n')).length_le
    simp only [List.length_drop, List.length_cons]; omega

def isIdle (line : List Char) : Bool :=
  match Text.trim line with
  | [] => true
  | c :: _ => c = '#'

def specsOf (number : Nat) : List (List Char) → Except LineFault (List FormulaSpec)
  | [] => .ok []
  | line :: more =>
    if isIdle line then specsOf (number + 1) more
    else
      match FormulaSpec.ofLine line with
      | .error fault => .error ⟨number, fault⟩
      | .ok spec => (specsOf (number + 1) more).map (spec :: ·)

def parse (text : String) : Except LineFault (List FormulaSpec) := specsOf 1 (lines text.toList)

def ofFile (text : Option String) : Except FormulaFileError (List FormulaSpec) :=
  match text with
  | none => .error .unreadable
  | some text => (parse text).mapError .invalid

end FormulaFile

end DerivedColumns
