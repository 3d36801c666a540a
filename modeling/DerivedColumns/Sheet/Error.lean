import DerivedColumns.Evaluation.Scalar
import DerivedColumns.Formula.Parse
import DerivedColumns.Graph.Order
import DerivedColumns.Text.Quoted

set_option autoImplicit false

namespace DerivedColumns

inductive SheetError where
  | duplicateColumn (name : String)
  | unknownCalculation (name : String)
  | invalidColumnName (name : String)
  | cycle (c : Cycle)
deriving DecidableEq

def SheetError.message : SheetError → String
  | .duplicateColumn name => "Duplicate column name: " ++ name
  | .unknownCalculation name => "Unknown calculation: " ++ name
  | .invalidColumnName name => "Invalid column name: " ++ Text.quoted name
  | .cycle c => c.message

inductive Failure where
  | parsing (e : ParseError)
  | evaluation (e : EvalError)
  | calculation (e : SheetError)
deriving DecidableEq

def Failure.message : Failure → String
  | .parsing e => "Parse error: " ++ e.text
  | .evaluation e => "Eval error: " ++ e.message
  | .calculation e => "Calculation error: " ++ e.message

def evaluateText (text : String) (fields : Fields) : Except Failure Value := do
  let f ← (Formula.parse text).mapError .parsing
  (Evaluation.ofFormula f fields).mapError .evaluation

end DerivedColumns
