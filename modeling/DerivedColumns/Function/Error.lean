import DerivedColumns.Value.Basic

set_option autoImplicit false

namespace DerivedColumns

inductive EvalError where
  | divisionByZero
  | invalidOperand (op : String) (value : String)
  | unknownFunction (name : String)
  | invalidDate (shown : String)
  | notImplemented (algorithm : String)
  | undefinedVariable (name : String)
  | argument (function : String) (message : String)
deriving DecidableEq

def EvalError.message : EvalError → String
  | .divisionByZero => "Division by zero"
  | .invalidOperand op value => "Invalid operand for '" ++ op ++ "': " ++ value
  | .unknownFunction name => "Unknown function: " ++ name
  | .invalidDate shown => "Invalid date: " ++ shown
  | .notImplemented algorithm => "Not implemented: " ++ algorithm
  | .undefinedVariable name => "Undefined variable: " ++ name
  | .argument function message => "Argument error in " ++ function ++ "(): " ++ message

abbrev Evaluated (α : Type) := Except EvalError α

end DerivedColumns
