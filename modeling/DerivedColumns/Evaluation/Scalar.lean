import DerivedColumns.Formula.Printer
import DerivedColumns.Formula.Token
import DerivedColumns.Function.Builtin
import DerivedColumns.Table.Row

set_option autoImplicit false

namespace DerivedColumns

/-- What a formula is evaluated against: the functions that it may call and the fields of a row. -/
structure Scope where
  library : Library
  fields : Fields

namespace Evaluation

def numberOperand (op : String) (v : Value) : Evaluated Number :=
  match v.toNumber? with
  | some x => .ok x
  | none => .error (.invalidOperand op v.describe)

/-- The result of an arithmetic operator, or of a power for any other. -/
def combine (op : BinaryOp) (a b : Number) : Number :=
  let x := a.toFloat
  let y := b.toFloat
  .ofFloat
    (match op with
    | .add => x + y
    | .sub => x - y
    | .mul => x * y
    | .div => x / y
    | _ => Float.pow x y)

def arithmetic (op : BinaryOp) (left right : Value) : Evaluated Value := do
  let a ← numberOperand op.text left
  let b ← numberOperand op.text right
  if op = .div && b.isZero then .error .divisionByZero
  else
    let x := combine op a b
    if x.isFinite then return .number x
    else .error (.invalidOperand op.text
      (a.text ++ " " ++ op.text ++ " " ++ b.text ++ " has no finite result"))

def holds (op : BinaryOp) (order : Option Ordering) : Bool :=
  match op, order with
  | .lt, some .lt => true
  | .le, some .lt | .le, some .eq => true
  | .gt, some .gt => true
  | .ge, some .gt | .ge, some .eq => true
  | _, _ => false

def binary (op : BinaryOp) (left right : Value) : Evaluated Value :=
  match op with
  | .eq => .ok (.bool (left == right))
  | .ne => .ok (.bool !(left == right))
  | .and => .ok (.bool (left.isTruthy && right.isTruthy))
  | .or => .ok (.bool (left.isTruthy || right.isTruthy))
  | .lt | .le | .gt | .ge => .ok (.bool (holds op (left.compare? right)))
  | .add | .sub | .mul | .div | .pow => arithmetic op left right

def unary (op : UnaryOp) (v : Value) : Evaluated Value :=
  match op with
  | .neg => (numberOperand op.text v).map fun x => .number (-x)
  | .plus => (numberOperand op.text v).map .number
  | .not => .ok (.bool !v.isTruthy)

def atom (fields : Fields) : Atom → Evaluated Value
  | .field name =>
    match fields.get? name with
    | some v => .ok v
    | none => .error (.undefinedVariable name)
  | .number x => .ok (.number x)
  | .text s => .ok (.text s)
  | .bool b => .ok (.bool b)
  | .null => .ok .null

/-- The first argument of a date function: a text that names a field of the row stands for the field,
and the value must be a date or read as one. -/
def dateArgument (fields : Fields) (v : Value) : Evaluated Value :=
  let v := match v with
    | .text s => if Formula.isWord s.toList then (fields.get? s).getD v else v
    | v => v
  match v.toMoment? with
  | some m => .ok (.date m)
  | none => .error (.invalidDate v.display)

def arguments (scope : Scope) (f : Function) (args : List Value) : Evaluated (List Value) :=
  match args with
  | [] => .ok []
  | v :: more => if f.takesDate then (dateArgument scope.fields v).map (· :: more) else .ok (v :: more)

mutual

def scalar (scope : Scope) : Formula → Evaluated Value
  | .atom a => atom scope.fields a
  | .binary op l r => do
    let left ← scalar scope l
    let right ← scalar scope r
    binary op left right
  | .unary op x => do
    let v ← scalar scope x
    unary op v
  | .choice c t f => do
    let condition ← scalar scope c
    if condition.isTruthy then scalar scope t else scalar scope f
  | .call name args =>
    match scope.library.get? name with
    | none => .error (.unknownFunction name)
    | some f => do
      let values ← scalars scope args
      let values ← arguments scope f values
      Library.call name f values
  | .analysis algorithm _ _ => .error (.notImplemented algorithm)
  | f => .error (.invalidOperand "scalar" ("whole-dataset expression " ++ f.text))

def scalars (scope : Scope) : List Formula → Evaluated (List Value)
  | [] => .ok []
  | f :: fs => do
    let v ← scalar scope f
    let vs ← scalars scope fs
    return v :: vs

end

end Evaluation

def Evaluation.ofFormula (f : Formula) (fields : Fields) : Evaluated Value :=
  Evaluation.scalar ⟨Library.standard, fields⟩ f

end DerivedColumns
