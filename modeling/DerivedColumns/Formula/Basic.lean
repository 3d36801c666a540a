import DerivedColumns.Names
import DerivedColumns.Number.Basic

set_option autoImplicit false

namespace DerivedColumns

inductive Atom where
  | number (x : Number)
  | text (s : String)
  | bool (b : Bool)
  | null
  | field (name : String)

inductive BinaryOp where
  | add
  | sub
  | mul
  | div
  | pow
  | eq
  | ne
  | lt
  | le
  | gt
  | ge
  | and
  | or
deriving DecidableEq

inductive UnaryOp where
  | neg
  | plus
  | not
deriving DecidableEq

inductive Aggregation where
  | sum
  | average
  | min
  | max
  | count
  | countUnique
deriving DecidableEq

inductive Formula where
  | atom (a : Atom)
  | binary (op : BinaryOp) (left right : Formula)
  | unary (op : UnaryOp) (operand : Formula)
  | choice (condition yes no : Formula)
  | call (name : String) (args : List Formula)
  | group (keys : List String) (aggregation : Aggregation) (field : Option String)
  | rank (keys : List String) (normalized cumulative : Bool)
  | analysis (algorithm : String) (inputs : List String) (params : ByName Atom)

instance : Inhabited Formula := ⟨.atom .null⟩

/-- How tightly an operator binds; a choice binds at 1. -/
def BinaryOp.precedence : BinaryOp → Nat
  | .or => 2
  | .and => 3
  | .eq | .ne => 4
  | .lt | .le | .gt | .ge => 5
  | .add | .sub => 6
  | .mul | .div => 7
  | .pow => 8

def Aggregation.needsField : Aggregation → Bool
  | .count => false
  | _ => true

namespace Formula

/-- Formulas of this kind have one result for all rows, not one for each row. -/
def isWhole : Formula → Bool
  | .group .. | .rank .. => true
  | _ => false

mutual

def height : Formula → Nat
  | .binary _ l r => max l.height r.height + 1
  | .unary _ x => x.height + 1
  | .choice c t f => max (max c.height t.height) f.height + 1
  | .call _ args => heightAll args + 1
  | _ => 1

def heightAll : List Formula → Nat
  | [] => 0
  | f :: fs => max f.height (heightAll fs)

end

end Formula

end DerivedColumns
