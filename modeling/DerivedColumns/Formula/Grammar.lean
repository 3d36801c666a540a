import DerivedColumns.Formula.Token
import DerivedColumns.Text.Case

set_option autoImplicit false

/-!
From loosest to tightest: choice, the binary operators by their precedence, powers, signs, and at the
bottom constants, fields, calls and parentheses. Parentheses, arguments, the branches of a choice,
signed operands and exponents are read one nesting level deeper, and there are only finitely many
levels. Operators of one precedence may follow each other only so far as the formula stays low.
-/

namespace DerivedColumns.Formula

def maxNesting : Nat := 48

def maxHeight : Nat := 256

/-- The readers of one nesting level. -/
structure Grammar where
  choice : Reader Formula
  power : Reader Formula
  signed : Reader Formula

namespace Grammar

def exhausted : Grammar := ⟨.tooDeep, .tooDeep, .tooDeep⟩

def operand (p : Reader Formula) : Reader Formula :=
  Reader.cut <| Reader.wanting (.phrase "expression") <| Reader.within "operand" p

def operatorsAt : Nat → List BinaryOp
  | 2 => [.or]
  | 3 => [.and]
  | 4 => [.eq, .ne]
  | 5 => [.le, .ge, .lt, .gt]
  | 6 => [.add, .sub]
  | 7 => [.mul, .div]
  | _ => []

def foldLeft (first : Formula) (more : List (BinaryOp × Formula)) : Formula :=
  more.foldl (fun left (op, right) => .binary op left right) first

/-- The height that the chain can reach. -/
def chainHeight (first : Formula) (more : List (BinaryOp × Formula)) : Nat :=
  (more.map fun e => e.2.height).foldl max first.height + more.length

/-- Operands joined by operators of one precedence, grouped to the left. -/
def chain (ops : List BinaryOp) (p : Reader Formula) : Reader Formula := do
  let first ← p
  let more ← Reader.many do
    skip
    let op ← operator ops
    let right ← operand p
    return (op, right)
  if maxHeight < chainHeight first more then Reader.tooDeep else return foldLeft first more

def chains : List Nat → Reader Formula → Reader Formula
  | [], p => p
  | level :: tighter, p => chain (operatorsAt level) (chains tighter p)

def parenthesized (deeper : Grammar) : Reader Formula := do
  Reader.char '('
  Reader.cut do
    let f ← Reader.wanting (.phrase "expression") <|
      Reader.within "parenthesized expression" deeper.choice
    skip
    Reader.wanting (.symbol ')') (Reader.char ')')
    return f

def arguments (deeper : Grammar) : Reader (List Formula) := do
  Reader.char '('
  Reader.within "argument list" <| Reader.cut do
    let args ← Reader.optional <| Reader.separated deeper.choice do
      skip
      Reader.char ','
    skip
    Reader.wanting (.symbol ')') (Reader.char ')')
    return args.getD []

def keyword? (name : String) : Option Atom :=
  match Text.lowercase name with
  | "true" => some (.bool true)
  | "false" => some (.bool false)
  | "null" => some .null
  | _ => none

/-- A call, a constant or the reading of a field. -/
def named (deeper : Grammar) : Reader Formula := do
  let name ← word
  let args ← Reader.optional do
    skip
    arguments deeper
  match args with
  | some args => return .call name args
  | none => return .atom ((keyword? name).getD (.field name))

def primary (deeper : Grammar) : Reader Formula := do
  skip
  Reader.orElse (parenthesized deeper) <|
    Reader.orElse (do return .atom (.number (← number))) <|
      Reader.orElse (do return .atom (.text (← textConstant))) (named deeper)

def signedAbove (deeper : Grammar) : Reader Formula := do
  let op ← Reader.optional do
    skip
    sign
  match op with
  | some op => return .unary op (← operand deeper.signed)
  | none => primary deeper

def powerAbove (deeper : Grammar) : Reader Formula := do
  let base ← signedAbove deeper
  let exponent ← Reader.optional do
    skip
    Reader.char '^'
    operand deeper.power
  match exponent with
  | some e => return .binary .pow base e
  | none => return base

def operation (deeper : Grammar) : Reader Formula := chains [2, 3, 4, 5, 6, 7] (powerAbove deeper)

def branches (deeper : Grammar) : Reader (Formula × Formula) := do
  skip
  Reader.char '?'
  Reader.cut do
    let yes ← Reader.wanting (.phrase "expression") <| Reader.within "ternary" deeper.choice
    skip
    Reader.wanting (.symbol ':') (Reader.char ':')
    let no ← deeper.choice
    return (yes, no)

def choiceAbove (deeper : Grammar) : Reader Formula := do
  let condition ← operation deeper
  match ← Reader.optional (branches deeper) with
  | some (yes, no) => return .choice condition yes no
  | none => return condition

def above (deeper : Grammar) : Grammar := ⟨choiceAbove deeper, powerAbove deeper, signedAbove deeper⟩

def ofLevels : Nat → Grammar
  | 0 => exhausted
  | n + 1 => above (ofLevels n)

end Grammar

end DerivedColumns.Formula
