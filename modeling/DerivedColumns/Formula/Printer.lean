import DerivedColumns.Formula.Basic
import DerivedColumns.Number.Layout

set_option autoImplicit false

namespace DerivedColumns

def BinaryOp.symbol : BinaryOp → List Char
  | .add => ['+']
  | .sub => ['-']
  | .mul => ['*']
  | .div => ['/']
  | .pow => ['^']
  | .eq => ['=', '=']
  | .ne => ['!', '=']
  | .lt => ['<']
  | .le => ['<', '=']
  | .gt => ['>']
  | .ge => ['>', '=']
  | .and => ['&', '&']
  | .or => ['|', '|']

def UnaryOp.symbol : UnaryOp → Char
  | .neg => '-'
  | .plus => '+'
  | .not => '!'

def BinaryOp.text (op : BinaryOp) : String := String.ofList op.symbol

def UnaryOp.text (op : UnaryOp) : String := String.ofList [op.symbol]

def Aggregation.text : Aggregation → String
  | .sum => "sum"
  | .average => "avg"
  | .min => "min"
  | .max => "max"
  | .count => "count"
  | .countUnique => "countunique"

namespace Formula

def escape (c : Char) : List Char :=
  if c = '"' then ['\\', '"']
  else if c = '\\' then ['\\', '\\']
  else if c = '\n' then ['\\', 'n']
  else if c = '\t' then ['\\', 't']
  else if c = '\r' then ['\\', 'r']
  else if c = '\x00' then ['\\', '0']
  else [c]

def quoted (s : List Char) : List Char := '"' :: (s.flatMap escape ++ ['"'])

end Formula

def Atom.chars : Atom → List Char
  | .number x => x.chars
  | .text s => Formula.quoted s.toList
  | .bool true => ['t', 'r', 'u', 'e']
  | .bool false => ['f', 'a', 'l', 's', 'e']
  | .null => ['n', 'u', 'l', 'l']
  | .field name => name.toList

namespace Formula

def choicePrecedence : Nat := 1

def unaryPrecedence : Nat := 9

def primaryPrecedence : Nat := 10

/-- How tightly the written form binds. A constant with a minus sign binds like a sign and its
operand. -/
def precedence : Formula → Nat
  | .choice .. => choicePrecedence
  | .binary op _ _ => op.precedence
  | .unary .. => unaryPrecedence
  | .atom (.number x) => if x.isNegative then unaryPrecedence else primaryPrecedence
  | _ => primaryPrecedence

/-- Whether the operands of an operator are written in parentheses. Powers group to the right, the
other operators to the left. -/
def parens (op : BinaryOp) (left right : Formula) : Bool × Bool :=
  let p := op.precedence
  if op = .pow then (left.precedence ≤ p, right.precedence < p)
  else (left.precedence < p, right.precedence ≤ p)

def enclose (parenthesized : Bool) (s : List Char) : List Char :=
  if parenthesized then '(' :: (s ++ [')']) else s

def joined : List (List Char) → List Char
  | [] => []
  | [s] => s
  | s :: t :: more => s ++ ',' :: ' ' :: joined (t :: more)

def namesChars (names : List String) : List Char := joined (names.map String.toList)

def paramChars (params : List (String × Atom)) : List Char :=
  params.flatMap fun (name, a) => ',' :: ' ' :: (name.toList ++ ':' :: ' ' :: a.chars)

mutual

def chars : Formula → List Char
  | .atom a => a.chars
  | .binary op l r =>
    let (left, right) := parens op l r
    enclose left l.chars ++ ' ' :: (op.symbol ++ ' ' :: enclose right r.chars)
  | .unary op x => op.symbol :: enclose (x.precedence < unaryPrecedence) x.chars
  | .choice c t f =>
    enclose (c.precedence ≤ choicePrecedence) c.chars ++
      ' ' :: '?' :: ' ' :: (t.chars ++ ' ' :: ':' :: ' ' :: f.chars)
  | .call name args => name.toList ++ '(' :: (joined (charsAll args) ++ [')'])
  | .group keys aggregation field =>
    "group(by: ".toList ++ namesChars keys ++ ',' :: ' ' :: (aggregation.text.toList ++
      (match field with
        | some name => " of ".toList ++ name.toList
        | none => []) ++ [')'])
  | .rank keys normalized cumulative =>
    "rank(by: ".toList ++ namesChars keys ++
      (if normalized then ", normalized".toList else []) ++
      (if cumulative then ", cumulative".toList else []) ++ [')']
  | .analysis algorithm inputs params =>
    algorithm.toList ++ "(inputs: ".toList ++ namesChars inputs ++ paramChars params.toList ++ [')']

def charsAll : List Formula → List (List Char)
  | [] => []
  | f :: fs => f.chars :: charsAll fs

end

def text (f : Formula) : String := String.ofList f.chars

def byteCount (s : List Char) : Nat := s.foldl (fun size c => size + c.utf8Size) 0

def indentation (depth : Nat) : List Char := List.replicate (4 * depth) ' '

def fits (width depth : Nat) (f : Formula) : Bool := byteCount f.chars ≤ width - 4 * depth

mutual

/-- A formula that does not fit puts each argument of a call and each branch of a choice on a line of
its own; other formulas stay on one line. -/
def layoutAt (width depth : Nat) : Formula → List Char
  | .call name args =>
    if fits width depth (.call name args) || args.isEmpty then chars (.call name args)
    else name.toList ++ '(' :: (layoutArgs width (depth + 1) args ++ '\n' :: (indentation depth ++ [')']))
  | .choice c t f =>
    if fits width depth (.choice c t f) then chars (.choice c t f)
    else
      let line (mark : Char) (branch : List Char) : List Char :=
        '\n' :: (indentation (depth + 1) ++ mark :: ' ' :: branch)
      enclose (c.precedence ≤ choicePrecedence) c.chars ++
        (line '?' (layoutAt width (depth + 1) t) ++ line ':' (layoutAt width (depth + 1) f))
  | f => f.chars

def layoutArgs (width depth : Nat) : List Formula → List Char
  | [] => []
  | [f] => '\n' :: (indentation depth ++ layoutAt width depth f)
  | f :: g :: more =>
    '\n' :: (indentation depth ++ (layoutAt width depth f ++ ',' :: layoutArgs width depth (g :: more)))

end

def layout (width : Nat) (f : Formula) : String := String.ofList (layoutAt width 0 f)

end Formula

end DerivedColumns
