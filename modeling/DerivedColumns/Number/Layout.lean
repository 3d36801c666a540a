import DerivedColumns.Number.Shortest

set_option autoImplicit false

namespace DerivedColumns.Number

structure Layout where
  tie : Tie
  /-- The powers of ten of the leading digit for which no exponent is written; all of them if
  absent. -/
  span : Option (Int × Int)
  wholePoint : Bool
deriving DecidableEq

/-- Every place is written out, a whole number without a point, and of two equally near decimals the
one farther from zero. -/
def Layout.plain : Layout := ⟨.awayFromZero, none, false⟩

/-- An exponent is written below 0.00001 and from 10 ^ 16 on, a whole number ends in `.0`, and of two
equally near decimals the even one is written. -/
def Layout.json : Layout := ⟨.even, some (-5, 15), true⟩

def zeros (n : Nat) : List Char := List.replicate n '0'

def placed (wholePoint : Bool) (digits : List Char) (exponent : Int) : List Char :=
  if 0 ≤ exponent then
    digits ++ zeros exponent.toNat ++ (if wholePoint then ['.', '0'] else [])
  else
    let places := (-exponent).toNat
    if places < digits.length then
      digits.take (digits.length - places) ++ '.' :: digits.drop (digits.length - places)
    else '0' :: '.' :: (zeros (places - digits.length) ++ digits)

def scientific (digits : List Char) (power : Int) : List Char :=
  let sign := if power < 0 then '-' else '+'
  let tail := 'e' :: sign :: Nat.toDigits 10 power.natAbs
  match digits with
  | [] => tail
  | [d] => d :: tail
  | d :: more => d :: '.' :: (more ++ tail)

def Layout.decimal (l : Layout) (d : Decimal) : List Char :=
  let digits := Nat.toDigits 10 d.digits
  let power := d.exponent + digits.length - 1
  match l.span with
  | some (low, high) =>
    if d.digits = 0 ∨ (low ≤ power ∧ power ≤ high) then placed l.wholePoint digits d.exponent
    else scientific digits power
  | none => placed l.wholePoint digits d.exponent

def Layout.finite (l : Layout) (x : Number) : List Char :=
  let b := x.toBinary
  (if b.negative then ['-'] else []) ++ l.decimal (shortest l.tie b)

def chars (x : Number) : List Char :=
  if x.isNaN then ['N', 'a', 'N']
  else if x.isFinite then Layout.plain.finite x
  else if x.isNegative then ['-', 'i', 'n', 'f'] else ['i', 'n', 'f']

def text (x : Number) : String := String.ofList x.chars

end DerivedColumns.Number
