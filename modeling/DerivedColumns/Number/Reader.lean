import DerivedColumns.Number.Basic

set_option autoImplicit false

namespace DerivedColumns.Number

structure Numeral where
  whole : List Char
  fraction : List Char
  exponent : Int

def ofDigits (digits : List Char) : Nat :=
  digits.foldl (fun n c => 10 * n + (c.toNat - '0'.toNat)) 0

/-- The number nearest to `digits · 10 ^ exponent`. Outside the range of finite numbers the answer is
known from the size alone. -/
def nearest (digits : Nat) (exponent : Int) : Number :=
  let size := (Nat.toDigits 10 digits).length + exponent
  if digits = 0 ∨ size < -330 then ⟨0⟩
  else if 310 < size then infinity
  else ofFloat (Float.ofScientific digits (exponent < 0) exponent.natAbs)

def Numeral.digits (n : Numeral) : Nat := ofDigits (n.whole ++ n.fraction)

def Numeral.denote (near : Nat → Int → Number) (n : Numeral) : Number :=
  near n.digits (n.exponent - n.fraction.length)

def Numeral.toNumber (n : Numeral) : Number := n.denote nearest

def nearestSingle (digits : Nat) (exponent : Int) : Number :=
  let size := (Nat.toDigits 10 digits).length + exponent
  if digits = 0 ∨ size < -60 then ⟨0⟩
  else if 50 < size then infinity
  else ofFloat (Float32.ofScientific digits (exponent < 0) exponent.natAbs).toFloat

def spanDigits (s : List Char) : List Char × List Char := (s.takeWhile Char.isDigit, s.dropWhile Char.isDigit)

def exponent? : List Char → Option (Int × List Char)
  | [] => none
  | mark :: s =>
    if mark = 'e' ∨ mark = 'E' then
      let (negative, s) := match s with
        | '-' :: s => (true, s)
        | '+' :: s => (false, s)
        | s => (false, s)
      match spanDigits s with
      | ([], _) => none
      | (ds, rest) => some (if negative then -(ofDigits ds : Int) else ofDigits ds, rest)
    else none

def spanExponent (s : List Char) : Int × List Char := (exponent? s).getD (0, s)

/-- A numeral that is all of `s`. Digits may be missing on one side of the point, but not on both. -/
def numeral? (s : List Char) : Option Numeral :=
  let (whole, s) := spanDigits s
  let (fraction, s) := match s with
    | '.' :: s => spanDigits s
    | s => ([], s)
  if whole.isEmpty && fraction.isEmpty then none
  else
    match spanExponent s with
    | (e, []) => some ⟨whole, fraction, e⟩
    | _ => none

inductive Magnitude where
  | infinite
  | undefined
  | numeral (n : Numeral)

def magnitude? (s : List Char) : Option Magnitude :=
  let word := String.ofList (s.map Char.toLower)
  if word = "inf" ∨ word = "infinity" then some .infinite
  else if word = "nan" then some .undefined
  else (numeral? s).map .numeral

def signed? (s : List Char) : Option (Bool × Magnitude) :=
  match s with
  | '-' :: s => (magnitude? s).map (true, ·)
  | '+' :: s => (magnitude? s).map (false, ·)
  | s => (magnitude? s).map (false, ·)

def Magnitude.toNumber (near : Nat → Int → Number) : Magnitude → Number
  | .infinite => infinity
  | .undefined => nan
  | .numeral n => n.denote near

def readBy? (near : Nat → Int → Number) (s : List Char) : Option Number :=
  (signed? s).map fun (negative, m) => if negative then -m.toNumber near else m.toNumber near

def read? (s : List Char) : Option Number := readBy? nearest s

def readSingle? (s : List Char) : Option Number := readBy? nearestSingle s

end DerivedColumns.Number
