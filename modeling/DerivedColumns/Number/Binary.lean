import DerivedColumns.Number.Basic

set_option autoImplicit false

namespace DerivedColumns.Number

structure Binary where
  negative : Bool
  mantissa : Nat
  exponent : Int
deriving DecidableEq

def leastExponent : Int := -1074

def toBinary (x : Number) : Binary :=
  let fraction : Nat := x.magnitude % Nat.pow 2 52
  let power : Nat := x.magnitude / Nat.pow 2 52
  if power = 0 then ⟨x.isNegative, fraction, leastExponent⟩
  else ⟨x.isNegative, Nat.pow 2 52 + fraction, (power : Int) - 1 + leastExponent⟩

def Binary.truncate (b : Binary) : Int :=
  let size := b.mantissa * Nat.pow 2 b.exponent.toNat / Nat.pow 2 (-b.exponent).toNat
  if b.negative then -(size : Int) else size

def truncate? (x : Number) : Option Int :=
  if x.isFinite then some x.toBinary.truncate else none

end DerivedColumns.Number
