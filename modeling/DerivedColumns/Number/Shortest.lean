import DerivedColumns.Number.Binary

set_option autoImplicit false

/-!
Among the decimals that round to a given binary number, the ones with the fewest digits, and of
those the nearest. All arithmetic is on whole numbers: the interval of reals that round to the
number is scaled to a common denominator, and for 1, 2, 3, … digits the two neighbours of the
number on that decimal grid are tested.
-/

namespace DerivedColumns.Number

inductive Tie where
  | even
  | awayFromZero
deriving DecidableEq

structure Decimal where
  digits : Nat
  exponent : Int
deriving DecidableEq

def digitCount (n : Nat) : Nat := (Nat.toDigits 10 n).length

/-- The reals that round to one positive number, all over one denominator. -/
structure Interval where
  low : Nat
  middle : Nat
  high : Nat
  denominator : Nat
  closed : Bool

/-- The neighbour below is only half as far as the one above when the mantissa is a power of two. -/
def Interval.around (b : Binary) : Interval :=
  let scale := Nat.pow 2 (b.exponent - 2).toNat
  let below := if b.mantissa = Nat.pow 2 52 ∧ leastExponent < b.exponent then 1 else 2
  { low := (4 * b.mantissa - below) * scale
    middle := 4 * b.mantissa * scale
    high := (4 * b.mantissa + 2) * scale
    denominator := Nat.pow 2 (2 - b.exponent).toNat
    closed := b.mantissa % 2 = 0 }

def Interval.magnitude (i : Interval) : Int :=
  if i.denominator ≤ i.middle then digitCount (i.middle / i.denominator)
  else 1 - (digitCount ((i.denominator - 1) / i.middle) : Int)

def Interval.level (i : Interval) (n : Nat) (p : Int) : Nat := n * Nat.pow 10 p.toNat * i.denominator

def Interval.lift (p : Int) (numerator : Nat) : Nat := numerator * Nat.pow 10 (-p).toNat

def Interval.holds (i : Interval) (n : Nat) (p : Int) : Bool :=
  let v := i.level n p
  if i.closed then Interval.lift p i.low ≤ v && v ≤ Interval.lift p i.high
  else Interval.lift p i.low < v && v < Interval.lift p i.high

/-- The neighbour of the number on the grid of multiples of `10 ^ p` that rounds to it, the nearer
one if both do. -/
def Interval.onGrid? (i : Interval) (tie : Tie) (p : Int) : Option Decimal :=
  let below := Interval.lift p i.middle / i.level 1 p
  match i.holds below p, i.holds (below + 1) p with
  | false, false => none
  | true, false => some ⟨below, p⟩
  | false, true => some ⟨below + 1, p⟩
  | true, true =>
    match compare (2 * Interval.lift p i.middle) (i.level (2 * below + 1) p) with
    | .lt => some ⟨below, p⟩
    | .gt => some ⟨below + 1, p⟩
    | .eq =>
      match tie with
      | .even => some ⟨below + below % 2, p⟩
      | .awayFromZero => some ⟨below + 1, p⟩

def Decimal.strip (d : Decimal) : Decimal :=
  if h : d.digits ≠ 0 ∧ d.digits % 10 = 0 then Decimal.strip ⟨d.digits / 10, d.exponent + 1⟩ else d
termination_by d.digits
decreasing_by omega

def Binary.exactDecimal (b : Binary) : Decimal :=
  if 0 ≤ b.exponent then ⟨b.mantissa * Nat.pow 2 b.exponent.toNat, 0⟩
  else ⟨b.mantissa * Nat.pow 5 (-b.exponent).toNat, b.exponent⟩

/-- Seventeen digits always tell two numbers apart, so the exact value is never needed. -/
def shortest (tie : Tie) (b : Binary) : Decimal :=
  if b.mantissa = 0 then ⟨0, 0⟩
  else
    let i := Interval.around b
    let k := i.magnitude
    let found := (List.range 17).findSome? fun (n : Nat) => i.onGrid? tie (k - ((n : Int) + 1))
    (found.getD b.exactDecimal).strip

end DerivedColumns.Number
