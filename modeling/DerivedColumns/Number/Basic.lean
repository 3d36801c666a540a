set_option autoImplicit false

namespace DerivedColumns

/-- A sign bit, eleven bits of exponent and fifty-two bits of fraction. -/
structure Number where
  bits : UInt64
deriving DecidableEq

namespace Number

instance : Inhabited Number := ⟨⟨0⟩⟩

def ofFloat (x : Float) : Number := ⟨x.toBits⟩

def toFloat (x : Number) : Float := Float.ofBits x.bits

def ofNat (n : Nat) : Number := ofFloat (Float.ofNat n)

def ofInt (n : Int) : Number := ofFloat (Float.ofInt n)

/-- The bits without the sign bit. They grow with the absolute value, to infinity and NaN. -/
def magnitude (x : Number) : Nat := x.bits.toNat % Nat.pow 2 63

def infiniteMagnitude : Nat := 2047 * Nat.pow 2 52

def isNegative (x : Number) : Bool := Nat.pow 2 63 ≤ x.bits.toNat

def isZero (x : Number) : Bool := x.magnitude = 0

def isFinite (x : Number) : Bool := x.magnitude < infiniteMagnitude

def isNaN (x : Number) : Bool := infiniteMagnitude < x.magnitude

def infinity : Number := ⟨0x7FF0000000000000⟩

def nan : Number := ⟨0x7FF8000000000000⟩

/-- The other sign, of zero and NaN too. -/
instance : Neg Number := ⟨fun x => ⟨x.bits ^^^ 0x8000000000000000⟩⟩

/-- The sum. A NaN stands, the left one of two, and infinities of different signs have the negative
NaN for a sum. -/
instance : Add Number := ⟨fun x y =>
  if x.isNaN then x
  else if y.isNaN then y
  else
    let z := ofFloat (x.toFloat + y.toFloat)
    if z.isNaN then -nan else z⟩

def divideBy (x : Number) (n : Nat) : Number :=
  if x.isNaN then x else ofFloat (x.toFloat / Float.ofNat n)

def valueKey (x : Number) : Int := if x.isNegative then -(x.magnitude : Int) else x.magnitude

def compare? (x y : Number) : Option Ordering :=
  if x.isNaN || y.isNaN then none else some (compare x.valueKey y.valueKey)

def equals (x y : Number) : Bool := compare? x y == some .eq

/-- A key whose order is the total order of IEEE 754: negative NaN, negative numbers, negative zero,
zero, positive numbers, NaN. -/
def orderKey (x : Number) : Int :=
  if x.isNegative then -(x.magnitude : Int) - 1 else x.magnitude

def totalCompare (x y : Number) : Ordering := compare x.orderKey y.orderKey

/-- The lesser of two numbers; NaN only if both are. -/
def lesser (x y : Number) : Number :=
  if x.isNaN then y else if compare? y x == some .lt then y else x

def greater (x y : Number) : Number :=
  if x.isNaN then y else if compare? x y == some .lt then y else x

/-- The sum from left to right. Of no numbers it is negative zero, which adding leaves out. -/
def sum (xs : List Number) : Number := xs.foldl (· + ·) (-⟨0⟩)

end Number

end DerivedColumns
