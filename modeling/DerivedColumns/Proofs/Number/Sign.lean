import DerivedColumns.Number.Reader
import Mathlib

set_option autoImplicit false

namespace DerivedColumns.Number

open Float.Model Float.Model.UnpackedFloat

inductive Unsigned : UnpackedFloat → Prop
  | infinity : Unsigned (.infinity .positive)
  | notANumber : Unsigned .notANumber
  | zero : Unsigned (.zero .positive)
  | finite (mantissa : Nat) (exponent : Int) (pos : 0 < mantissa) :
    Unsigned (.finite .positive mantissa exponent pos)

theorem unsigned_roundWithAccuracy (spec : Format) (mantissa : Nat) (exponent : Int) (accuracy : Accuracy) :
    Unsigned (roundWithAccuracy spec .positive mantissa exponent accuracy) := by
  unfold roundWithAccuracy
  dsimp only
  split
  · exact .zero
  · exact .finite ..

theorem unsigned_ofNat (spec : Format) (n : Nat) : Unsigned (UnpackedFloat.ofNat spec n) := by
  unfold UnpackedFloat.ofNat UnpackedFloat.ofInt UnpackedFloat.normalize
  split
  · rename_i below
    rw [Int.compare_eq_lt] at below
    omega
  · exact .zero
  · exact unsigned_roundWithAccuracy ..

theorem Unsigned.mul {x y : UnpackedFloat} (hx : Unsigned x) (hy : Unsigned y) (spec : Format) :
    Unsigned (UnpackedFloat.mul spec x y) := by
  cases hx <;> cases hy
  all_goals first
    | exact .notANumber
    | exact .infinity
    | exact .zero
    | exact unsigned_roundWithAccuracy ..

theorem Unsigned.div {x y : UnpackedFloat} (hx : Unsigned x) (hy : Unsigned y) (spec : Format) :
    Unsigned (UnpackedFloat.div spec x y) := by
  cases hx <;> cases hy
  all_goals first
    | exact .notANumber
    | exact .infinity
    | exact .zero
    | exact unsigned_roundWithAccuracy ..

theorem unsigned_ofScientific (spec : Format) (m : Nat) (e : Int) :
    Unsigned (UnpackedFloat.ofScientific spec m e) := by
  unfold UnpackedFloat.ofScientific
  split
  · exact .zero
  split
  · exact .infinity
  split
  · exact .zero
  split
  · exact (Unsigned.finite ..).mul (.finite ..) spec
  · exact (Unsigned.finite ..).div (.finite ..) spec

theorem Unsigned.unpackSign_pack {x : UnpackedFloat} (hx : Unsigned x) (spec : Format) :
    unpackSign (UnpackedFloat.pack spec x) = 0#1 := by
  cases hx with
  | infinity => exact unpackSign_packComponents ..
  | notANumber => exact unpackSign_packComponents ..
  | zero => exact unpackSign_packComponents ..
  | finite m e pos =>
    unfold UnpackedFloat.pack
    dsimp only
    split
    · exact unpackSign_packComponents ..
    split
    · exact unpackSign_packComponents ..
    · exact unpackSign_packComponents ..

theorem unsigned_unpack {spec : Format} {b : BitVec spec.numBits} (sign : unpackSign b = 0#1) :
    Unsigned (UnpackedFloat.unpack spec b) := by
  unfold UnpackedFloat.unpack
  dsimp only
  rw [sign]
  split
  · split
    · exact .infinity
    · exact .notANumber
  split
  · split
    · exact .zero
    · exact .finite ..
  · exact .finite ..

theorem Unsigned.unpack_pack {x : UnpackedFloat} (hx : Unsigned x) :
    Unsigned (Float.Model.pack x).unpack :=
  unsigned_unpack (hx.unpackSign_pack Format.binary64)

theorem Unsigned.isNegative {x : UnpackedFloat} (hx : Unsigned x) :
    (ofFloat (Float.ofModel (Float.Model.pack x))).isNegative = false := by
  have sign := congrArg BitVec.toNat (hx.unpackSign_pack Format.binary64)
  have top : (UnpackedFloat.pack Format.binary64 x).toNat / 2 ^ 63 % 2 = 0 := by
    rw [← Nat.shiftRight_eq_div_pow]
    exact sign
  have size : (UnpackedFloat.pack Format.binary64 x).toNat < 2 ^ 64 := BitVec.isLt _
  change decide (2 ^ 63 ≤ (UnpackedFloat.pack Format.binary64 x).toNat) = false
  rw [decide_eq_false_iff_not]
  omega

theorem isNegative_ofScientific (m : Nat) (s : Bool) (e : Nat) :
    (ofFloat (Float.ofScientific m s e)).isNegative = false := by
  have signs : ∀ b ∈ Float.exactlyRepresentablePowersOfTen,
      @unpackSign Format.binary64 b.toModel.toBits.toBitVec = 0#1 := by decide +kernel
  have power : ∀ b ∈ Float.exactlyRepresentablePowersOfTen, Unsigned b.toModel.unpack :=
    fun b hb => unsigned_unpack (signs b hb)
  unfold Float.ofScientific
  split
  · dsimp only
    have whole : Unsigned m.toUInt64.toFloat.toModel.unpack := (unsigned_ofNat Format.binary64 _).unpack_pack
    split
    · exact (whole.div (power _ (Array.getElem_mem _)) Format.binary64).isNegative
    · exact (whole.mul (power _ (Array.getElem_mem _)) Format.binary64).isNegative
  · exact (unsigned_ofScientific Format.binary64 _ _).isNegative

theorem isNegative_nearest (digits : Nat) (exponent : Int) :
    (nearest digits exponent).isNegative = false := by
  unfold nearest
  dsimp only
  split
  · rfl
  split
  · rfl
  · exact isNegative_ofScientific _ _ _

end DerivedColumns.Number
