import DerivedColumns.Proofs.Number.Scientific

set_option autoImplicit false

namespace DerivedColumns.Number

open Float.Model Float.Model.UnpackedFloat

section Word

variable (w : BitVec Format.binary64.numBits)

theorem toNat_unpackMantissa : (unpackMantissa w).toNat = w.toNat % 2 ^ 52 := by
  unfold unpackMantissa
  rw [BitVec.toNat_cast, BitVec.extractLsb_toNat, Nat.shiftRight_zero]
  rfl

theorem toNat_unpackExponent : (unpackExponent w).toNat = w.toNat / 2 ^ 52 % 2 ^ 11 := by
  unfold unpackExponent
  rw [BitVec.toNat_cast, BitVec.extractLsb_toNat, Nat.shiftRight_eq_div_pow]
  rfl

theorem toNat_unpackSign : (unpackSign w).toNat = w.toNat / 2 ^ 63 % 2 := by
  unfold unpackSign
  rw [BitVec.toNat_cast, BitVec.extractLsb_toNat, Nat.shiftRight_eq_div_pow]
  rfl

theorem toBitVec_unpackSign :
    (Sign.ofBitVec (unpackSign w)).toBitVec.toNat = w.toNat / 2 ^ 63 := by
  have bit := toNat_unpackSign w
  have size : w.toNat < 2 ^ 64 := w.isLt
  unfold Sign.ofBitVec
  split
  · rename_i zero
    rw [zero] at bit
    change 0 = _ at bit
    change 0 = _
    omega
  · rename_i one
    have : (unpackSign w).toNat ≠ 0 := fun h => one (BitVec.eq_of_toNat_eq h)
    change 1 = _
    omega

theorem packComponents_unpack : packComponents Format.binary64 (Sign.ofBitVec (unpackSign w))
    (unpackExponent w) (unpackMantissa w) = w := by
  apply BitVec.eq_of_toNat_eq
  have size : w.toNat < 2 ^ 64 := w.isLt
  refine (toNat_packComponents _ _ _).trans ?_
  rw [toBitVec_unpackSign, toNat_unpackExponent, toNat_unpackMantissa]
  omega

theorem toNat_implicit (m : BitVec 52) : (1#1 ++ m).toNat = 2 ^ 52 + m.toNat := by
  rw [BitVec.toNat_append, ← Nat.shiftLeft_add_eq_or_of_lt m.isLt, Nat.shiftLeft_eq]
  rfl

theorem pack_unpack (proper : unpack Format.binary64 w ≠ .notANumber) :
    UnpackedFloat.pack Format.binary64 (unpack Format.binary64 w) = w := by
  have whole := packComponents_unpack w
  have exponentSize : (unpackExponent w).toNat < 2 ^ 11 := (unpackExponent w).isLt
  have mantissaSize : (unpackMantissa w).toNat < 2 ^ 52 := (unpackMantissa w).isLt
  unfold UnpackedFloat.unpack at proper ⊢
  dsimp only at proper ⊢
  split
  · rename_i top
    split
    · rename_i none
      rw [top, none] at whole
      exact whole
    · rename_i some
      rw [if_pos top, if_neg some] at proper
      exact absurd rfl proper
  · rename_i below
    split
    · rename_i bottom
      split
      · rename_i none
        rw [bottom, none] at whole
        exact whole
      · rename_i some
        have few : (unpackMantissa w).toNat.log2 < 52 := by
          refine (Nat.log2_lt fun zero => some ?_).2 mantissaSize
          exact BitVec.eq_of_toNat_eq zero
        unfold UnpackedFloat.pack
        dsimp only
        rw [bottom] at whole ⊢
        rw [Int.add_assoc _ _ (Format.binary64.mantissaBitsWithoutImplicit : ℤ), exponentBias_add,
          if_neg (by norm_num), if_neg (by simp only [Format.mantissaBits]; omega),
          BitVec.ofNat_toNat, BitVec.setWidth_eq]
        exact whole
    · rename_i some
      have positive : (unpackExponent w).toNat ≠ 0 := fun zero => some (BitVec.eq_of_toNat_eq zero)
      have small : (unpackExponent w).toNat ≠ 2047 := fun top => below (BitVec.eq_of_toNat_eq top)
      have full : (1#1 ++ unpackMantissa w).toNat.log2 = 52 := by
        rw [toNat_implicit]
        exact log2_eq_52 (Nat.le_add_right _ _) (by omega)
      have biased : (((unpackExponent w).toNat : ℤ) - 1075 + 1075).toNat = (unpackExponent w).toNat := by
        omega
      unfold UnpackedFloat.pack
      dsimp only
      rw [Int.add_assoc _ _ (Format.binary64.mantissaBitsWithoutImplicit : ℤ), exponentBias_add, biased,
        if_neg (by norm_num; omega), if_pos (by rw [full]; rfl)]
      have mantissa : BitVec.ofNat 52 (1#1 ++ unpackMantissa w).toNat = unpackMantissa w := by
        apply BitVec.eq_of_toNat_eq
        rw [BitVec.toNat_ofNat, toNat_implicit]
        omega
      have exponent : BitVec.ofNat 11 (unpackExponent w).toNat = unpackExponent w := by
        rw [BitVec.ofNat_toNat, BitVec.setWidth_eq]
      rw [exponent, mantissa]
      exact whole

theorem canonical_unpack {s : Sign} {m : ℕ} {e : ℤ} {pos : 0 < m}
    (h : unpack Format.binary64 w = .finite s m e pos) : Binary.Canonical ⟨false, m, e⟩ := by
  have exponentSize : (unpackExponent w).toNat < 2 ^ 11 := (unpackExponent w).isLt
  have mantissaSize : (unpackMantissa w).toNat < 2 ^ 52 := (unpackMantissa w).isLt
  unfold UnpackedFloat.unpack at h
  dsimp only at h
  rw [exponentBias_add] at h
  split at h
  · split at h <;> cases h
  · rename_i below
    split at h
    · rename_i bottom
      split at h
      · cases h
      · cases h
        rw [bottom]
        exact ⟨by dsimp only; omega, Int.le_of_eq rfl, by change (-1074 : ℤ) ≤ 971; decide, .inr rfl⟩
    · rename_i some
      have positive : (unpackExponent w).toNat ≠ 0 := fun zero => some (BitVec.eq_of_toNat_eq zero)
      have small : (unpackExponent w).toNat ≠ 2047 := fun top => below (BitVec.eq_of_toNat_eq top)
      cases h
      rw [toNat_implicit]
      exact ⟨by dsimp only; omega, by dsimp only; omega, by dsimp only; omega,
        .inl (Nat.le_add_right _ _)⟩

theorem isFinite_unpack : (unpack Format.binary64 w).isFinite = true ↔ w.toNat / 2 ^ 52 % 2 ^ 11 ≠ 2047 := by
  have exponent := toNat_unpackExponent w
  have top : unpackExponent w = -1#11 ↔ w.toNat / 2 ^ 52 % 2 ^ 11 = 2047 := by
    rw [← exponent]
    exact ⟨fun h => by rw [h]; rfl, fun h => BitVec.eq_of_toNat_eq h⟩
  rw [← not_iff_not, not_not, ← top]
  unfold UnpackedFloat.unpack
  dsimp only
  split
  · rename_i all
    refine iff_of_true ?_ all
    split <;> exact Bool.false_ne_true
  · rename_i below
    refine iff_of_false (fun no => no ?_) below
    split
    · split <;> rfl
    · rfl

theorem unpack_eq_notANumber (h : unpack Format.binary64 w = .notANumber) :
    2047 * 2 ^ 52 < w.toNat % 2 ^ 63 := by
  have infinite : ¬ (unpack Format.binary64 w).isFinite = true := by
    rw [h]
    exact Bool.false_ne_true
  rw [isFinite_unpack, not_not] at infinite
  have some : w.toNat % 2 ^ 52 ≠ 0 := by
    intro none
    rw [← toNat_unpackMantissa] at none
    have top : unpackExponent w = -1#11 := BitVec.eq_of_toNat_eq ((toNat_unpackExponent w).trans infinite)
    unfold UnpackedFloat.unpack at h
    dsimp only at h
    rw [if_pos top, if_pos (BitVec.eq_of_toNat_eq none)] at h
    cases h
  omega

end Word

variable {x : Number}

def unpacked (x : Number) : UnpackedFloat := unpack Format.binary64 x.bits.toBitVec

theorem unpack_toFloat (proper : x.isNaN = false) : x.toFloat.toModel.unpack = x.unpacked := by
  have number : x.unpacked ≠ .notANumber := by
    intro h
    have large := unpack_eq_notANumber _ h
    have : ¬ 2047 * 2 ^ 52 < x.bits.toNat % 2 ^ 63 := of_decide_eq_false proper
    exact this large
  change unpack Format.binary64 (UnpackedFloat.pack Format.binary64 x.unpacked) = x.unpacked
  unfold unpacked
  rw [pack_unpack _ number]

theorem isFinite_unpacked (x : Number) : x.unpacked.isFinite = x.isFinite := by
  rw [Bool.eq_iff_iff]
  refine (isFinite_unpack _).trans ?_
  have size : x.bits.toNat < 2 ^ 64 := x.bits.toNat_lt
  have finite : x.isFinite = true ↔ x.bits.toNat % 2 ^ 63 < 2047 * 2 ^ 52 := decide_eq_true_iff
  rw [finite]
  change x.bits.toNat / 2 ^ 52 % 2 ^ 11 ≠ 2047 ↔ _
  omega

def Fits : UnpackedFloat → Prop
  | .zero _ => True
  | .finite _ m e _ => Binary.Canonical ⟨false, m, e⟩
  | _ => False

theorem fits_unpacked (finite : x.isFinite = true) : Fits x.unpacked := by
  rw [← isFinite_unpacked] at finite
  cases h : x.unpacked with
  | infinity s => rw [h] at finite; cases finite
  | notANumber => rw [h] at finite; cases finite
  | zero s => trivial
  | finite s m e pos => exact canonical_unpack _ h

theorem toNat_pack_signed (s : Sign) (m : ℕ) (e : ℤ) (pos : 0 < m) :
    (UnpackedFloat.pack Format.binary64 (.finite s m e pos)).toNat = s.toBitVec.toNat * 2 ^ 63 +
      (UnpackedFloat.pack Format.binary64 (.finite .positive m e pos)).toNat := by
  have signed : ∀ (e : BitVec 11) (m : BitVec 52), (packComponents Format.binary64 s e m).toNat =
      s.toBitVec.toNat * 2 ^ 63 + (packComponents Format.binary64 .positive e m).toNat := by
    intro e m
    have positive : Sign.toBitVec .positive = 0#1 := rfl
    rw [toNat_packComponents, toNat_packComponents, positive, BitVec.toNat_zero]
    omega
  unfold UnpackedFloat.pack
  dsimp only
  split
  · exact signed _ _
  · split
    · exact signed _ _
    · exact signed _ _

def ofUnpacked (u : UnpackedFloat) : Number := ofFloat (.ofModel (.pack u))

theorem isFinite_ofUnpacked {u : UnpackedFloat} (fits : Fits u) : (ofUnpacked u).isFinite = true := by
  have finite : (ofUnpacked u).isFinite = true ↔
      (UnpackedFloat.pack Format.binary64 u).toNat % 2 ^ 63 < 2047 * 2 ^ 52 := decide_eq_true_iff
  rw [finite]
  cases u with
  | infinity s => exact fits.elim
  | notANumber => exact fits.elim
  | zero s => cases s <;> decide
  | finite s m e pos =>
    have canonical : Binary.Canonical ⟨false, m, e⟩ := fits
    have bits := toNat_pack canonical pos
    have least := canonical.least
    have greatest := canonical.greatest
    have size := canonical.size
    dsimp only at bits least greatest size
    rw [toNat_pack_signed, bits]
    omega

theorem isFinite_ofUnpacked_infinity (s : Sign) : (ofUnpacked (.infinity s)).isFinite = false := by
  cases s <;> decide +kernel

theorem isFinite_ofUnpacked_notANumber : (ofUnpacked .notANumber).isFinite = false := by
  decide +kernel

end DerivedColumns.Number
