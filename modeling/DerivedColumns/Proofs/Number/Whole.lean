import DerivedColumns.Proofs.Number.Finite

set_option autoImplicit false

namespace DerivedColumns.Number

def Binary.value (b : Binary) : ℚ := (if b.negative then -1 else 1) * b.mantissa * 2 ^ b.exponent

def IsWhole (x : Number) (n : ℕ) : Prop := x.isFinite = true ∧ x.toBinary.value = n

theorem toNat_bits_ofNat {n : ℕ} (some : 0 < n) (size : n < 2 ^ 53) : (ofNat n).bits.toNat =
    ((exactly n).exponent + 1074).toNat * 2 ^ 52 + (exactly n).mantissa := by
  unfold ofNat
  rw [ofNat_eq some size]
  exact toNat_pack (canonical_exactly some size) (exactly_pos some size)

theorem toBinary_ofNat {n : ℕ} (some : 0 < n) (size : n < 2 ^ 53) : (ofNat n).toBinary = exactly n := by
  have bits := toNat_bits_ofNat some size
  obtain ⟨normal, small⟩ := shiftLeft_full some size
  change _ = (-((52 - n.log2 : ℕ) : ℤ) + 1074).toNat * 2 ^ 52 + n <<< (52 - n.log2) at bits
  have positive : (ofNat n).isNegative = false := decide_eq_false (by change ¬ 2 ^ 63 ≤ _; omega)
  have magnitude := magnitude_of_positive positive
  rw [bits] at magnitude
  have power : (ofNat n).magnitude / 2 ^ 52 = (-((52 - n.log2 : ℕ) : ℤ) + 1074).toNat + 1 := by omega
  have fraction : 2 ^ 52 + (ofNat n).magnitude % 2 ^ 52 = n <<< (52 - n.log2) := by omega
  change (if (ofNat n).magnitude / 2 ^ 52 = 0 then _ else
    Binary.mk _ (2 ^ 52 + (ofNat n).magnitude % 2 ^ 52) (((ofNat n).magnitude / 2 ^ 52 : ℕ) - 1 + -1074)) = _
  rw [power, fraction, positive, if_neg (Nat.succ_ne_zero _)]
  have exponent : (((-((52 - n.log2 : ℕ) : ℤ) + 1074).toNat + 1 : ℕ) : ℤ) - 1 + -1074 =
      -((52 - n.log2 : ℕ) : ℤ) := by omega
  rw [exponent]
  rfl

theorem isWhole_ofNat {n : ℕ} (size : n ≤ 2 ^ 53) : (ofNat n).IsWhole n := by
  rcases Nat.eq_zero_or_pos n with rfl | some
  · have zero : (ofNat 0).toBinary = ⟨false, 0, -1074⟩ := by decide +kernel
    refine ⟨by decide +kernel, ?_⟩
    simp [zero, Binary.value]
  · rcases Nat.lt_or_eq_of_le size with size | rfl
    · refine ⟨isFinite_ofNat size, ?_⟩
      have value := value_exactly n
      rw [toBinary_ofNat some size]
      simpa [Binary.value, exactly] using value
    · have top : (ofNat (2 ^ 53)).toBinary = ⟨false, 2 ^ 52, 1⟩ := by decide +kernel
      refine ⟨by decide +kernel, ?_⟩
      rw [top]
      norm_num [Binary.value]

end DerivedColumns.Number
