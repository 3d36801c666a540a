import DerivedColumns.Proofs.Number.Arithmetic
import DerivedColumns.Proofs.Number.Plain

set_option autoImplicit false

namespace DerivedColumns.Number

open Float.Model Float.Model.UnpackedFloat

variable {b : Binary}

def isPowerOfTen (i : ℕ) : UnpackedFloat → Bool
  | .finite .positive m e _ => 2 ^ 52 ≤ m ∧ m * 2 ^ e.toNat = 10 ^ i * 2 ^ (-e).toNat
  | _ => false

theorem isExactly_of_isPowerOfTen {i : ℕ} {x : Float} (h : isPowerOfTen i x.toModel.unpack = true) :
    IsExactly x (10 ^ i) := by
  unfold isPowerOfTen at h
  split at h
  · rename_i m e pos unpacked
    rw [decide_eq_true_eq] at h
    refine ⟨m, e, pos, unpacked, h.1, ?_⟩
    have value : (m : ℚ) * 2 ^ e.toNat = 10 ^ i * 2 ^ (-e).toNat := by exact_mod_cast h.2
    have split : (2 : ℚ) ^ e.toNat = 2 ^ (-e).toNat * 2 ^ e := by
      rw [← two_zpow_add, ← zpow_natCast]
      congr 1
      omega
    have pos : (0 : ℚ) < 2 ^ (-e).toNat := by positivity
    rw [split, ← mul_assoc, mul_comm (m : ℚ), mul_assoc, mul_comm (10 ^ i : ℚ)] at value
    exact mul_left_cancel₀ pos.ne' value
  · cases h

theorem isPowerOfTen_table : ∀ i : Fin Float.exactlyRepresentablePowersOfTen.size,
    isPowerOfTen i Float.exactlyRepresentablePowersOfTen[i].toModel.unpack = true := by
  decide +kernel

theorem isExactly_powerOfTen {i : ℕ} (h : i < Float.exactlyRepresentablePowersOfTen.size) :
    IsExactly Float.exactlyRepresentablePowersOfTen[i] (10 ^ i) :=
  isExactly_of_isPowerOfTen (isPowerOfTen_table ⟨i, h⟩)

theorem Nearest.least (canonical : b.Canonical) (pos : 0 < b.mantissa) {v : ℚ} (near : Nearest b v) :
    (2 : ℚ) ^ (-1075 : ℤ) ≤ v := by
  have reach := reachBelow_le b
  have some : (1 : ℚ) ≤ b.mantissa := by exact_mod_cast pos
  have unit := two_zpow_pos (b.exponent - 2)
  have least := canonical.least
  have double := two_zpow_add (b.exponent - 2) 1
  have step := two_zpow_le (show (-1075 : ℤ) ≤ b.exponent - 2 + (1 : ℕ) by push_cast; omega)
  rw [double, pow_one] at step
  have := near.low
  nlinarith

theorem Nearest.greatest (canonical : b.Canonical) {v : ℚ} (near : Nearest b v) : v < 2 ^ (1024 : ℤ) := by
  have size : (b.mantissa : ℚ) + 1 ≤ 2 ^ 53 := by exact_mod_cast canonical.size
  have greatest := canonical.greatest
  have unit := two_zpow_pos (b.exponent - 2)
  have step := two_zpow_le (show b.exponent - 2 + (55 : ℕ) ≤ (1024 : ℤ) by push_cast; omega)
  rw [two_zpow_add] at step
  have below : (4 * b.mantissa + 2 : ℚ) * 2 ^ (b.exponent - 2) < 2 ^ 55 * 2 ^ (b.exponent - 2) :=
    mul_lt_mul_of_pos_right (by linarith) unit
  exact lt_of_le_of_lt near.high (lt_of_lt_of_le below step)

theorem Nearest.digits_pos (canonical : b.Canonical) (pos : 0 < b.mantissa) {n k : ℕ}
    (near : Nearest b (n / 10 ^ k)) : 0 < n := by
  rcases Nat.eq_zero_or_pos n with rfl | some
  · have least := near.least canonical pos
    rw [Nat.cast_zero, zero_div] at least
    exact absurd (two_zpow_pos (-1075)) (not_lt.2 least)
  · exact some

theorem Nearest.not_huge (canonical : b.Canonical) (pos : 0 < b.mantissa) {n k : ℕ}
    (near : Nearest b (n / 10 ^ k)) : ¬ 2048 + n.log2 < k := by
  intro huge
  have least := near.least canonical pos
  have scale : (0 : ℚ) < 10 ^ k := by positivity
  have size : (n : ℚ) < 2 ^ (n.log2 + 1) := by exact_mod_cast Nat.lt_log2_self
  obtain ⟨c, hc⟩ : ∃ c, c = n.log2 + 1 + 1075 := ⟨_, rfl⟩
  have tens : (2 : ℚ) ^ c ≤ 10 ^ k :=
    calc (2 : ℚ) ^ c ≤ 2 ^ k := pow_le_pow_right₀ (by norm_num) (by omega)
      _ ≤ 10 ^ k := pow_le_pow_left₀ (by norm_num) (by norm_num) k
  have shift := two_zpow_add (-1075) c
  rw [show (-1075 : ℤ) + (c : ℤ) = ((n.log2 + 1 : ℕ) : ℤ) by omega, zpow_natCast] at shift
  rw [le_div_iff₀ scale] at least
  have := mul_le_mul_of_nonneg_left tens (two_zpow_pos (-1075)).le
  linarith

/-- Few digits and a power of ten from the table: one product or quotient of floats. -/
theorem table_nearest (canonical : b.Canonical) (pos : 0 < b.mantissa) {n k : ℕ} (size : n < 2 ^ 53)
    (bound : k < Float.exactlyRepresentablePowersOfTen.size) (near : Nearest b (n / 10 ^ k)) :
    (if decide (0 < k) = true then n.toUInt64.toFloat / Float.exactlyRepresentablePowersOfTen[k]
      else n.toUInt64.toFloat * Float.exactlyRepresentablePowersOfTen[k]) =
      .ofModel (.pack (.finite .positive b.mantissa b.exponent pos)) := by
  obtain ⟨m, d, hm, unpackedWhole, fullWhole, whole⟩ := isExactly_toFloat (near.digits_pos canonical pos) size
  obtain ⟨t, e, ht, unpackedPower, fullPower, power⟩ := isExactly_powerOfTen bound
  split
  · change Float.ofModel (.pack (UnpackedFloat.div Format.binary64 _ _)) = _
    rw [unpackedWhole, unpackedPower, div_nearest canonical pos]
    rwa [whole, power]
  · rename_i zero
    have zero : k = 0 := by simpa using zero
    subst zero
    change Float.ofModel (.pack (UnpackedFloat.mul Format.binary64 _ _)) = _
    rw [unpackedWhole, unpackedPower, mul_nearest canonical pos]
    · exact Nat.le_trans fullWhole (Nat.le_mul_of_pos_right m ht)
    · rw [whole, power, pow_zero, mul_one]
      rwa [pow_zero, div_one] at near

/-- In general the power of ten is taken as a whole number. -/
theorem unpackedOfScientific_nearest (canonical : b.Canonical) (pos : 0 < b.mantissa) {n k : ℕ}
    (near : Nearest b (n / 10 ^ k)) : UnpackedFloat.ofScientific Format.binary64 n (-(k : ℤ)) =
      .finite .positive b.mantissa b.exponent pos := by
  have some := near.digits_pos canonical pos
  have enough : ¬ (-(k : ℤ)) < -((2 ^ Format.binary64.exponentBits : ℤ) + n.log2) := by
    have := near.not_huge canonical pos
    norm_num
    omega
  unfold UnpackedFloat.ofScientific
  rw [dif_neg some.ne', if_neg (by norm_num), if_neg enough]
  split
  · rename_i whole
    have zero : k = 0 := by omega
    subst zero
    refine mul_nearest canonical pos ?_ ?_
    · rw [Nat.shiftLeft_eq]
      simp only [Format.mantissaBits]
      norm_num
      omega
    · rw [pow_zero, div_one] at near
      have value : ((n <<< Format.binary64.mantissaBits : ℕ) : ℚ) * 2 ^ (-(Format.binary64.mantissaBits : ℤ)) *
          (((10 ^ (-((0 : ℕ) : ℤ)).toNat : ℕ) : ℚ) * 2 ^ (0 : ℤ)) = n := by
        rw [Nat.shiftLeft_eq, zpow_neg, zpow_natCast]
        push_cast
        norm_num
      rwa [value]
  · refine div_nearest canonical pos ?_
    have value : ((n : ℚ) * 2 ^ (0 : ℤ)) / (((10 ^ (-(-(k : ℤ))).toNat : ℕ) : ℚ) * 2 ^ (0 : ℤ)) =
        n / 10 ^ k := by
      rw [zpow_zero, mul_one, mul_one, Int.neg_neg, Int.toNat_natCast]
      push_cast
      rfl
    rwa [value]

theorem ofScientific_nearest (canonical : b.Canonical) (pos : 0 < b.mantissa) {n k : ℕ}
    (near : Nearest b (n / 10 ^ k)) : Float.ofScientific n (decide (0 < k)) k =
      .ofModel (.pack (.finite .positive b.mantissa b.exponent pos)) := by
  unfold Float.ofScientific
  split
  · rename_i small
    have bound : k < Float.exactlyRepresentablePowersOfTen.size := by
      have : Float.exactlyRepresentablePowersOfTen.size = 23 := rfl
      omega
    exact table_nearest canonical pos small.1 bound near
  · have exponent : (if decide (0 < k) = true then Int.negOfNat k else Int.ofNat k) = -(k : ℤ) := by
      split
      · exact Int.negOfNat_eq
      · rename_i zero
        have zero : k = 0 := by simpa using zero
        subst zero
        rfl
    dsimp only
    rw [exponent]
    exact congrArg (fun x => Float.ofModel (.pack x)) (unpackedOfScientific_nearest canonical pos near)

theorem canonical_toBinary {x : Number} (finite : x.isFinite = true) : x.toBinary.Canonical := by
  have small : x.magnitude < 2047 * 2 ^ 52 := of_decide_eq_true finite
  unfold toBinary leastExponent
  dsimp only
  change Binary.Canonical (if x.magnitude / 2 ^ 52 = 0 then _ else _)
  split
  · exact ⟨by change x.magnitude % 2 ^ 52 < _; omega, by dsimp only; omega, by dsimp only; omega, .inr rfl⟩
  · refine ⟨?_, ?_, ?_, .inl ?_⟩
    · change 2 ^ 52 + x.magnitude % 2 ^ 52 < _
      omega
    · change -1074 ≤ ((x.magnitude / 2 ^ 52 : ℕ) : ℤ) - 1 + -1074
      omega
    · change ((x.magnitude / 2 ^ 52 : ℕ) : ℤ) - 1 + -1074 ≤ 971
      omega
    · exact Nat.le_add_right _ _

theorem magnitude_toBinary (x : Number) :
    (x.toBinary.exponent + 1074).toNat * 2 ^ 52 + x.toBinary.mantissa = x.magnitude := by
  unfold toBinary leastExponent
  dsimp only
  split
  · rename_i zero
    change x.magnitude / 2 ^ 52 = 0 at zero
    change (-1074 + 1074 : ℤ).toNat * 2 ^ 52 + x.magnitude % 2 ^ 52 = x.magnitude
    omega
  · rename_i some
    change ¬ x.magnitude / 2 ^ 52 = 0 at some
    change ((((x.magnitude / 2 ^ 52 : ℕ) : ℤ) - 1 + -1074) + 1074).toNat * 2 ^ 52 +
      (2 ^ 52 + x.magnitude % 2 ^ 52) = x.magnitude
    omega

theorem magnitude_of_positive {x : Number} (positive : x.isNegative = false) :
    x.magnitude = x.bits.toNat := by
  have small : ¬ 2 ^ 63 ≤ x.bits.toNat := of_decide_eq_false positive
  exact Nat.mod_eq_of_lt (Nat.not_le.1 small)

theorem two_zpow_1075_le : (2 : ℚ) ^ (1075 : ℤ) ≤ 10 ^ 331 :=
  calc (2 : ℚ) ^ (1075 : ℤ) ≤ 2 ^ ((33 * 33 : ℕ) : ℤ) := two_zpow_le (by norm_num)
    _ = (2 ^ 33) ^ 33 := by rw [zpow_natCast, pow_mul]
    _ ≤ (10 ^ 10) ^ 33 := pow_le_pow_left₀ (by norm_num) (by norm_num) _
    _ = 10 ^ 330 := (pow_mul _ _ _).symm
    _ ≤ 10 ^ 331 := pow_le_pow_right₀ (by norm_num) (by norm_num)

theorem two_zpow_1024_le : (2 : ℚ) ^ (1024 : ℤ) ≤ 10 ^ 310 :=
  calc (2 : ℚ) ^ (1024 : ℤ) ≤ 2 ^ ((205 * 5 : ℕ) : ℤ) := two_zpow_le (by norm_num)
    _ = (2 ^ 205) ^ 5 := by rw [zpow_natCast, pow_mul]
    _ ≤ (10 ^ 62) ^ 5 := pow_le_pow_left₀ (by norm_num) (by norm_num) _
    _ = 10 ^ 310 := (pow_mul _ _ _).symm

theorem Nearest.not_few (canonical : b.Canonical) (pos : 0 < b.mantissa) {n k : ℕ}
    (near : Nearest b (n / 10 ^ k)) : ¬ ((Nat.toDigits 10 n).length + -(k : ℤ)) < -330 := by
  intro few
  have least := near.least canonical pos
  have scale : (0 : ℚ) < 10 ^ k := by positivity
  have digits : n < 10 ^ (Nat.toDigits 10 n).length :=
    (Nat.length_toDigits_le_iff (by decide) Nat.length_toDigits_pos).1 (Nat.le_refl _)
  have under : (n : ℚ) < 10 ^ (Nat.toDigits 10 n).length := by exact_mod_cast digits
  have places : (10 : ℚ) ^ ((Nat.toDigits 10 n).length + 331) ≤ 10 ^ k :=
    pow_le_pow_right₀ (by norm_num) (by omega)
  have tens := two_zpow_1075_le
  have unit := two_zpow_pos 1075
  rw [le_div_iff₀ scale, zpow_neg, inv_mul_le_iff₀ unit] at least
  rw [pow_add] at places
  generalize (10 : ℚ) ^ 331 = t at *
  generalize (2 : ℚ) ^ (1075 : ℤ) = u at *
  nlinarith

theorem Nearest.not_many (canonical : b.Canonical) {n k : ℕ} (near : Nearest b (n / 10 ^ k)) :
    ¬ 310 < ((Nat.toDigits 10 n).length + -(k : ℤ)) := by
  intro many
  have greatest := near.greatest canonical
  have scale : (0 : ℚ) < 10 ^ k := by positivity
  have digits : ¬ n < 10 ^ (310 + k) := by
    rw [← Nat.length_toDigits_le_iff (by decide) (by omega)]
    omega
  have beyond : (10 : ℚ) ^ (310 + k) ≤ n := by exact_mod_cast Nat.not_lt.1 digits
  have tens := two_zpow_1024_le
  rw [div_lt_iff₀ scale] at greatest
  rw [pow_add] at beyond
  generalize (10 : ℚ) ^ 310 = t at *
  generalize (2 : ℚ) ^ (1024 : ℤ) = u at *
  nlinarith

/-- A numeral denotes the number that its value rounds to. -/
theorem nearest_eq {x : Number} (finite : x.isFinite = true) (positive : x.isNegative = false)
    (pos : 0 < x.toBinary.mantissa) {n k : ℕ} (near : Nearest x.toBinary (n / 10 ^ k)) :
    nearest n (-(k : ℤ)) = x := by
  have canonical := canonical_toBinary finite
  have some := near.digits_pos canonical pos
  have few := near.not_few canonical pos
  have sign : decide (-(k : ℤ) < 0) = decide (0 < k) := decide_eq_decide.2 (by omega)
  have size : (-(k : ℤ)).natAbs = k := by omega
  unfold nearest
  dsimp only
  rw [if_neg (not_or.2 ⟨some.ne', few⟩), if_neg (near.not_many canonical), sign, size,
    ofScientific_nearest canonical pos near]
  have bits := toNat_pack canonical pos
  rw [magnitude_toBinary, magnitude_of_positive positive] at bits
  exact congrArg Number.mk (UInt64.toNat_inj.1 bits)

end DerivedColumns.Number
