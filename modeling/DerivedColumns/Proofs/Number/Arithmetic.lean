import DerivedColumns.Proofs.Number.Rounding

set_option autoImplicit false

namespace DerivedColumns.Number

open Float.Model Float.Model.UnpackedFloat

variable {b : Binary}

theorem represents_exact (m : ℕ) : Represents (ExtendedMantissa.ofMantissaAndAccuracy m .exact) m := rfl

theorem mul_nearest (canonical : b.Canonical) (pos : 0 < b.mantissa) {m n : ℕ} {d e : ℤ} {hm : 0 < m}
    {hn : 0 < n} (big : 2 ^ 52 ≤ m * n) (near : Nearest b ((m * 2 ^ d) * (n * 2 ^ e))) :
    UnpackedFloat.mul Format.binary64 (.finite .positive m d hm) (.finite .positive n e hn) =
      .finite .positive b.mantissa b.exponent pos := by
  have some : m * n ≠ 0 := by omega
  refine roundWithAccuracy_nearest canonical pos (represents_exact (m * n)) ?_ ?_
  · have := (Nat.le_log2 some).2 big
    rw [targetExponent_eq]
    omega
  · have value : ((m * n : ℕ) : ℚ) * 2 ^ (d + e) = (m * 2 ^ d) * (n * 2 ^ e) := by
      rw [zpow_add₀ (by norm_num)]
      push_cast
      ring
    rwa [value]

theorem represents_fraction {r n : ℕ} (less : r < n) (q : ℕ) :
    Represents (ExtendedMantissa.ofMantissaAndAccuracy q (accuracyOfFraction r n)) (q + r / n) := by
  have pos : (0 : ℚ) < n := by exact_mod_cast (by omega : 0 < n)
  unfold accuracyOfFraction
  split
  · rename_i zero
    rw [zero]
    simp [Represents, ExtendedMantissa.ofMantissaAndAccuracy]
  · rename_i some
    have some : (0 : ℚ) < r := by exact_mod_cast Nat.pos_of_ne_zero some
    have under : (r : ℚ) < n := by exact_mod_cast less
    have positive : (0 : ℚ) < r / n := div_pos some pos
    have below : (r : ℚ) / n < 1 := (div_lt_one pos).2 under
    cases order : compare (2 * r) n with
    | lt =>
      have half : 2 * (r : ℚ) < n := by exact_mod_cast Nat.compare_eq_lt.1 order
      have : (r : ℚ) / n < 1 / 2 := by rw [div_lt_iff₀ pos]; linarith
      exact ⟨by simp only [ExtendedMantissa.ofMantissaAndAccuracy]; linarith,
        by simp only [ExtendedMantissa.ofMantissaAndAccuracy]; linarith⟩
    | eq =>
      have half : 2 * (r : ℚ) = n := by exact_mod_cast Nat.compare_eq_eq.1 order
      have : (r : ℚ) / n = 1 / 2 := by rw [div_eq_iff pos.ne']; linarith
      simp [Represents, ExtendedMantissa.ofMantissaAndAccuracy, this]
    | gt =>
      have half : (n : ℚ) < 2 * r := by exact_mod_cast Nat.compare_eq_gt.1 order
      have : 1 / 2 < (r : ℚ) / n := by rw [lt_div_iff₀ pos]; linarith
      exact ⟨by simp only [ExtendedMantissa.ofMantissaAndAccuracy]; linarith,
        by simp only [ExtendedMantissa.ofMantissaAndAccuracy]; linarith⟩

theorem divCore_eq (m n : ℕ) (d e : ℤ) : divCore Format.binary64 m d n e =
    let t := min (d - e) (max (m.log2 + d - (n.log2 + e) - 53) (-1074))
    let q := m <<< (d - e - t).toNat
    (q / n, t, accuracyOfFraction (q % n) n) := by
  have target : Format.binary64.targetExponent (totalExponent m d - totalExponent n e) =
      max (m.log2 + d - (n.log2 + e) - 53) (-1074) := by
    simp only [Format.targetExponent, totalExponent, Format.mantissaBits, Format.minExponent]
    norm_num
    omega
  unfold divCore
  rw [target]

/-- Shifted far enough, the quotient has all 53 bits. -/
theorem le_shiftLeft_div {m n k : ℕ} (hm : 0 < m) (hn : 0 < n) (bits : n.log2 + 53 ≤ m.log2 + k) :
    2 ^ 52 ≤ m <<< k / n := by
  rw [Nat.le_div_iff_mul_le hn, Nat.shiftLeft_eq]
  have large : 2 ^ m.log2 ≤ m := Nat.log2_self_le hm.ne'
  have small : n ≤ 2 ^ (n.log2 + 1) := Nat.le_of_lt Nat.lt_log2_self
  calc 2 ^ 52 * n ≤ 2 ^ 52 * 2 ^ (n.log2 + 1) := Nat.mul_le_mul_left _ small
    _ = 2 ^ (n.log2 + 53) := by rw [← Nat.pow_add]; congr 1; omega
    _ ≤ 2 ^ (m.log2 + k) := Nat.pow_le_pow_right (by decide) bits
    _ = 2 ^ m.log2 * 2 ^ k := Nat.pow_add _ _ _
    _ ≤ m * 2 ^ k := Nat.mul_le_mul_right _ large

theorem shiftLeft_div_value {m n : ℕ} (hn : 0 < n) {d e t : ℤ} (le : t ≤ d - e) :
    (((m <<< (d - e - t).toNat / n : ℕ) : ℚ) + ((m <<< (d - e - t).toNat % n : ℕ) : ℚ) / n) * 2 ^ t =
      (m * 2 ^ d) / (n * 2 ^ e) := by
  have nonzero : (n : ℚ) ≠ 0 := by exact_mod_cast hn.ne'
  have parts : ((m <<< (d - e - t).toNat / n : ℕ) : ℚ) * n + ((m <<< (d - e - t).toNat % n : ℕ) : ℚ) =
      m * 2 ^ (d - e - t).toNat := by
    have := Nat.div_add_mod' (m <<< (d - e - t).toNat) n
    rw [Nat.shiftLeft_eq] at this ⊢
    exact_mod_cast this
  have exponents : (2 : ℚ) ^ d = 2 ^ (d - e - t).toNat * 2 ^ t * 2 ^ e := by
    rw [mul_comm (2 ^ (d - e - t).toNat : ℚ), mul_assoc, ← two_zpow_add, ← zpow_add₀ (by norm_num),
      Int.toNat_of_nonneg (by omega)]
    congr 1
    omega
  have scale := two_zpow_pos e
  rw [exponents]
  field_simp
  rw [← parts]

theorem div_nearest (canonical : b.Canonical) (pos : 0 < b.mantissa) {m n : ℕ} {d e : ℤ} {hm : 0 < m}
    {hn : 0 < n} (near : Nearest b ((m * 2 ^ d) / (n * 2 ^ e))) :
    UnpackedFloat.div Format.binary64 (.finite .positive m d hm) (.finite .positive n e hn) =
      .finite .positive b.mantissa b.exponent pos := by
  have core := divCore_eq m n d e
  generalize place : min (d - e) (max (m.log2 + d - (n.log2 + e) - 53 : ℤ) (-1074)) = t at core
  dsimp only at core
  simp only [UnpackedFloat.div, core]
  refine roundWithAccuracy_nearest canonical pos (represents_fraction (Nat.mod_lt _ hn) _) ?_ ?_
  · rw [targetExponent_eq]
    by_cases least : t ≤ -1074
    · exact Int.le_trans least (Int.le_max_right _ _)
    · have quotient := le_shiftLeft_div (k := (d - e - t).toNat) hm hn (by omega)
      have := (Nat.le_log2 (by omega)).2 quotient
      omega
  · rwa [shiftLeft_div_value hn (by omega)]

theorem toNat_packComponents (sign : Sign) (e : BitVec 11) (m : BitVec 52) :
    (packComponents Format.binary64 sign e m).toNat =
      (sign.toBitVec.toNat * 2 ^ 11 + e.toNat) * 2 ^ 52 + m.toNat := by
  have parts : packComponents Format.binary64 sign e m = sign.toBitVec ++ e ++ m := rfl
  rw [parts, BitVec.toNat_append, BitVec.toNat_append, ← Nat.shiftLeft_add_eq_or_of_lt e.isLt,
    ← Nat.shiftLeft_add_eq_or_of_lt m.isLt, Nat.shiftLeft_eq, Nat.shiftLeft_eq]

theorem log2_eq_52 {m : ℕ} (normal : 2 ^ 52 ≤ m) (size : m < 2 ^ 53) : m.log2 = 52 := by
  have some : m ≠ 0 := by omega
  have := (Nat.le_log2 some).2 normal
  have := (Nat.log2_lt some).2 size
  omega

theorem exponentBias_add :
    Format.binary64.exponentBias + (Format.binary64.mantissaBitsWithoutImplicit : ℤ) = 1075 :=
  rfl

theorem toNat_pack (canonical : b.Canonical) (pos : 0 < b.mantissa) :
    (UnpackedFloat.pack Format.binary64 (.finite .positive b.mantissa b.exponent pos)).toNat =
      (b.exponent + 1074).toNat * 2 ^ 52 + b.mantissa := by
  have least := canonical.least
  have greatest := canonical.greatest
  have size := canonical.size
  have biased : (b.exponent + 1075).toNat = (b.exponent + 1074).toNat + 1 := by omega
  unfold UnpackedFloat.pack
  dsimp only
  rw [Int.add_assoc, exponentBias_add, biased, if_neg (by norm_num; omega)]
  by_cases normal : 2 ^ 52 ≤ b.mantissa
  · rw [if_pos (by rw [log2_eq_52 normal size]; rfl), toNat_packComponents]
    simp only [BitVec.toNat_ofNat, Sign.toBitVec]
    omega
  · have least : b.exponent = -1074 := canonical.normal.resolve_left normal
    have bits : b.mantissa.log2 < 52 := (Nat.log2_lt pos.ne').2 (by omega)
    rw [if_neg (by simp only [Format.mantissaBits]; omega), toNat_packComponents, least]
    simp only [BitVec.toNat_ofNat, Sign.toBitVec]
    omega

theorem unpack_pack {m : ℕ} {e : ℤ} (pos : 0 < m) (normal : 2 ^ 52 ≤ m) (size : m < 2 ^ 53)
    (least : -1074 ≤ e) (greatest : e ≤ 971) :
    (Float.Model.pack (.finite .positive m e pos)).unpack = .finite .positive m e pos := by
  have packed : UnpackedFloat.pack Format.binary64 (.finite .positive m e pos) =
      packComponents Format.binary64 .positive (BitVec.ofNat 11 (e + 1075).toNat) (BitVec.ofNat 52 m) := by
    unfold UnpackedFloat.pack
    dsimp only
    rw [Int.add_assoc, exponentBias_add, if_neg (by norm_num; omega),
      if_pos (by rw [log2_eq_52 normal size]; rfl)]
  have exponent : (BitVec.ofNat 11 (e + 1075).toNat).toNat = (e + 1075).toNat := by
    rw [BitVec.toNat_ofNat]
    omega
  have notLeast : BitVec.ofNat 11 (e + 1075).toNat ≠ 0#11 := by
    intro h
    have := congrArg BitVec.toNat h
    rw [exponent, BitVec.toNat_zero] at this
    omega
  have notGreatest : BitVec.ofNat 11 (e + 1075).toNat ≠ -1#11 := by
    intro h
    have := congrArg BitVec.toNat h
    rw [exponent] at this
    have ones : (-1#11 : BitVec 11).toNat = 2047 := rfl
    omega
  have mantissa : (1#1 ++ BitVec.ofNat 52 m).toNat = m := by
    rw [BitVec.toNat_append, ← Nat.shiftLeft_add_eq_or_of_lt (BitVec.isLt _), Nat.shiftLeft_eq,
      BitVec.toNat_ofNat, BitVec.toNat_ofNat]
    omega
  change UnpackedFloat.unpack Format.binary64 (UnpackedFloat.pack Format.binary64 _) = _
  rw [packed]
  unfold UnpackedFloat.unpack
  simp only [unpackMantissa_packComponents, unpackExponent_packComponents, unpackSign_packComponents,
    if_neg notGreatest, if_neg notLeast, exponent, mantissa]
  rw [exponentBias_add, show ((e + 1075).toNat : ℤ) - 1075 = e by omega]
  rfl

/-- The float is a value without error, and has all 53 bits. -/
def IsExactly (x : Float) (v : ℚ) : Prop :=
  ∃ (m : ℕ) (e : ℤ) (pos : 0 < m), x.toModel.unpack = .finite .positive m e pos ∧ 2 ^ 52 ≤ m ∧
    (m : ℚ) * 2 ^ e = v

theorem shiftLeft_full {n : ℕ} (some : 0 < n) (size : n < 2 ^ 53) :
    2 ^ 52 ≤ n <<< (52 - n.log2) ∧ n <<< (52 - n.log2) < 2 ^ 53 := by
  have bits : n.log2 < 53 := (Nat.log2_lt some.ne').2 size
  have large : 2 ^ n.log2 ≤ n := Nat.log2_self_le some.ne'
  have small : n < 2 ^ (n.log2 + 1) := Nat.lt_log2_self
  rw [Nat.shiftLeft_eq]
  constructor
  · calc 2 ^ 52 = 2 ^ n.log2 * 2 ^ (52 - n.log2) := by rw [← Nat.pow_add]; congr 1; omega
      _ ≤ n * 2 ^ (52 - n.log2) := Nat.mul_le_mul_right _ large
  · calc n * 2 ^ (52 - n.log2) < 2 ^ (n.log2 + 1) * 2 ^ (52 - n.log2) :=
        Nat.mul_lt_mul_of_pos_right small (Nat.two_pow_pos _)
      _ = 2 ^ 53 := by rw [← Nat.pow_add]; congr 1; omega

theorem round_full {m : ℕ} {e : ℤ} (pos : 0 < m) (normal : 2 ^ 52 ≤ m) (size : m < 2 ^ 53)
    (least : -1074 ≤ e) (greatest : e ≤ 971) :
    roundWithAccuracy Format.binary64 .positive m e .exact = .finite .positive m e pos := by
  refine roundWithAccuracy_nearest (b := ⟨false, m, e⟩) ⟨size, least, greatest, .inl normal⟩ pos
    (represents_exact m) ?_ (nearest_value _)
  rw [targetExponent_eq, log2_eq_52 normal size]
  omega

theorem ofUInt64_eq {n : ℕ} (some : 0 < n) (size : n < 2 ^ 53) (pos : 0 < n <<< (52 - n.log2)) :
    UnpackedFloat.ofUInt64 Format.binary64 n.toUInt64 =
      .finite .positive (n <<< (52 - n.log2)) (-((52 - n.log2 : ℕ) : ℤ)) pos := by
  have bits : n.log2 < 53 := (Nat.log2_lt some.ne').2 size
  obtain ⟨normal, small⟩ := shiftLeft_full some size
  have same : n.toUInt64.toNat = n := by
    rw [Nat.toUInt64, UInt64.toNat_ofNat']
    omega
  have target : Format.binary64.targetExponent (totalExponent n 0) = -((52 - n.log2 : ℕ) : ℤ) := by
    rw [targetExponent_eq]
    omega
  unfold UnpackedFloat.ofUInt64 UnpackedFloat.ofNat UnpackedFloat.ofInt UnpackedFloat.normalize
  rw [same, Int.compare_eq_gt.2 (by omega)]
  simp only [Int.toNat_natCast, Float.Model.UnpackedFloat.round, target, decreaseExponent]
  rw [show (0 - -((52 - n.log2 : ℕ) : ℤ)).toNat = 52 - n.log2 by omega,
    show (0 : ℤ) - ((52 - n.log2 : ℕ) : ℤ) = -((52 - n.log2 : ℕ) : ℤ) by omega]
  exact round_full pos normal small (by omega) (by omega)

theorem isExactly_toFloat {n : ℕ} (some : 0 < n) (size : n < 2 ^ 53) :
    IsExactly n.toUInt64.toFloat n := by
  obtain ⟨normal, small⟩ := shiftLeft_full some size
  have pos : 0 < n <<< (52 - n.log2) := by omega
  refine ⟨n <<< (52 - n.log2), -((52 - n.log2 : ℕ) : ℤ), pos, ?_, normal, ?_⟩
  · change (Float.Model.pack (UnpackedFloat.ofUInt64 Format.binary64 n.toUInt64)).unpack = _
    rw [ofUInt64_eq some size pos]
    exact unpack_pack pos normal small (by omega) (by omega)
  · rw [Nat.shiftLeft_eq, zpow_neg, zpow_natCast]
    push_cast
    field_simp

end DerivedColumns.Number
