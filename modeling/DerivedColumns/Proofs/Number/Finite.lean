import DerivedColumns.Proofs.Number.Packing

set_option autoImplicit false

namespace DerivedColumns.Number

open Float.Model Float.Model.UnpackedFloat

theorem fits_settled {sign : Sign} {r : ℕ} {t : ℤ} {v : ℚ} (inPlace : InPlace t v)
    (rounded : RoundsTo (v / 2 ^ t) r) (bound : v ≤ (2 ^ 53 - 1) * 2 ^ (971 : ℤ)) :
    Fits (settled sign r t) := by
  have least := inPlace.least
  have most := inPlace.rounded_le rounded
  have full := inPlace.le_rounded rounded
  have top := two_zpow_pos 971
  have range : t ≤ 971 := by
    by_contra beyond
    have above := inPlace.above.resolve_left (by omega)
    have step := two_zpow_le (show (971 : ℤ) + (53 : ℕ) ≤ t + 52 by push_cast; omega)
    rw [two_zpow_add] at step
    generalize (2 : ℚ) ^ (971 : ℤ) = u at *
    linarith
  unfold settled
  split
  · trivial
  · split
    · rename_i carry
      have room : t ≠ 971 := by
        rintro rfl
        have under : v / 2 ^ (971 : ℤ) ≤ 2 ^ 53 - 1 := (div_le_iff₀ top).2 bound
        have low := rounded.low
        rw [carry] at low
        generalize v / 2 ^ (971 : ℤ) = w at *
        push_cast at low
        linarith
      exact ⟨by dsimp only; omega, by dsimp only; omega, by dsimp only; omega, .inl (Nat.le_refl _)⟩
    · exact ⟨by dsimp only; omega, least, range, full⟩

theorem fits_roundWithAccuracy (sign : Sign) {m : ℕ} {e : ℤ} {accuracy : Accuracy} {y : ℚ}
    (exact : Represents (ExtendedMantissa.ofMantissaAndAccuracy m accuracy) y)
    (enough : e ≤ Format.binary64.targetExponent (totalExponent m e))
    (bound : y * 2 ^ e ≤ (2 ^ 53 - 1) * 2 ^ (971 : ℤ)) :
    Fits (roundWithAccuracy Format.binary64 sign m e accuracy) := by
  obtain ⟨r, inPlace, rounded, result⟩ := roundWithAccuracy_eq sign exact enough
  rw [result]
  exact fits_settled inPlace rounded bound

inductive AtLeastOne : UnpackedFloat → Prop
  | infinity : AtLeastOne (.infinity .positive)
  | finite (m : ℕ) (e : ℤ) (pos : 0 < m) (one : (1 : ℚ) ≤ m * 2 ^ e) : AtLeastOne (.finite .positive m e pos)

theorem AtLeastOne.unpack_pack {m : ℕ} {e : ℤ} (pos : 0 < m) (normal : 2 ^ 52 ≤ m) (size : m < 2 ^ 53)
    (least : -1074 ≤ e) (one : (1 : ℚ) ≤ m * 2 ^ e) :
    AtLeastOne (Float.Model.pack (.finite .positive m e pos)).unpack := by
  by_cases greatest : e ≤ 971
  · rw [Number.unpack_pack pos normal size least greatest]
    exact .finite m e pos one
  · have beyond : UnpackedFloat.pack Format.binary64 (.finite .positive m e pos) =
        packedInfinity Format.binary64 .positive := by
      unfold UnpackedFloat.pack
      dsimp only
      rw [Int.add_assoc, exponentBias_add, if_pos (by norm_num; omega)]
    change AtLeastOne (unpack Format.binary64 (UnpackedFloat.pack Format.binary64 _))
    rw [beyond]
    exact .infinity

def exactly (n : ℕ) : Binary := ⟨false, n <<< (52 - n.log2), -((52 - n.log2 : ℕ) : ℤ)⟩

theorem canonical_exactly {n : ℕ} (some : 0 < n) (size : n < 2 ^ 53) : (exactly n).Canonical := by
  obtain ⟨normal, small⟩ := shiftLeft_full some size
  exact ⟨small, by dsimp only [exactly]; omega, by dsimp only [exactly]; omega, .inl normal⟩

theorem value_exactly (n : ℕ) : ((exactly n).mantissa : ℚ) * 2 ^ (exactly n).exponent = n := by
  simp only [exactly, Nat.shiftLeft_eq, zpow_neg, zpow_natCast]
  push_cast
  field_simp

theorem exactly_pos {n : ℕ} (some : 0 < n) (size : n < 2 ^ 53) : 0 < (exactly n).mantissa :=
  Nat.lt_of_lt_of_le (by decide) (shiftLeft_full some size).1

theorem ofNat_eq {n : ℕ} (some : 0 < n) (size : n < 2 ^ 53) : Float.ofNat n = .ofModel (.pack
    (.finite .positive (exactly n).mantissa (exactly n).exponent (exactly_pos some size))) := by
  have near : Nearest (exactly n) (n / 10 ^ 0) := by
    have := nearest_value (exactly n)
    rwa [value_exactly n, ← div_one (n : ℚ), ← pow_zero (10 : ℚ)] at this
  exact ofScientific_nearest (k := 0) (canonical_exactly some size) (exactly_pos some size) near

theorem log2_shiftLeft {n : ℕ} (some : n ≠ 0) (k : ℕ) : (n <<< k).log2 = n.log2 + k := by
  induction k with
  | zero => rfl
  | succ k ih =>
    have twice : n <<< (k + 1) = 2 * n <<< k := Nat.shiftLeft_succ n k
    have pos : n <<< k ≠ 0 := by
      rw [Nat.shiftLeft_eq]
      exact Nat.mul_ne_zero some (Nat.two_pow_pos k).ne'
    rw [twice, Nat.log2_two_mul pos, ih, Nat.add_assoc]

theorem atLeastOne_ofNat_large {n : ℕ} (large : 2 ^ 53 ≤ n) : AtLeastOne (Float.ofNat n).toModel.unpack := by
  have slow : Float.ofNat n = .ofModel (.pack (UnpackedFloat.ofScientific Format.binary64 n 0)) := by
    change Float.ofScientific n false 0 = _
    unfold Float.ofScientific
    rw [dif_neg (by omega)]
    rfl
  have whole : UnpackedFloat.ofScientific Format.binary64 n 0 =
      roundWithAccuracy Format.binary64 .positive (n <<< 53) (-53) .exact := by
    unfold UnpackedFloat.ofScientific
    rw [dif_neg (by omega), if_neg (by norm_num), if_neg (by norm_num), if_pos (Int.le_refl 0)]
    change roundWithAccuracy Format.binary64 .positive (n <<< 53 * 1) (-53 + 0) .exact = _
    rw [Nat.mul_one, Int.add_zero]
  have bits : 53 ≤ n.log2 := (Nat.le_log2 (by omega)).2 large
  have shifted : (n <<< 53).log2 = n.log2 + 53 := log2_shiftLeft (by omega) 53
  have target : Format.binary64.targetExponent (totalExponent (n <<< 53) (-53)) = ((n.log2 - 52 : ℕ) : ℤ) := by
    rw [targetExponent_eq, shifted]
    omega
  obtain ⟨r, inPlace, rounded, result⟩ :=
    roundWithAccuracy_eq .positive (represents_exact (n <<< 53)) (e := -53) (by rw [target]; omega)
  rw [target] at inPlace rounded result
  have most := inPlace.rounded_le rounded
  have full := (inPlace.le_rounded rounded).resolve_right (by omega)
  have one : ∀ {m k : ℕ}, 0 < m → (1 : ℚ) ≤ m * 2 ^ (k : ℤ) := by
    intro m k pos
    have : 1 ≤ m * 2 ^ k := Nat.mul_pos pos (Nat.two_pow_pos k)
    rw [zpow_natCast]
    exact_mod_cast this
  rw [slow, whole, result]
  change AtLeastOne (Float.Model.pack (settled .positive r ((n.log2 - 52 : ℕ) : ℤ))).unpack
  unfold settled
  rw [dif_neg (by omega)]
  split
  · exact .unpack_pack (by decide) (Nat.le_refl _) (by decide) (by omega) (one (k := n.log2 - 52 + 1) (by decide))
  · exact .unpack_pack (by omega) full (by omega) (by omega) (one (by omega))

theorem atLeastOne_ofNat {n : ℕ} (some : 0 < n) : AtLeastOne (Float.ofNat n).toModel.unpack := by
  by_cases size : n < 2 ^ 53
  · have canonical := canonical_exactly some size
    rw [ofNat_eq some size]
    refine .unpack_pack _ (shiftLeft_full some size).1 canonical.size canonical.least ?_
    rw [value_exactly]
    exact_mod_cast some
  · exact atLeastOne_ofNat_large (Nat.not_lt.1 size)

theorem isFinite_ofNat {n : ℕ} (size : n < 2 ^ 53) : (ofNat n).isFinite = true := by
  rcases Nat.eq_zero_or_pos n with rfl | some
  · decide +kernel
  · unfold ofNat
    rw [ofNat_eq some size]
    exact isFinite_ofUnpacked (canonical_exactly some size)

theorem isFinite_ofInt {n : ℤ} (size : n.natAbs < 2 ^ 53) : (ofInt n).isFinite = true := by
  cases n with
  | ofNat n => exact isFinite_ofNat size
  | negSucc n =>
    have canonical := canonical_exactly (Nat.succ_pos n) size
    have normal : 2 ^ 52 ≤ (exactly (n + 1)).mantissa := (shiftLeft_full (Nat.succ_pos n) size).1
    have negated : Float.ofInt (.negSucc n) = .ofModel (.pack (.finite .negative
        (exactly (n + 1)).mantissa (exactly (n + 1)).exponent (exactly_pos (Nat.succ_pos n) size))) := by
      change Float.ofModel (.pack (Float.ofNat (n + 1)).toModel.unpack.neg) = _
      rw [ofNat_eq (Nat.succ_pos n) size]
      change Float.ofModel (.pack (Float.Model.pack _).unpack.neg) = _
      rw [unpack_pack _ normal canonical.size canonical.least canonical.greatest]
      rfl
    unfold ofInt
    rw [negated]
    exact isFinite_ofUnpacked canonical

theorem div_le_greatest {m n : ℕ} {d e : ℤ} (canonical : Binary.Canonical ⟨false, m, d⟩)
    (one : (1 : ℚ) ≤ n * 2 ^ e) : (m * 2 ^ d : ℚ) / (n * 2 ^ e) ≤ (2 ^ 53 - 1) * 2 ^ (971 : ℤ) := by
  have size : (m : ℚ) ≤ 2 ^ 53 - 1 := by
    have : m + 1 ≤ 2 ^ 53 := canonical.size
    have : (m : ℚ) + 1 ≤ 2 ^ 53 := by exact_mod_cast this
    linarith
  have unit := two_zpow_pos d
  calc (m * 2 ^ d : ℚ) / (n * 2 ^ e) ≤ m * 2 ^ d := div_le_self (by positivity) one
    _ ≤ (2 ^ 53 - 1) * 2 ^ d := mul_le_mul_of_nonneg_right size unit.le
    _ ≤ (2 ^ 53 - 1) * 2 ^ (971 : ℤ) :=
      mul_le_mul_of_nonneg_left (two_zpow_le canonical.greatest) (by norm_num)

theorem fits_div {u w : UnpackedFloat} (fits : Fits u) (one : AtLeastOne w) :
    Fits (UnpackedFloat.div Format.binary64 u w) := by
  cases u with
  | infinity s => exact fits.elim
  | notANumber => exact fits.elim
  | zero s => cases one <;> trivial
  | finite s m d hm =>
    cases one with
    | infinity => trivial
    | finite n e hn one =>
      have canonical : Binary.Canonical ⟨false, m, d⟩ := fits
      have core := divCore_eq m n d e
      generalize place : min (d - e) (max (m.log2 + d - (n.log2 + e) - 53 : ℤ) (-1074)) = t at core
      dsimp only at core
      simp only [UnpackedFloat.div, core]
      refine fits_roundWithAccuracy _ (represents_fraction (Nat.mod_lt _ hn) _) ?_ ?_
      · rw [targetExponent_eq]
        by_cases least : t ≤ -1074
        · exact Int.le_trans least (Int.le_max_right _ _)
        · have quotient := le_shiftLeft_div (k := (d - e - t).toNat) hm hn (by omega)
          have := (Nat.le_log2 (by omega)).2 quotient
          omega
      · rw [shiftLeft_div_value hn (by omega)]
        exact div_le_greatest canonical one

theorem isFinite_divideBy (x : Number) {n : ℕ} (pos : 0 < n) : (x.divideBy n).isFinite = x.isFinite := by
  unfold divideBy
  split
  · rfl
  · rename_i proper
    have quotient : ofFloat (x.toFloat / Float.ofNat n) = ofUnpacked (UnpackedFloat.div Format.binary64
        x.unpacked (Float.ofNat n).toModel.unpack) := by
      rw [← unpack_toFloat (Bool.eq_false_iff.2 proper)]
      rfl
    have one := atLeastOne_ofNat pos
    rw [quotient]
    generalize (Float.ofNat n).toModel.unpack = w at one
    cases finite : x.isFinite with
    | true => exact isFinite_ofUnpacked (fits_div (fits_unpacked finite) one)
    | false =>
      rw [← isFinite_unpacked] at finite
      cases unpacked : x.unpacked with
      | infinity s =>
        cases one with
        | infinity => exact isFinite_ofUnpacked_notANumber
        | finite n e pos one => exact isFinite_ofUnpacked_infinity _
      | notANumber => exact isFinite_ofUnpacked_notANumber
      | zero s => rw [unpacked] at finite; cases finite
      | finite s m e pos => rw [unpacked] at finite; cases finite

end DerivedColumns.Number
