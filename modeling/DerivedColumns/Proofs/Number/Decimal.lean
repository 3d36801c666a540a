import DerivedColumns.Proofs.Number.Rounding

set_option autoImplicit false

namespace DerivedColumns.Number

variable {b : Binary}

def Decimal.value (d : Decimal) : ℚ := d.digits * 10 ^ d.exponent

theorem zpow_toNat {a : ℚ} (pos : 0 < a) (e : ℤ) : a ^ e * a ^ (-e).toNat = a ^ e.toNat := by
  rw [← zpow_natCast, ← zpow_natCast, ← zpow_add₀ pos.ne']
  congr 1
  omega

/-- The test of the interval, on fractions. -/
theorem nearest_of_holds (pos : 0 < b.mantissa) {n : ℕ} {p : ℤ}
    (h : (Interval.around b).holds n p = true) : Nearest b (Decimal.value ⟨n, p⟩) := by
  have scale := zpow_toNat (a := 2) (by norm_num) (b.exponent - 2)
  rw [show -(b.exponent - 2) = 2 - b.exponent by omega] at scale
  have tens := zpow_toNat (a := 10) (by norm_num) p
  have denominator : (0 : ℚ) < 2 ^ (2 - b.exponent).toNat := by positivity
  have places : (0 : ℚ) < 10 ^ (-p).toNat := by positivity
  have unit := mul_pos denominator places
  have reach : b.reachBelow ≤ 4 * b.mantissa := by
    have : b.reachBelow ≤ 2 := by exact_mod_cast reachBelow_le b
    omega
  have value : Decimal.value ⟨n, p⟩ * (2 ^ (2 - b.exponent).toNat * 10 ^ (-p).toNat) =
      ((n * 10 ^ p.toNat * 2 ^ (2 - b.exponent).toNat : ℕ) : ℚ) := by
    push_cast
    rw [Decimal.value, ← tens]
    ring
  have low : (4 * b.mantissa - b.reachBelow : ℚ) * 2 ^ (b.exponent - 2) *
      (2 ^ (2 - b.exponent).toNat * 10 ^ (-p).toNat) =
      (((4 * b.mantissa - b.reachBelow) * 2 ^ (b.exponent - 2).toNat * 10 ^ (-p).toNat : ℕ) : ℚ) := by
    push_cast [reach]
    rw [← scale]
    ring
  have high : (4 * b.mantissa + 2 : ℚ) * 2 ^ (b.exponent - 2) *
      (2 ^ (2 - b.exponent).toNat * 10 ^ (-p).toNat) =
      (((4 * b.mantissa + 2) * 2 ^ (b.exponent - 2).toNat * 10 ^ (-p).toNat : ℕ) : ℚ) := by
    push_cast
    rw [← scale]
    ring
  unfold Interval.holds at h
  by_cases even : b.mantissa % 2 = 0
  · have closed : (Interval.around b).closed = true := decide_eq_true even
    rw [closed] at h
    simp only [if_true, Bool.and_eq_true, decide_eq_true_eq] at h
    refine ⟨?_, ?_, fun odd => by omega⟩
    · refine le_of_mul_le_mul_right ?_ unit
      rw [low, value]
      exact_mod_cast h.1
    · refine le_of_mul_le_mul_right ?_ unit
      rw [high, value]
      exact_mod_cast h.2
  · have opened : (Interval.around b).closed = false := decide_eq_false even
    rw [opened] at h
    simp only [Bool.false_eq_true, if_false, Bool.and_eq_true, decide_eq_true_eq] at h
    have below : (4 * b.mantissa - b.reachBelow : ℚ) * 2 ^ (b.exponent - 2) < Decimal.value ⟨n, p⟩ := by
      refine lt_of_mul_lt_mul_right ?_ unit.le
      rw [low, value]
      exact_mod_cast h.1
    have above : Decimal.value ⟨n, p⟩ < (4 * b.mantissa + 2 : ℚ) * 2 ^ (b.exponent - 2) := by
      refine lt_of_mul_lt_mul_right ?_ unit.le
      rw [high, value]
      exact_mod_cast h.2
    exact ⟨below.le, above.le, fun _ => ⟨below, above⟩⟩

theorem holds_of_onGrid? {i : Interval} {tie : Tie} {p : ℤ} {d : Decimal} (h : i.onGrid? tie p = some d) :
    i.holds d.digits p = true ∧ d.exponent = p := by
  unfold Interval.onGrid? at h
  dsimp only at h
  split at h
  · cases h
  · rename_i here _
    cases h
    exact ⟨here, rfl⟩
  · rename_i _ next
    cases h
    exact ⟨next, rfl⟩
  · rename_i here next
    split at h
    · cases h
      exact ⟨here, rfl⟩
    · cases h
      exact ⟨next, rfl⟩
    · cases tie with
      | even =>
        cases h
        refine ⟨?_, rfl⟩
        dsimp only
        rcases Nat.mod_two_eq_zero_or_one (Interval.lift p i.middle / i.level 1 p) with even | odd
        · rwa [even]
        · rwa [odd]
      | awayFromZero =>
        cases h
        exact ⟨next, rfl⟩

theorem value_exactDecimal (b : Binary) : b.exactDecimal.value = b.mantissa * 2 ^ b.exponent := by
  unfold Binary.exactDecimal
  split
  · rename_i whole
    have power : (2 : ℚ) ^ b.exponent = 2 ^ b.exponent.toNat := by
      rw [← zpow_natCast, Int.toNat_of_nonneg whole]
    change ((b.mantissa * 2 ^ b.exponent.toNat : ℕ) : ℚ) * 10 ^ (0 : ℤ) = _
    rw [power, zpow_zero, mul_one]
    push_cast
    rfl
  · rename_i fraction
    have negative : b.exponent = -((-b.exponent).toNat : ℤ) := by omega
    change ((b.mantissa * 5 ^ (-b.exponent).toNat : ℕ) : ℚ) * 10 ^ b.exponent = _
    generalize (-b.exponent).toNat = k at negative
    rw [negative, zpow_neg, zpow_neg, zpow_natCast, zpow_natCast, show (10 : ℚ) = 5 * 2 by norm_num, mul_pow]
    push_cast
    field_simp

theorem value_strip (d : Decimal) : d.strip.value = d.value := by
  fun_induction Decimal.strip d with
  | case1 d h ih =>
    rw [ih]
    have digits : (d.digits : ℚ) = ((d.digits / 10 : ℕ) : ℚ) * 10 := by
      exact_mod_cast (show d.digits = d.digits / 10 * 10 by omega)
    change ((d.digits / 10 : ℕ) : ℚ) * 10 ^ (d.exponent + 1) = d.digits * 10 ^ d.exponent
    rw [digits, zpow_add_one₀ (by norm_num)]
    ring
  | case2 d h => rfl

/-- The shortest decimal of a positive number rounds to it. -/
theorem nearest_shortest (tie : Tie) (pos : 0 < b.mantissa) : Nearest b (shortest tie b).value := by
  unfold shortest
  rw [if_neg pos.ne']
  dsimp only
  rw [value_strip]
  generalize search : (List.range 17).findSome? (fun n : ℕ =>
    (Interval.around b).onGrid? tie ((Interval.around b).magnitude - ((n : ℤ) + 1))) = found
  cases found with
  | none =>
    rw [Option.getD_none, value_exactDecimal]
    exact nearest_value b
  | some d =>
    obtain ⟨n, -, onGrid⟩ := List.exists_of_findSome?_eq_some search
    obtain ⟨holds, exponent⟩ := holds_of_onGrid? onGrid
    have near := nearest_of_holds pos holds
    rw [← exponent] at near
    exact near

end DerivedColumns.Number
