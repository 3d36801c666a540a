import DerivedColumns.Number.Shortest
import Mathlib

set_option autoImplicit false

/-!
Floats are rounded by shifting a mantissa to the right, with two more bits for what is lost. What is shifted
keeps its exact value here, as a fraction, and the number that comes out is the one in whose interval of
nearest values that value lies.
-/

namespace DerivedColumns.Number

open Float.Model Float.Model.UnpackedFloat

structure RoundsTo (y : ℚ) (n : ℕ) : Prop where
  low : (n : ℚ) ≤ y + 1 / 2
  high : y ≤ n + 1 / 2
  odd : n % 2 = 1 → (n : ℚ) < y + 1 / 2 ∧ y < n + 1 / 2

theorem RoundsTo.not_lt {y : ℚ} {m n : ℕ} (hm : RoundsTo y m) (hn : RoundsTo y n) : ¬ m < n := by
  intro less
  have step : (m : ℚ) + 1 ≤ n := by exact_mod_cast less
  have above := hm.high
  have below := hn.low
  have next : (n : ℚ) = m + 1 := by linarith
  have next : n = m + 1 := by exact_mod_cast next
  rcases Nat.mod_two_eq_zero_or_one m with even | odd
  · have := (hn.odd (by omega)).1
    linarith
  · have := (hm.odd odd).2
    linarith

theorem RoundsTo.unique {y : ℚ} {m n : ℕ} (hm : RoundsTo y m) (hn : RoundsTo y n) : m = n :=
  Nat.le_antisymm (Nat.not_lt.1 (hn.not_lt hm)) (Nat.not_lt.1 (hm.not_lt hn))

/-- The value that a mantissa with a round bit and a sticky bit stands for. -/
def Represents (em : ExtendedMantissa) (y : ℚ) : Prop :=
  match em.roundBit, em.stickyBit with
  | false, false => y = em.mantissa
  | false, true => (em.mantissa : ℚ) < y ∧ y < em.mantissa + 1 / 2
  | true, false => y = em.mantissa + 1 / 2
  | true, true => (em.mantissa : ℚ) + 1 / 2 < y ∧ y < em.mantissa + 1

theorem Represents.bounds {em : ExtendedMantissa} {y : ℚ} (h : Represents em y) :
    (em.mantissa : ℚ) ≤ y ∧ y < em.mantissa + 1 := by
  obtain ⟨m, r, s⟩ := em
  cases r <;> cases s <;> simp only [Represents] at h ⊢ <;> constructor <;> linarith

theorem Represents.roundsTo {em : ExtendedMantissa} {y : ℚ} (h : Represents em y) :
    RoundsTo y em.roundedMantissa := by
  obtain ⟨m, r, s⟩ := em
  cases r <;> cases s <;>
    simp only [Represents, ExtendedMantissa.roundedMantissa, ExtendedMantissa.accuracy,
      Accuracy.roundToNearestEven] at h ⊢
  · exact ⟨by linarith, by linarith, fun _ => ⟨by linarith, by linarith⟩⟩
  · exact ⟨by linarith, by linarith, fun _ => ⟨by linarith, by linarith⟩⟩
  · rcases Nat.mod_two_eq_zero_or_one m with even | odd
    · rw [even, Nat.add_zero]
      exact ⟨by linarith, by linarith, fun odd => by omega⟩
    · rw [odd]
      exact ⟨by push_cast; linarith, by push_cast; linarith, fun odd => by omega⟩
  · exact ⟨by push_cast; linarith, by push_cast; linarith,
      fun _ => ⟨by push_cast; linarith, by push_cast; linarith⟩⟩

theorem Represents.shiftRightOne {em : ExtendedMantissa} {y : ℚ} (h : Represents em y) :
    Represents em.shiftRightOne (y / 2) := by
  obtain ⟨m, r, s⟩ := em
  have halves : ((m / 2 : ℕ) : ℚ) * 2 + ((m % 2 : ℕ) : ℚ) = m := by
    exact_mod_cast Nat.div_add_mod' m 2
  rcases Nat.mod_two_eq_zero_or_one m with bit | bit <;> rw [bit] at halves <;> push_cast at halves <;>
    cases r <;> cases s <;>
    simp only [Represents, ExtendedMantissa.shiftRightOne, bit, Bool.or_false, Bool.or_true, bne_self_eq_false,
      show ((1 : ℕ) != 0) = true from rfl] at h ⊢ <;>
    first | linarith | (constructor <;> linarith)

theorem Represents.shiftRight {em : ExtendedMantissa} {y : ℚ} (h : Represents em y) (k : ℕ) :
    Represents (em >>> k) (y / 2 ^ k) := by
  change Represents (k.repeat ExtendedMantissa.shiftRightOne em) _
  induction k with
  | zero => simpa [Nat.repeat] using h
  | succ k ih =>
    rw [Nat.repeat, pow_succ, ← div_div]
    exact ih.shiftRightOne

structure Binary.Canonical (b : Binary) : Prop where
  size : b.mantissa < 2 ^ 53
  least : -1074 ≤ b.exponent
  greatest : b.exponent ≤ 971
  normal : 2 ^ 52 ≤ b.mantissa ∨ b.exponent = -1074

def Binary.reachBelow (b : Binary) : ℕ :=
  if b.mantissa = 2 ^ 52 ∧ leastExponent < b.exponent then 1 else 2

/-- The value rounds to the number. -/
structure Nearest (b : Binary) (v : ℚ) : Prop where
  low : (4 * b.mantissa - b.reachBelow : ℚ) * 2 ^ (b.exponent - 2) ≤ v
  high : v ≤ (4 * b.mantissa + 2 : ℚ) * 2 ^ (b.exponent - 2)
  odd : b.mantissa % 2 = 1 →
    (4 * b.mantissa - b.reachBelow : ℚ) * 2 ^ (b.exponent - 2) < v ∧
      v < (4 * b.mantissa + 2 : ℚ) * 2 ^ (b.exponent - 2)

theorem two_zpow_pos (e : ℤ) : (0 : ℚ) < 2 ^ e := zpow_pos (by norm_num) e

theorem two_zpow_le {d e : ℤ} (h : d ≤ e) : (2 : ℚ) ^ d ≤ 2 ^ e :=
  zpow_le_zpow_right₀ (by norm_num) h

theorem quarter (e : ℤ) : (2 : ℚ) ^ e = 4 * 2 ^ (e - 2) := by
  rw [zpow_sub₀ (by norm_num)]
  norm_num
  ring

theorem two_zpow_add (e : ℤ) (k : ℕ) : (2 : ℚ) ^ (e + k) = 2 ^ k * 2 ^ e := by
  rw [zpow_add₀ (by norm_num), zpow_natCast, mul_comm]

theorem reachBelow_le (b : Binary) : (b.reachBelow : ℚ) ≤ 2 := by
  have : b.reachBelow ≤ 2 := by
    unfold Binary.reachBelow
    split <;> decide
  exact_mod_cast this

theorem nearest_value (b : Binary) : Nearest b (b.mantissa * 2 ^ b.exponent) := by
  have unit := two_zpow_pos (b.exponent - 2)
  have reach : (1 : ℚ) ≤ b.reachBelow := by
    have : 1 ≤ b.reachBelow := by
      unfold Binary.reachBelow
      split <;> decide
    exact_mod_cast this
  rw [quarter b.exponent]
  exact ⟨by nlinarith, by nlinarith, fun _ => ⟨by nlinarith, by nlinarith⟩⟩

/-- Where the value lies when it is counted in units of a place with 53 bits. -/
structure InPlace (t : ℤ) (v : ℚ) : Prop where
  least : -1074 ≤ t
  below : v < 2 ^ (t + 53)
  above : t = -1074 ∨ 2 ^ (t + 52) ≤ v

theorem InPlace.rounded_le {t : ℤ} {v : ℚ} (h : InPlace t v) {r : ℕ} (rounded : RoundsTo (v / 2 ^ t) r) :
    r ≤ 2 ^ 53 := by
  have below : v / 2 ^ t < 2 ^ 53 := by
    rw [div_lt_iff₀ (two_zpow_pos t), ← two_zpow_add t 53]
    exact h.below
  have low := rounded.low
  have : (r : ℚ) < 2 ^ 53 + 1 := by linarith
  exact Nat.lt_succ_iff.1 (by exact_mod_cast this)

theorem InPlace.le_rounded {t : ℤ} {v : ℚ} (h : InPlace t v) {r : ℕ} (rounded : RoundsTo (v / 2 ^ t) r) :
    2 ^ 52 ≤ r ∨ t = -1074 := by
  rcases h.above with least | above
  · exact .inr least
  · left
    have above : (2 : ℚ) ^ 52 ≤ v / 2 ^ t := by
      rw [le_div_iff₀ (two_zpow_pos t), ← two_zpow_add t 52]
      exact above
    have high := rounded.high
    have : (2 : ℚ) ^ 52 < r + 1 := by linarith
    exact Nat.lt_succ_iff.1 (by exact_mod_cast this)

theorem Nearest.lt_top {b : Binary} (canonical : b.Canonical) {v : ℚ} (near : Nearest b v) :
    v < 2 ^ (b.exponent + 53) := by
  have unit := two_zpow_pos (b.exponent - 2)
  have size : (b.mantissa : ℚ) + 1 ≤ 2 ^ 53 := by exact_mod_cast canonical.size
  have high := near.high
  have top := two_zpow_add b.exponent 53
  rw [quarter b.exponent] at top
  push_cast at top
  rw [top]
  nlinarith

theorem Nearest.roundsTo {b : Binary} {v : ℚ} (near : Nearest b v) :
    RoundsTo (v / 2 ^ b.exponent) b.mantissa := by
  have unit := two_zpow_pos (b.exponent - 2)
  have reach := reachBelow_le b
  have low := near.low
  have high := near.high
  have whole := quarter b.exponent
  have pos := two_zpow_pos b.exponent
  refine ⟨?_, ?_, fun odd => ?_⟩
  · rw [← sub_le_iff_le_add, le_div_iff₀ pos, whole]
    nlinarith
  · rw [div_le_iff₀ pos, whole]
    nlinarith
  · obtain ⟨low, high⟩ := near.odd odd
    constructor
    · rw [← sub_lt_iff_lt_add, lt_div_iff₀ pos, whole]
      nlinarith
    · rw [div_lt_iff₀ pos, whole]
      nlinarith

/-- Only a power of two is rounded to from a lower place, and only from the one below its own. -/
theorem Nearest.power_of_lt {b : Binary} (canonical : b.Canonical) {v : ℚ} (near : Nearest b v) {t : ℤ}
    (place : InPlace t v) (less : t < b.exponent) :
    t + 1 = b.exponent ∧ b.mantissa = 2 ^ 52 ∧ b.reachBelow = 1 := by
  have unit := two_zpow_pos (b.exponent - 2)
  have reach := reachBelow_le b
  have low := near.low
  have least := place.least
  have below := place.below
  have normal : 2 ^ 52 ≤ b.mantissa := canonical.normal.resolve_right (by omega)
  have power : b.mantissa = 2 ^ 52 := by
    by_contra no
    have more : (2 : ℚ) ^ 52 + 1 ≤ b.mantissa := by exact_mod_cast (by omega : 2 ^ 52 + 1 ≤ b.mantissa)
    have step := two_zpow_le (show t + 53 ≤ b.exponent + (52 : ℕ) by push_cast; omega)
    rw [two_zpow_add, quarter b.exponent] at step
    nlinarith
  have half : b.reachBelow = 1 := if_pos ⟨power, by unfold leastExponent; omega⟩
  rw [power, half] at low
  push_cast at low
  refine ⟨?_, power, half⟩
  by_contra no
  have step := two_zpow_le (show t + 53 ≤ (b.exponent - 2) + (53 : ℕ) by push_cast; omega)
  rw [two_zpow_add] at step
  nlinarith

theorem Nearest.roundsTo_below {b : Binary} {v : ℚ} (near : Nearest b v) {t : ℤ} (place : InPlace t v)
    (next : t + 1 = b.exponent) (power : b.mantissa = 2 ^ 52) (half : b.reachBelow = 1) :
    RoundsTo (v / 2 ^ t) (2 ^ 53) := by
  have low := near.low
  rw [power, half] at low
  push_cast at low
  have pos := two_zpow_pos t
  have double : (2 : ℚ) ^ t = 2 * 2 ^ (b.exponent - 2) := by
    have := two_zpow_add (b.exponent - 2) 1
    rw [show b.exponent - 2 + ((1 : ℕ) : ℤ) = t by push_cast; omega] at this
    rw [this, pow_one]
  have under : v < 2 ^ 53 * 2 ^ t := by
    rw [← two_zpow_add t 53]
    exact place.below
  refine ⟨?_, ?_, fun odd => absurd odd (by decide)⟩
  · rw [← sub_le_iff_le_add, le_div_iff₀ pos, double]
    push_cast
    nlinarith
  · rw [div_le_iff₀ pos]
    push_cast
    nlinarith

/-- The place of a value that rounds to a number is that of the number, or the one below if the value is
below a power of two that it rounds to. -/
theorem Nearest.place {b : Binary} (canonical : b.Canonical) {v : ℚ} (near : Nearest b v)
    {t : ℤ} (place : InPlace t v) :
    (t = b.exponent ∧ RoundsTo (v / 2 ^ t) b.mantissa) ∨
      (t + 1 = b.exponent ∧ b.mantissa = 2 ^ 52 ∧ RoundsTo (v / 2 ^ t) (2 ^ 53)) := by
  have le : t ≤ b.exponent := by
    by_contra no
    have least := canonical.least
    have above := place.above.resolve_left (by omega)
    have top := near.lt_top canonical
    have := two_zpow_le (show b.exponent + 53 ≤ t + 52 by omega)
    linarith
  rcases eq_or_lt_of_le le with rfl | less
  · exact .inl ⟨rfl, near.roundsTo⟩
  · obtain ⟨next, power, half⟩ := near.power_of_lt canonical place less
    exact .inr ⟨next, power, near.roundsTo_below place next power half⟩

theorem targetExponent_eq (m : ℕ) (e : ℤ) :
    Format.binary64.targetExponent (totalExponent m e) = max (m.log2 + e - 52) (-1074) := by
  simp only [Format.targetExponent, totalExponent, Format.mantissaBits, Format.minExponent]
  norm_num
  omega

theorem inPlace_target {m : ℕ} {e : ℤ} {y : ℚ} (low : (m : ℚ) ≤ y) (high : y < m + 1)
    (enough : e ≤ Format.binary64.targetExponent (totalExponent m e)) :
    InPlace (Format.binary64.targetExponent (totalExponent m e)) (y * 2 ^ e) := by
  rw [targetExponent_eq] at enough ⊢
  have pos := two_zpow_pos e
  have next : (m : ℚ) + 1 ≤ 2 ^ (m.log2 + 1) := by exact_mod_cast Nat.lt_log2_self
  have above : y * 2 ^ e < 2 ^ (e + (m.log2 + 1 : ℕ)) := by
    rw [two_zpow_add]
    nlinarith
  refine ⟨le_max_right _ _, lt_of_lt_of_le above (two_zpow_le ?_), ?_⟩
  · push_cast
    omega
  · by_cases least : (m.log2 + e - 52 : ℤ) ≤ -1074
    · exact .inl (max_eq_right least)
    · right
      rw [max_eq_left (by omega), show (m.log2 + e - 52 + 52 : ℤ) = e + (m.log2 : ℕ) by omega, two_zpow_add]
      have some : m ≠ 0 := by
        rintro rfl
        rw [Nat.log2_zero] at enough least
        omega
      have : ((2 : ℚ) ^ m.log2) ≤ m := by exact_mod_cast Nat.log2_self_le some
      nlinarith

theorem shiftToTarget_small {m : ℕ} (size : m < 2 ^ 53) {e : ℤ} (least : -1074 ≤ e) :
    shiftToTargetExponent Format.binary64 m e .exact = (⟨m, false, false⟩, e) := by
  have bits : m.log2 ≤ 52 := by
    by_cases zero : m = 0
    · rw [zero, Nat.log2_zero]
      decide
    · have := (Nat.log2_lt zero).2 size
      omega
  have still : (Format.binary64.targetExponent (totalExponent m e) - e).toNat = 0 := by
    rw [targetExponent_eq]
    omega
  simp only [shiftToTargetExponent, shiftToExponent, still, Int.ofNat_zero, Int.add_zero]
  rfl

theorem shiftToTarget_carry {e : ℤ} (least : -1074 ≤ e) :
    shiftToTargetExponent Format.binary64 (2 ^ 53) e .exact = (⟨2 ^ 52, false, false⟩, e + 1) := by
  have one : (Format.binary64.targetExponent (totalExponent (2 ^ 53) e) - e).toNat = 1 := by
    rw [targetExponent_eq, Nat.log2_two_pow]
    omega
  simp only [shiftToTargetExponent, shiftToExponent, one]
  rfl

theorem shiftToTarget_exponent {m : ℕ} {e : ℤ} (accuracy : Accuracy)
    (enough : e ≤ Format.binary64.targetExponent (totalExponent m e)) :
    (shiftToTargetExponent Format.binary64 m e accuracy).2 =
      Format.binary64.targetExponent (totalExponent m e) := by
  simp only [shiftToTargetExponent, shiftToExponent]
  omega

def settled (sign : Sign) (r : ℕ) (t : ℤ) : UnpackedFloat :=
  if h : r = 0 then .zero sign
  else if r = 2 ^ 53 then .finite sign (2 ^ 52) (t + 1) (by decide)
  else .finite sign r t (Nat.pos_of_ne_zero h)

/-- A value is counted in units of its place and rounded to a whole number of them. -/
theorem roundWithAccuracy_eq (sign : Sign) {m : ℕ} {e : ℤ} {accuracy : Accuracy} {y : ℚ}
    (exact : Represents (ExtendedMantissa.ofMantissaAndAccuracy m accuracy) y)
    (enough : e ≤ Format.binary64.targetExponent (totalExponent m e)) :
    ∃ r, InPlace (Format.binary64.targetExponent (totalExponent m e)) (y * 2 ^ e) ∧
      RoundsTo (y * 2 ^ e / 2 ^ Format.binary64.targetExponent (totalExponent m e)) r ∧
      roundWithAccuracy Format.binary64 sign m e accuracy =
        settled sign r (Format.binary64.targetExponent (totalExponent m e)) := by
  have whole : (ExtendedMantissa.ofMantissaAndAccuracy m accuracy).mantissa = m := by
    cases accuracy with
    | exact => rfl
    | inexact o => cases o <;> rfl
  obtain ⟨low, high⟩ := exact.bounds
  rw [whole] at low high
  have inPlace := inPlace_target low high enough
  have exponent := shiftToTarget_exponent accuracy enough
  generalize target : Format.binary64.targetExponent (totalExponent m e) = t at *
  have shifted : Represents (shiftToTargetExponent Format.binary64 m e accuracy).1 (y * 2 ^ e / 2 ^ t) := by
    have := exact.shiftRight (t - e).toNat
    have same : y / 2 ^ (t - e).toNat = y * 2 ^ e / 2 ^ t := by
      have split : (2 : ℚ) ^ t = 2 ^ (t - e).toNat * 2 ^ e := by
        rw [← two_zpow_add, Int.toNat_of_nonneg (by omega)]
        congr 1
        omega
      rw [split]
      field_simp
    rw [same] at this
    simpa only [shiftToTargetExponent, shiftToExponent, target] using this
  have rounded := shifted.roundsTo
  refine ⟨_, inPlace, rounded, ?_⟩
  have most := inPlace.rounded_le rounded
  unfold roundWithAccuracy settled
  generalize first : shiftToTargetExponent Format.binary64 m e accuracy = shift at *
  obtain ⟨em, d⟩ := shift
  dsimp only at exponent rounded most ⊢
  subst exponent
  by_cases carry : em.roundedMantissa = 2 ^ 53
  · rw [carry, shiftToTarget_carry inPlace.least]
    rfl
  · rw [shiftToTarget_small (by omega) inPlace.least]
    simp only [if_neg carry]

/-- A value that rounds to a number is rounded to it. -/
theorem roundWithAccuracy_nearest {b : Binary} (canonical : b.Canonical) (pos : 0 < b.mantissa) {m : ℕ}
    {e : ℤ} {accuracy : Accuracy} {y : ℚ}
    (exact : Represents (ExtendedMantissa.ofMantissaAndAccuracy m accuracy) y)
    (enough : e ≤ Format.binary64.targetExponent (totalExponent m e)) (near : Nearest b (y * 2 ^ e)) :
    roundWithAccuracy Format.binary64 .positive m e accuracy =
      .finite .positive b.mantissa b.exponent pos := by
  obtain ⟨r, inPlace, rounded, result⟩ := roundWithAccuracy_eq .positive exact enough
  rw [result]
  generalize Format.binary64.targetExponent (totalExponent m e) = t at *
  rcases near.place canonical inPlace with ⟨rfl, nearest⟩ | ⟨next, power, nearest⟩
  · rw [rounded.unique nearest, settled, dif_neg pos.ne', if_neg canonical.size.ne]
  · rw [rounded.unique nearest, settled, dif_neg (by decide), if_pos rfl]
    simp only [power, next]

end DerivedColumns.Number
