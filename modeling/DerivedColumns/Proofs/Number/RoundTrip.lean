import DerivedColumns.Proofs.Number.Decimal
import DerivedColumns.Proofs.Number.Plain
import DerivedColumns.Proofs.Number.Scientific

set_option autoImplicit false

namespace DerivedColumns

namespace Number

theorem toNumber_plainDigits {x : Number} (finite : x.isFinite = true) (positive : x.isNegative = false)
    {whole fraction : List Char}
    (places : fraction.length = (-(shortest Layout.plain.tie x.toBinary).exponent).toNat)
    (value : ofDigits (whole ++ fraction) = (shortest Layout.plain.tie x.toBinary).digits *
      10 ^ (shortest Layout.plain.tie x.toBinary).exponent.toNat) :
    Numeral.toNumber ⟨whole, fraction, 0⟩ = x := by
  have denoted : Numeral.toNumber ⟨whole, fraction, 0⟩ =
      nearest (ofDigits (whole ++ fraction)) (-(fraction.length : Int)) := by
    rw [Numeral.toNumber, Numeral.denote, Numeral.digits, Int.zero_sub]
  rw [denoted]
  rcases Nat.eq_zero_or_pos x.toBinary.mantissa with zero | pos
  · have none : ofDigits (whole ++ fraction) = 0 := by
      rw [value, shortest, if_pos zero, Nat.zero_mul]
    have least := (canonical_toBinary finite).normal.resolve_left (by rw [zero]; decide)
    have magnitude := magnitude_toBinary x
    rw [zero, least, magnitude_of_positive positive] at magnitude
    rw [none, nearest, if_pos (.inl rfl)]
    exact congrArg Number.mk (UInt64.toNat_inj.1 magnitude)
  · refine nearest_eq finite positive pos ?_
    have near := nearest_shortest Layout.plain.tie pos
    have same : (ofDigits (whole ++ fraction) : ℚ) / 10 ^ fraction.length =
        (shortest Layout.plain.tie x.toBinary).value := by
      have tens := zpow_toNat (a := 10) (by norm_num) (shortest Layout.plain.tie x.toBinary).exponent
      rw [value, places, Decimal.value]
      push_cast
      rw [← tens]
      field_simp
    rwa [same]

theorem read_chars {x : Number} (finite : x.isFinite = true) : read? x.chars = some x := by
  rw [chars_of_isFinite finite]
  by_cases negative : x.isNegative = true
  · obtain ⟨whole, fraction, digits, places, value⟩ := digits_plainDigits (-x)
    have positive : (-x).isNegative = false := by rw [isNegative_neg, negative]; rfl
    have denoted := toNumber_plainDigits ((isFinite_neg x).trans finite) positive places value
    rw [plainDigits_neg] at digits
    rw [negative, if_pos rfl, List.singleton_append, digits.read_neg, denoted, neg_neg]
  · obtain ⟨whole, fraction, digits, places, value⟩ := digits_plainDigits x
    have denoted := toNumber_plainDigits finite (Bool.eq_false_iff.2 negative) places value
    rw [if_neg negative, List.nil_append, digits.read, denoted]

end Number

namespace Formula

theorem number_chars {x : Number} (finite : x.isFinite = true) (positive : x.isNegative = false)
    {rest : List Char} (apart : Number.Apart rest) : number (x.chars ++ rest) = .ok x rest := by
  obtain ⟨whole, fraction, digits, places, value⟩ := Number.digits_plainDigits x
  have plain : x.chars = x.plainDigits := by
    rw [Number.chars_of_isFinite finite, positive]
    rfl
  have denoted := Number.toNumber_plainDigits finite positive places value
  rw [number, plain, digits.numeral_append apart]
  dsimp only
  rw [denoted, if_pos finite]

end Formula

end DerivedColumns
