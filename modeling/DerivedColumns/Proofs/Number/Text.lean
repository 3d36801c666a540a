import DerivedColumns.Proofs.Number.RoundTrip

set_option autoImplicit false

namespace DerivedColumns.Number

theorem eq_iff (x y : Number) : x = y ↔ x.isNegative = y.isNegative ∧ x.magnitude = y.magnitude := by
  constructor
  · rintro rfl
    exact ⟨rfl, rfl⟩
  · rintro ⟨sign, magnitude⟩
    have hx : x.bits.toNat < 2 ^ 64 := x.bits.toNat_lt
    have hy : y.bits.toNat < 2 ^ 64 := y.bits.toNat_lt
    have sign : 2 ^ 63 ≤ x.bits.toNat ↔ 2 ^ 63 ≤ y.bits.toNat := decide_eq_decide.1 sign
    have magnitude : x.bits.toNat % 2 ^ 63 = y.bits.toNat % 2 ^ 63 := magnitude
    exact congrArg Number.mk (UInt64.toNat_inj.1 (by omega))

theorem eq_infinity {x : Number} (proper : x.isNaN = false) (infinite : x.isFinite = false) :
    x = if x.isNegative then -infinity else infinity := by
  have low : ¬ infiniteMagnitude < x.magnitude := of_decide_eq_false proper
  have high : ¬ x.magnitude < infiniteMagnitude := of_decide_eq_false infinite
  have top : infinity.magnitude = infiniteMagnitude := by decide +kernel
  have positive : infinity.isNegative = false := by decide +kernel
  rw [eq_iff]
  split
  · rename_i negative
    rw [isNegative_neg, magnitude_neg, positive, top]
    exact ⟨negative, by omega⟩
  · rename_i negative
    rw [positive, top]
    exact ⟨Bool.eq_false_iff.2 negative, by omega⟩

theorem chars_of_infinite {x : Number} (proper : x.isNaN = false) (infinite : x.isFinite = false) :
    x.chars = if x.isNegative then ['-', 'i', 'n', 'f'] else ['i', 'n', 'f'] := by
  rw [chars, proper, infinite]
  rfl

theorem chars_of_isNaN {x : Number} (h : x.isNaN = true) : x.chars = ['N', 'a', 'N'] := by
  rw [chars, h]
  rfl

theorem read_chars_of_proper {x : Number} (proper : x.isNaN = false) : read? x.chars = some x := by
  cases finite : x.isFinite with
  | true => exact read_chars finite
  | false =>
    have e := eq_infinity proper finite
    rw [chars_of_infinite proper finite]
    cases negative : x.isNegative with
    | true =>
      rw [negative] at e
      rw [e]
      decide +kernel
    | false =>
      rw [negative] at e
      rw [e]
      decide +kernel

theorem isSome_read_chars (x : Number) : (read? x.chars).isSome = true := by
  cases h : x.isNaN with
  | true =>
    rw [chars_of_isNaN h]
    decide +kernel
  | false =>
    rw [read_chars_of_proper h]
    rfl

theorem text_eq_iff (x y : Number) : x.text = y.text ↔ x = y ∨ (x.isNaN = true ∧ y.isNaN = true) := by
  have nan : read? ['N', 'a', 'N'] = some nan := by decide +kernel
  have only : ∀ {x y : Number}, x.isNaN = true → x.chars = y.chars → y.isNaN = true := by
    intro x y hx same
    cases hy : y.isNaN with
    | true => rfl
    | false =>
      have read := read_chars_of_proper hy
      rw [← same, chars_of_isNaN hx, nan, Option.some.injEq] at read
      rw [← read] at hy
      cases hy
  rw [text, text, String.ofList_inj]
  constructor
  · intro same
    cases hx : x.isNaN with
    | true => exact .inr ⟨rfl, only hx same⟩
    | false =>
      cases hy : y.isNaN with
      | true =>
        rw [only hy same.symm] at hx
        cases hx
      | false =>
        have read := read_chars_of_proper hx
        rw [same, read_chars_of_proper hy, Option.some.injEq] at read
        exact .inl read.symm
  · rintro (rfl | ⟨hx, hy⟩)
    · rfl
    · rw [chars_of_isNaN hx, chars_of_isNaN hy]

theorem Digits.not_mem {s whole fraction : List Char} (h : Digits s whole fraction) {c : Char}
    (other : c.isDigit = false) (point : c ≠ '.') : c ∉ s := by
  have digit : ∀ {ds : List Char}, (∀ d ∈ ds, d.isDigit = true) → c ∉ ds := by
    intro ds all hc
    rw [all c hc] at other
    cases other
  rw [h.eq, List.mem_append, not_or]
  refine ⟨digit h.whole, ?_⟩
  split
  · exact List.not_mem_nil
  · exact fun hc => digit h.fraction ((List.mem_cons.1 hc).resolve_left point)

theorem chars_cases (x : Number) : (∃ sign digits whole fraction, x.chars = sign ++ digits ∧
    (sign = [] ∨ sign = ['-']) ∧ Digits digits whole fraction) ∨
    x.chars ∈ [['N', 'a', 'N'], ['i', 'n', 'f'], ['-', 'i', 'n', 'f']] := by
  cases proper : x.isNaN with
  | true => exact .inr (by simp [chars_of_isNaN proper])
  | false =>
    cases finite : x.isFinite with
    | true =>
      obtain ⟨whole, fraction, digits, -, -⟩ := digits_plainDigits x
      refine .inl ⟨_, _, whole, fraction, chars_of_isFinite finite, ?_, digits⟩
      split
      · exact .inr rfl
      · exact .inl rfl
    | false =>
      rw [chars_of_infinite proper finite]
      split <;> simp

theorem hyphen_not_mem_tail (x : Number) : '-' ∉ x.chars.tail := by
  rcases x.chars_cases with ⟨sign, digits, whole, fraction, e, signs, h⟩ | word
  · have none := h.not_mem (c := '-') rfl (by decide)
    rw [e]
    rcases signs with rfl | rfl
    · exact fun hc => none (List.mem_of_mem_tail hc)
    · exact none
  · simp only [List.mem_cons, List.not_mem_nil, or_false] at word
    rcases word with e | e | e <;> rw [e] <;> decide

theorem bar_not_mem_chars (x : Number) : '|' ∉ x.chars := by
  rcases x.chars_cases with ⟨sign, digits, whole, fraction, e, signs, h⟩ | word
  · have none := h.not_mem (c := '|') rfl (by decide)
    rw [e, List.mem_append, not_or]
    refine ⟨?_, none⟩
    rcases signs with rfl | rfl <;> decide
  · simp only [List.mem_cons, List.not_mem_nil, or_false] at word
    rcases word with e | e | e <;> rw [e] <;> decide

theorem valueKey_eq_iff (x y : Number) : x.valueKey = y.valueKey ↔
    x = y ∨ (x.isZero = true ∧ y.isZero = true) := by
  rw [eq_iff, isZero, isZero, decide_eq_true_eq, decide_eq_true_eq]
  unfold valueKey
  cases x.isNegative <;> cases y.isNegative <;> simp <;> omega

theorem isNaN_of_isZero {x : Number} (h : x.isZero = true) : x.isNaN = false := by
  have zero : x.magnitude = 0 := of_decide_eq_true h
  exact decide_eq_false (by rw [zero]; decide)

theorem equals_iff (x y : Number) : x.equals y = true ↔
    (x.isNaN = false ∧ y.isNaN = false) ∧ (x = y ∨ (x.isZero = true ∧ y.isZero = true)) := by
  unfold equals compare?
  rw [← valueKey_eq_iff]
  cases x.isNaN <;> cases y.isNaN <;> simp

end DerivedColumns.Number
