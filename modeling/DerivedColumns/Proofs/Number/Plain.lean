import DerivedColumns.Number.Layout
import DerivedColumns.Number.Reader
import DerivedColumns.Formula.Token
import Mathlib

set_option autoImplicit false

namespace DerivedColumns

namespace Number

/-- The text is a whole part and, after a point, a fraction; no point is written before no fraction. -/
structure Digits (s whole fraction : List Char) : Prop where
  eq : s = whole ++ (if fraction = [] then [] else '.' :: fraction)
  ne_nil : whole ≠ []
  whole : ∀ c ∈ whole, c.isDigit = true
  fraction : ∀ c ∈ fraction, c.isDigit = true

theorem isDigit_zeros (n : Nat) : ∀ c ∈ zeros n, c.isDigit = true := by
  intro c hc
  rw [(List.mem_replicate.1 hc).2]
  rfl

theorem ofDigits_append (ds : List Char) (es : List Char) :
    ofDigits (ds ++ es) = es.foldl (fun n c => 10 * n + (c.toNat - '0'.toNat)) (ofDigits ds) :=
  List.foldl_append ..

theorem ofDigits_append_zeros (ds : List Char) (k : Nat) :
    ofDigits (ds ++ zeros k) = ofDigits ds * 10 ^ k := by
  induction k with
  | zero => rw [zeros, List.replicate_zero, List.append_nil, Nat.pow_zero, Nat.mul_one]
  | succ k ih =>
    have step : zeros (k + 1) = zeros k ++ ['0'] := List.replicate_succ'
    rw [step, ← List.append_assoc, ofDigits_append, ih, Nat.pow_succ]
    change 10 * (ofDigits ds * 10 ^ k) + 0 = _
    rw [Nat.add_zero, Nat.mul_comm 10, Nat.mul_assoc]

theorem ofDigits_zeros_append (k : Nat) (ds : List Char) : ofDigits (zeros k ++ ds) = ofDigits ds := by
  have zero : ofDigits (zeros k) = 0 := by
    have := ofDigits_append_zeros [] k
    have none : ofDigits [] = 0 := rfl
    rwa [List.nil_append, none, Nat.zero_mul] at this
  rw [ofDigits_append, zero]
  rfl

theorem ofDigits_toDigits (n : Nat) : ofDigits (Nat.toDigits 10 n) = n :=
  Nat.ofDigitChars_ten_toDigits

/-- Digits set out with every place: as many of them stand after the point as the exponent says, and zeros
stand for the places that are not digits. -/
theorem digits_placed {ds : List Char} (ne_nil : ds ≠ []) (digit : ∀ c ∈ ds, c.isDigit = true)
    (exponent : Int) : ∃ whole fraction, Digits (placed false ds exponent) whole fraction ∧
      fraction.length = (-exponent).toNat ∧
      ofDigits (whole ++ fraction) = ofDigits ds * 10 ^ exponent.toNat := by
  unfold placed
  split
  · refine ⟨ds ++ zeros exponent.toNat, [], ⟨by simp, by simp [ne_nil], ?_, by simp⟩, ?_, ?_⟩
    · intro c hc
      rcases List.mem_append.1 hc with hc | hc
      · exact digit c hc
      · exact isDigit_zeros _ c hc
    · rw [List.length_nil]
      omega
    · rw [List.append_nil, ofDigits_append_zeros]
  · rename_i negative
    have none : exponent.toNat = 0 := by omega
    rw [none, Nat.pow_zero, Nat.mul_one]
    dsimp only
    split
    · rename_i fewer
      have some : ds.drop (ds.length - (-exponent).toNat) ≠ [] := by
        rw [ne_eq, List.drop_eq_nil_iff]
        omega
      refine ⟨ds.take (ds.length - (-exponent).toNat), ds.drop (ds.length - (-exponent).toNat), ⟨?_, ?_,
        fun c hc => digit c (List.mem_of_mem_take hc), fun c hc => digit c (List.mem_of_mem_drop hc)⟩, ?_, ?_⟩
      · rw [if_neg some]
      · rw [ne_eq, List.take_eq_nil_iff, not_or]
        exact ⟨by omega, ne_nil⟩
      · rw [List.length_drop]
        omega
      · rw [List.take_append_drop]
    · have some : zeros ((-exponent).toNat - ds.length) ++ ds ≠ [] := by simp [ne_nil]
      refine ⟨['0'], zeros ((-exponent).toNat - ds.length) ++ ds, ⟨?_, by simp, ?_, ?_⟩, ?_, ?_⟩
      · rw [if_neg some]
        rfl
      · intro c hc
        rw [List.mem_singleton.1 hc]
        rfl
      · intro c hc
        rcases List.mem_append.1 hc with hc | hc
        · exact isDigit_zeros _ c hc
        · exact digit c hc
      · rw [List.length_append, zeros, List.length_replicate]
        omega
      · have zero : ['0'] = zeros 1 := rfl
        rw [zero, ofDigits_zeros_append, ofDigits_zeros_append]

def plainDigits (x : Number) : List Char :=
  Layout.plain.decimal (shortest Layout.plain.tie x.toBinary)

theorem digits_plainDigits (x : Number) : ∃ whole fraction, Digits x.plainDigits whole fraction ∧
    fraction.length = (-(shortest Layout.plain.tie x.toBinary).exponent).toNat ∧
    ofDigits (whole ++ fraction) = (shortest Layout.plain.tie x.toBinary).digits *
      10 ^ (shortest Layout.plain.tie x.toBinary).exponent.toNat := by
  have placed := digits_placed
    (Nat.toDigits_ne_nil (b := 10) (n := (shortest Layout.plain.tie x.toBinary).digits))
    (fun c hc => Nat.isDigit_of_mem_toDigits (by decide) (by decide) hc)
    (shortest Layout.plain.tie x.toBinary).exponent
  rwa [ofDigits_toDigits] at placed

theorem negative_toBinary (x : Number) : x.toBinary.negative = x.isNegative := by
  unfold toBinary
  dsimp only
  split <;> rfl

theorem chars_of_isFinite {x : Number} (finite : x.isFinite = true) :
    x.chars = (if x.isNegative then ['-'] else []) ++ x.plainDigits := by
  have proper : x.isNaN = false := by
    unfold isFinite at finite
    unfold isNaN
    simp only [decide_eq_true_eq] at finite
    simp only [decide_eq_false_iff_not]
    omega
  rw [chars, proper, finite]
  simp only [Bool.false_eq_true, if_false, if_true, Layout.finite, negative_toBinary]
  rfl

theorem toNat_bits_neg (x : Number) : (-x).bits.toNat = x.bits.toNat ^^^ 2 ^ 63 := by
  change (x.bits ^^^ 0x8000000000000000).toNat = _
  rw [UInt64.toNat_xor]
  rfl

@[simp] theorem neg_neg (x : Number) : -(-x) = x := by
  change (⟨(x.bits ^^^ 0x8000000000000000) ^^^ 0x8000000000000000⟩ : Number) = x
  rw [UInt64.xor_assoc, UInt64.xor_self, UInt64.xor_zero]

@[simp] theorem magnitude_neg (x : Number) : (-x).magnitude = x.magnitude := by
  change (-x).bits.toNat % 2 ^ 63 = x.bits.toNat % 2 ^ 63
  rw [toNat_bits_neg, Nat.xor_mod_two_pow, Nat.mod_self, Nat.xor_zero]

@[simp] theorem isNegative_neg (x : Number) : (-x).isNegative = !x.isNegative := by
  have size : x.bits.toNat < 2 ^ 64 := x.bits.toNat_lt
  have flip : (-x).bits.toNat / 2 ^ 63 = x.bits.toNat / 2 ^ 63 ^^^ 1 := by
    rw [toNat_bits_neg, Nat.xor_div_two_pow, Nat.div_self (by decide)]
  change decide (2 ^ 63 ≤ (-x).bits.toNat) = !decide (2 ^ 63 ≤ x.bits.toNat)
  by_cases negative : 2 ^ 63 ≤ x.bits.toNat
  · rw [show x.bits.toNat / 2 ^ 63 = 1 by omega] at flip
    have low : ¬ 2 ^ 63 ≤ (-x).bits.toNat := by
      rw [Nat.xor_self] at flip
      omega
    rw [decide_eq_true negative, decide_eq_false low]
    rfl
  · rw [show x.bits.toNat / 2 ^ 63 = 0 by omega, Nat.zero_xor] at flip
    have high : 2 ^ 63 ≤ (-x).bits.toNat := by omega
    rw [decide_eq_false negative, decide_eq_true high]
    rfl

@[simp] theorem isFinite_neg (x : Number) : (-x).isFinite = x.isFinite := by
  simp only [isFinite, magnitude_neg]

theorem plainDigits_neg (x : Number) : (-x).plainDigits = x.plainDigits := by
  have same : (-x).toBinary.mantissa = x.toBinary.mantissa ∧
      (-x).toBinary.exponent = x.toBinary.exponent := by
    simp only [toBinary, magnitude_neg]
    split <;> exact ⟨rfl, rfl⟩
  have alike : ∀ b b' : Binary, b.mantissa = b'.mantissa → b.exponent = b'.exponent →
      shortest Layout.plain.tie b = shortest Layout.plain.tie b' := by
    rintro ⟨s, m, e⟩ ⟨s', m', e'⟩ rfl rfl
    rfl
  rw [plainDigits, plainDigits, alike _ _ same.1 same.2]

/-- The text cannot go on with the digits, the point or the exponent of a number before it, nor with the
letters of a name. -/
def Apart (s : List Char) : Prop := ∀ c ∈ s.head?, Formula.isWordPart c = false ∧ c ≠ '.'

theorem spanDigits_append {ds s : List Char} (digit : ∀ c ∈ ds, c.isDigit = true)
    (stop : ∀ c ∈ s.head?, c.isDigit = false) : spanDigits (ds ++ s) = (ds, s) := by
  have stopped : s.takeWhile Char.isDigit = [] ∧ s.dropWhile Char.isDigit = s := by
    cases s with
    | nil => exact ⟨rfl, rfl⟩
    | cons c s =>
      have no := stop c rfl
      exact ⟨by rw [List.takeWhile_cons, no]; rfl, by rw [List.dropWhile_cons, no]; rfl⟩
  rw [spanDigits, List.takeWhile_append_of_pos digit, List.dropWhile_append_of_pos digit, stopped.1,
    stopped.2, List.append_nil]

theorem Apart.isDigit {s : List Char} (h : Apart s) : ∀ c ∈ s.head?, c.isDigit = false := by
  intro c hc
  have := (h c hc).1
  simp only [Formula.isWordPart, Char.isAlphanum, Bool.or_eq_false_iff] at this
  exact this.1.1.2

theorem Apart.spanExponent {s : List Char} (h : Apart s) : spanExponent s = (0, s) := by
  cases s with
  | nil => rfl
  | cons c s =>
    have mark : ¬ (c = 'e' ∨ c = 'E') := by
      rintro (rfl | rfl)
      all_goals exact absurd (h _ rfl).1 (by decide)
    simp only [Number.spanExponent, exponent?, if_neg mark]
    rfl

namespace Digits

variable {s whole fraction rest : List Char}

theorem head (h : Digits s whole fraction) : ∃ d ds, s = d :: ds ∧ d.isDigit = true := by
  obtain ⟨d, ds, rfl⟩ := List.exists_cons_of_ne_nil h.ne_nil
  exact ⟨d, _, h.eq, h.whole d List.mem_cons_self⟩

theorem numeral_append (h : Digits s whole fraction) (apart : Apart rest) :
    Formula.numeral? (s ++ rest) = some (⟨whole, fraction, 0⟩, rest) := by
  obtain ⟨d, ds, hw⟩ := List.exists_cons_of_ne_nil h.ne_nil
  have no_point : ∀ after more, whole ++ after ≠ '.' :: more := by
    intro after more e
    rw [hw] at e
    cases e
    cases h.whole '.' (by rw [hw]; exact List.mem_cons_self)
  by_cases point : fraction = []
  · have digits := spanDigits_append h.whole apart.isDigit
    rw [h.eq, if_pos point, List.append_nil, Formula.numeral?, digits, hw, point]
    dsimp only
    split
    · exact absurd rfl (apart '.' rfl).2
    · rw [apart.spanExponent]
    · exact no_point rest
  · obtain ⟨f, fs, hf⟩ := List.exists_cons_of_ne_nil point
    have digits := spanDigits_append (s := '.' :: (fraction ++ rest)) h.whole
      fun c hc => by cases hc; rfl
    have more := spanDigits_append h.fraction apart.isDigit
    rw [h.eq, if_neg point, List.append_assoc, List.cons_append, Formula.numeral?, digits, hw]
    · dsimp only
      simp only [more]
      simp only [hf, apart.spanExponent]
    · exact no_point _

theorem numeral (h : Digits s whole fraction) : numeral? s = some ⟨whole, fraction, 0⟩ := by
  by_cases point : fraction = []
  · have digits := spanDigits_append (s := []) h.whole fun c hc => by cases hc
    rw [List.append_nil] at digits
    rw [h.eq, if_pos point, List.append_nil, numeral?, digits]
    simp [h.ne_nil, Number.spanExponent, exponent?, point]
  · have digits := spanDigits_append (s := '.' :: fraction) h.whole fun c hc => by cases hc; rfl
    have more := spanDigits_append (s := []) h.fraction fun c hc => by cases hc
    rw [List.append_nil] at more
    rw [h.eq, if_neg point, numeral?, digits]
    simp [h.ne_nil, more, Number.spanExponent, exponent?]

theorem magnitude (h : Digits s whole fraction) :
    magnitude? s = some (.numeral ⟨whole, fraction, 0⟩) := by
  obtain ⟨d, ds, hs, digit⟩ := h.head
  have lower : d.toLower = d := by
    simp only [Char.isDigit, Bool.and_eq_true, decide_eq_true_eq] at digit
    rw [Char.toLower, dif_neg]
    intro upper
    exact absurd (UInt32.le_trans upper.1 digit.2) (by decide)
  have named : ∀ (c : Char) (cs : List Char), c.isDigit = false →
      String.ofList (s.map Char.toLower) ≠ String.ofList (c :: cs) := by
    intro c cs no e
    rw [String.ofList_inj, hs, List.map_cons, lower] at e
    rw [(List.cons.inj e).1, no] at digit
    cases digit
  have finite : ¬ (String.ofList (s.map Char.toLower) = "inf" ∨
      String.ofList (s.map Char.toLower) = "infinity") := by
    rintro (e | e)
    · exact named 'i' ['n', 'f'] rfl e
    · exact named 'i' ['n', 'f', 'i', 'n', 'i', 't', 'y'] rfl e
  have proper : String.ofList (s.map Char.toLower) ≠ "nan" := named 'n' ['a', 'n'] rfl
  rw [magnitude?, if_neg finite, if_neg proper, h.numeral]
  rfl

theorem read (h : Digits s whole fraction) :
    read? s = some (Numeral.toNumber ⟨whole, fraction, 0⟩) := by
  obtain ⟨d, ds, hs, digit⟩ := h.head
  have unsigned : signed? s = (magnitude? s).map (false, ·) := by
    rw [hs]
    unfold signed?
    split
    · rename_i e; cases e; cases digit
    · rename_i e; cases e; cases digit
    · rfl
  rw [read?, readBy?, unsigned, h.magnitude]
  rfl

theorem read_neg (h : Digits s whole fraction) :
    read? ('-' :: s) = some (-Numeral.toNumber ⟨whole, fraction, 0⟩) := by
  rw [read?, readBy?, signed?, h.magnitude]
  rfl

end Digits

end Number

end DerivedColumns
