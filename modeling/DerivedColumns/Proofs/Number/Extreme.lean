import DerivedColumns.Proofs.Number.Text

set_option autoImplicit false

namespace DerivedColumns.Number

theorem infiniteMagnitude_pos : 0 < infiniteMagnitude := by decide

theorem isNaN_neg (x : Number) : (-x).isNaN = x.isNaN := by
  simp only [isNaN, magnitude_neg]

theorem valueKey_neg (x : Number) : (-x).valueKey = -x.valueKey := by
  unfold valueKey
  rw [isNegative_neg, magnitude_neg]
  cases x.isNegative with
  | true => exact (Int.neg_neg _).symm
  | false => rfl

theorem isFinite_of_isNaN {x : Number} (h : x.isNaN = true) : x.isFinite = false := by
  have high : infiniteMagnitude < x.magnitude := of_decide_eq_true h
  rw [isFinite, decide_eq_false_iff_not]
  omega

theorem valueKey_mem {x : Number} (proper : x.isNaN = false) :
    -(infiniteMagnitude : Int) ≤ x.valueKey ∧ x.valueKey ≤ infiniteMagnitude := by
  have low : ¬ infiniteMagnitude < x.magnitude := of_decide_eq_false proper
  unfold valueKey
  split <;> omega

theorem isFinite_eq_false_iff {x : Number} (proper : x.isNaN = false) : x.isFinite = false ↔
    x.valueKey = -(infiniteMagnitude : Int) ∨ x.valueKey = infiniteMagnitude := by
  have low : ¬ infiniteMagnitude < x.magnitude := of_decide_eq_false proper
  have positive := infiniteMagnitude_pos
  rw [isFinite, decide_eq_false_iff_not]
  unfold valueKey
  split <;> omega

theorem eq_neg_infinity_iff (x : Number) :
    x = -infinity ↔ x.isNaN = false ∧ x.valueKey = -(infiniteMagnitude : Int) := by
  have top : (-infinity).magnitude = infiniteMagnitude := by decide +kernel
  have negative : (-infinity).isNegative = true := by decide +kernel
  have positive := infiniteMagnitude_pos
  rw [eq_iff, top, negative, isNaN, decide_eq_false_iff_not, valueKey]
  split
  · rename_i below
    rw [and_iff_right below]
    omega
  · rename_i above
    refine iff_of_false (fun no => above no.1) ?_
    omega

theorem compare?_eq_lt (x y : Number) : (compare? x y == some .lt) = true ↔
    x.isNaN = false ∧ y.isNaN = false ∧ x.valueKey < y.valueKey := by
  unfold compare?
  cases hx : x.isNaN with
  | true => simp
  | false =>
    cases hy : y.isNaN with
    | true => simp
    | false => simp [Int.compare_eq_lt]

def Misses (limit x : Number) : Prop := x.isFinite = false ∧ x ≠ limit

structure Chooses (choose : Number → Number → Number) (limit : Number) : Prop where
  infinite : limit.isFinite = false
  eq_limit : ∀ x y, choose x y = limit ↔ x = limit ∨ y = limit
  misses : ∀ x y, Misses limit (choose x y) ↔ Misses limit x ∧ Misses limit y

section Choices

variable {choose : Number → Number → Number} {limit : Number}

theorem Chooses.foldl_eq_limit (h : Chooses choose limit) (x : Number) (xs : List Number) :
    xs.foldl choose x = limit ↔ limit ∈ x :: xs := by
  induction xs generalizing x with
  | nil => rw [List.mem_singleton, eq_comm, List.foldl_nil]
  | cons y ys ih =>
    rw [List.foldl_cons, ih, List.mem_cons, eq_comm, h.eq_limit, or_assoc, List.mem_cons, List.mem_cons,
      @eq_comm _ x, @eq_comm _ y]

theorem Chooses.misses_foldl (h : Chooses choose limit) (x : Number) (xs : List Number) :
    Misses limit (xs.foldl choose x) ↔ ∀ y ∈ x :: xs, Misses limit y := by
  induction xs generalizing x with
  | nil => rw [List.forall_mem_singleton, List.foldl_nil]
  | cons y ys ih =>
    rw [List.foldl_cons, ih, List.forall_mem_cons, h.misses, and_assoc, List.forall_mem_cons,
      List.forall_mem_cons]

theorem Chooses.isFinite_foldl (h : Chooses choose limit) (x : Number) (xs : List Number) :
    (xs.foldl choose x).isFinite = false ↔ limit ∈ x :: xs ∨ ∀ y ∈ x :: xs, y.isFinite = false := by
  constructor
  · intro infinite
    by_cases reached : xs.foldl choose x = limit
    · exact .inl ((h.foldl_eq_limit x xs).1 reached)
    · exact .inr fun y hy => ((h.misses_foldl x xs).1 ⟨infinite, reached⟩ y hy).1
  · intro reason
    by_cases reached : limit ∈ x :: xs
    · rw [(h.foldl_eq_limit x xs).2 reached]
      exact h.infinite
    · have all := reason.resolve_left reached
      exact ((h.misses_foldl x xs).2 fun y hy => ⟨all y hy, fun e => reached (e ▸ hy)⟩).1

end Choices

section Lesser

variable {x y : Number}

theorem lesser_of_isNaN (hy : y.isNaN = true) : lesser x y = if x.isNaN then y else x := by
  have less : (compare? y x == some .lt) ≠ true := by
    rw [ne_eq, compare?_eq_lt, hy]
    exact fun no => absurd no.1 (by decide)
  rw [lesser, if_neg less]

theorem lesser_of_proper (hx : x.isNaN = false) (hy : y.isNaN = false) :
    lesser x y = if y.valueKey < x.valueKey then y else x := by
  have less := compare?_eq_lt y x
  rw [and_iff_right hy, and_iff_right hx] at less
  rw [lesser, hx, if_neg Bool.false_ne_true]
  simp only [less]

theorem misses_neg_infinity_iff (x : Number) :
    Misses (-infinity) x ↔ x.isNaN = true ∨ x.valueKey = infiniteMagnitude := by
  have positive := infiniteMagnitude_pos
  rw [Misses, ne_eq, eq_neg_infinity_iff]
  cases h : x.isNaN with
  | true => simp [isFinite_of_isNaN h]
  | false =>
    rw [isFinite_eq_false_iff h]
    simp only [true_and, Bool.false_eq_true, false_or]
    omega

theorem chooses_lesser : Chooses lesser (-infinity) := by
  have positive := infiniteMagnitude_pos
  refine ⟨by decide, fun x y => ?_, fun x y => ?_⟩
  all_goals
    simp only [eq_neg_infinity_iff, misses_neg_infinity_iff]
    cases hx : x.isNaN with
    | true => simp [lesser, hx]
    | false =>
      cases hy : y.isNaN with
      | true => simp [lesser_of_isNaN hy, hx]
      | false =>
        have bounds := valueKey_mem hx
        have bounds' := valueKey_mem hy
        rw [lesser_of_proper hx hy]
        split
        · simp only [hy, true_and, Bool.false_eq_true, false_or]
          omega
        · simp only [hx, true_and, Bool.false_eq_true, false_or]
          omega

end Lesser

theorem greater_eq (x y : Number) : greater x y = -lesser (-x) (-y) := by
  have same : (compare? (-y) (-x) == some .lt) = (compare? x y == some .lt) := by
    rw [Bool.eq_iff_iff, compare?_eq_lt, compare?_eq_lt]
    simp only [isNaN_neg, valueKey_neg, Int.neg_lt_neg_iff]
    exact and_left_comm
  unfold greater lesser
  rw [same, isNaN_neg]
  split
  · rw [neg_neg]
  · split <;> rw [neg_neg]

theorem chooses_greater : Chooses greater infinity := by
  have turn : ∀ x : Number, x = infinity ↔ -x = -infinity :=
    fun x => ⟨congrArg _, fun h => by rw [← neg_neg x, h, neg_neg]⟩
  have misses : ∀ x : Number, Misses infinity x ↔ Misses (-infinity) (-x) := by
    intro x
    rw [Misses, Misses, isFinite_neg, ne_eq, ne_eq, turn]
  refine ⟨by decide, fun x y => ?_, fun x y => ?_⟩
  · rw [turn, greater_eq, neg_neg, chooses_lesser.eq_limit, ← turn, ← turn]
  · rw [misses, greater_eq, neg_neg, chooses_lesser.misses, ← misses, ← misses]

end DerivedColumns.Number
