import DerivedColumns.Proofs.Formula.Written

set_option autoImplicit false

/-!
Reading a written formula takes levels of nesting, and every formula that is read where an operand may
stand, or a chain of operators, must not be too high. The height of a chain is counted before it is
grouped, from its tallest operand and the number of its operators, and so may come out greater than that
of the formula.
-/

namespace DerivedColumns.Formula

open Grammar (chainHeight foldLeft)

def enclosing (f : Formula) (p : Nat) : Nat := if f.precedence < p then 1 else 0

mutual

def nesting : Formula → Nat
  | .binary op l r =>
    max (l.nesting + l.enclosing op.leftContext)
      (r.nesting + r.enclosing op.rightContext + if op = .pow then 1 else 0)
  | .unary _ x => x.nesting + x.enclosing unaryPrecedence + 1
  | .choice c t f => max (c.nesting + c.enclosing (choicePrecedence + 1)) (max t.nesting f.nesting + 1)
  | .call _ args => nestingAll args + 1
  | _ => 1

def nestingAll : List Formula → Nat
  | [] => 1
  | f :: fs => max f.nesting (nestingAll fs)

end

/-- The chain of operators of precedence `q` that a formula is, without regard to grouping. -/
def spine (q : Nat) : Formula → Formula × List (BinaryOp × Formula)
  | .binary op l r =>
    if op.precedence = q then ((spine q l).1, (spine q l).2 ++ [(op, r)]) else (.binary op l r, [])
  | f => (f, [])

/-- The height that is counted of this chain. -/
def reach (q : Nat) (f : Formula) : Nat := chainHeight (spine q f).1 (spine q f).2

mutual

def chainsLow : Formula → Bool
  | .binary op l r =>
    l.chainsLow && r.chainsLow && (op = .pow || reach op.precedence (.binary op l r) ≤ maxHeight)
  | .unary _ x => x.chainsLow
  | .choice c t f => c.chainsLow && t.chainsLow && f.chainsLow
  | .call _ args => chainsLowAll args
  | _ => true

def chainsLowAll : List Formula → Bool
  | [] => true
  | f :: fs => f.chainsLow && chainsLowAll fs

end

/-- A formula that may stand on its own: choices may be of any height. -/
def Settled (f : Formula) : Prop := f.precedence = choicePrecedence ∨ f.height ≤ maxHeight

mutual

def Low : Formula → Prop
  | .binary op l r => Low l ∧ Low r ∧
    if op = .pow then
      (l.precedence < op.leftContext → l.Settled) ∧ (r.precedence < op.rightContext → r.Settled)
    else reach op.precedence (.binary op l r) ≤ maxHeight
  | .unary _ x => Low x ∧ (x.precedence < unaryPrecedence → x.Settled)
  | .choice c t f => Low c ∧ c.height ≤ maxHeight ∧ Low t ∧ t.Settled ∧ Low f ∧ f.Settled
  | .call _ args => LowAll args
  | _ => True

def LowAll : List Formula → Prop
  | [] => True
  | f :: fs => Low f ∧ f.Settled ∧ LowAll fs

end

structure Fits (n p : Nat) (f : Formula) : Prop where
  nesting : f.nesting + f.enclosing p ≤ n
  low : f.Low
  enclosed : f.precedence < p → f.Settled
  height : p ≤ 7 → (p ≤ 1 ∧ f.precedence = choicePrecedence) ∨ f.height ≤ maxHeight

theorem precedence_pos (f : Formula) : 1 ≤ f.precedence := by
  cases f with
  | atom a =>
    cases a with
    | number x => rw [precedence]; split <;> decide
    | _ => exact Nat.le_of_ble_eq_true rfl
  | binary op l r => cases op <;> exact Nat.le_of_ble_eq_true rfl
  | _ => exact Nat.le_of_ble_eq_true rfl

theorem precedence_le (f : Formula) : f.precedence ≤ 10 := by
  cases f with
  | atom a =>
    cases a with
    | number x => rw [precedence]; split <;> decide
    | _ => exact Nat.le_of_ble_eq_true rfl
  | binary op l r => cases op <;> exact Nat.le_of_ble_eq_true rfl
  | _ => exact Nat.le_of_ble_eq_true rfl

theorem enclosing_one (f : Formula) : f.enclosing 1 = 0 :=
  if_neg (Nat.not_lt.2 f.precedence_pos)

theorem fits_of_height {n p : Nat} {f : Formula} (h : f.height ≤ maxHeight) :
    Fits n p f ↔ f.nesting + f.enclosing p ≤ n ∧ f.Low :=
  ⟨fun fits => ⟨fits.nesting, fits.low⟩, fun can => ⟨can.1, can.2, fun _ => .inr h, fun _ => .inr h⟩⟩

theorem fits_one {n : Nat} {f : Formula} : Fits n 1 f ↔ f.nesting ≤ n ∧ f.Low ∧ f.Settled := by
  constructor
  · intro fits
    have nesting := fits.nesting
    rw [enclosing_one] at nesting
    exact ⟨nesting, fits.low, (fits.height (by decide)).imp_left And.right⟩
  · rintro ⟨nesting, low, settled⟩
    refine ⟨by rwa [enclosing_one], low, fun _ => settled, fun _ => ?_⟩
    exact settled.imp_left fun choice => ⟨Nat.le_refl 1, choice⟩

theorem fits_condition {n : Nat} {f : Formula} : Fits n (choicePrecedence + 1) f ↔
    f.nesting + f.enclosing (choicePrecedence + 1) ≤ n ∧ f.Low ∧ f.height ≤ maxHeight := by
  constructor
  · intro fits
    exact ⟨fits.nesting, fits.low, (fits.height (by decide)).resolve_left fun no => absurd no.1 (by decide)⟩
  · rintro ⟨nesting, low, height⟩
    exact ⟨nesting, low, fun _ => .inr height, fun _ => .inr height⟩

theorem fits_tight {n p : Nat} (tight : 8 ≤ p) {f : Formula} :
    Fits n p f ↔ f.nesting + f.enclosing p ≤ n ∧ f.Low ∧ (f.precedence < p → f.Settled) :=
  ⟨fun fits => ⟨fits.nesting, fits.low, fits.enclosed⟩,
    fun can => ⟨can.1, can.2.1, can.2.2, fun loose => absurd loose (by omega)⟩⟩

theorem nesting_pos : (f : Formula) → 1 ≤ f.nesting
  | .binary op l r => by
    have left := nesting_pos l
    rw [nesting]
    omega
  | .choice c t f => by
    have condition := nesting_pos c
    rw [nesting]
    omega
  | .unary .. | .call .. => Nat.le_add_left 1 _
  | .atom _ | .group .. | .rank .. | .analysis .. => Nat.le_refl 1

theorem not_fits_zero {p : Nat} {f : Formula} : ¬ Fits 0 p f := by
  intro fits
  have := fits.nesting
  have := f.nesting_pos
  omega

theorem precedence_pow {op : BinaryOp} : op.precedence ≤ 7 ↔ op ≠ .pow := by
  cases op <;> decide

theorem binary_of_precedence {q : Nat} (loose : 2 ≤ q) (tight : q ≤ 7) {f : Formula}
    (h : f.precedence = q) : ∃ op l r, f = .binary op l r := by
  cases f with
  | binary op l r => exact ⟨op, l, r, rfl⟩
  | atom a =>
    cases a with
    | number x =>
      rw [precedence] at h
      split at h <;> simp only [unaryPrecedence, primaryPrecedence] at h <;> omega
    | _ => simp only [precedence, primaryPrecedence] at h; omega
  | _ =>
    simp only [precedence, unaryPrecedence, choicePrecedence, primaryPrecedence] at h
    omega

theorem leftContext_of_ne {op : BinaryOp} (h : op ≠ .pow) : op.leftContext = op.precedence := by
  cases op <;> first | rfl | exact absurd rfl h

theorem rightContext_of_ne {op : BinaryOp} (h : op ≠ .pow) : op.rightContext = op.precedence + 1 := by
  cases op <;> first | rfl | exact absurd rfl h

theorem foldLeft_spine (q : Nat) : (f : Formula) → foldLeft (spine q f).1 (spine q f).2 = f
  | .binary op l r => by
    rw [spine]
    split
    · rw [foldLeft, List.foldl_append]
      exact congrArg (fun l => Formula.binary op l r) (foldLeft_spine q l)
    · rfl
  | .atom _ | .unary .. | .choice .. | .call .. | .group .. | .rank .. | .analysis .. => rfl

theorem chainHeight_append (first : Formula) (more : List (BinaryOp × Formula)) (op : BinaryOp)
    (r : Formula) : chainHeight first (more ++ [(op, r)]) =
      max (chainHeight first more) (r.height + more.length) + 1 := by
  simp only [chainHeight, List.map_append, List.foldl_append, List.length_append, List.map_cons,
    List.map_nil, List.foldl_cons, List.foldl_nil, List.length_cons, List.length_nil]
  omega

theorem reach_binary (op : BinaryOp) (l r : Formula) : reach op.precedence (.binary op l r) =
    max (reach op.precedence l) (r.height + (spine op.precedence l).2.length) + 1 := by
  rw [reach, spine, if_pos rfl, chainHeight_append]
  rfl

theorem reach_of_ne {q : Nat} {f : Formula} (h : f.precedence ≠ q) : reach q f = f.height := by
  cases f with
  | binary op l r =>
    have other : op.precedence ≠ q := h
    rw [reach, spine, if_neg other]
    rfl
  | _ => rfl

theorem height_le_reach (q : Nat) : (f : Formula) → f.height ≤ reach q f
  | .binary op l r => by
    by_cases same : op.precedence = q
    · subst same
      have left := height_le_reach op.precedence l
      rw [reach_binary, height]
      omega
    · exact Nat.le_of_eq (reach_of_ne (f := .binary op l r) same).symm
  | .atom _ | .unary .. | .choice .. | .call .. | .group .. | .rank .. | .analysis .. => Nat.le_refl _

def Linked (n q : Nat) : Formula → Prop
  | .binary op l r =>
    if op.precedence = q then Linked n q l ∧ Fits n (q + 1) r else Fits n (q + 1) (.binary op l r)
  | f => Fits n (q + 1) f

theorem linked_of_ne {n q : Nat} {f : Formula} (h : f.precedence ≠ q) : Linked n q f = Fits n (q + 1) f := by
  cases f with
  | binary op l r => exact if_neg h
  | _ => rfl

theorem linked_iff_of_ne {n q : Nat} {f : Formula} (h : f.precedence ≠ q) (bound : reach q f ≤ maxHeight) :
    Linked n q f ↔ f.nesting + f.enclosing q ≤ n ∧ f.Low := by
  have height := Nat.le_trans (height_le_reach q f) bound
  have place : f.enclosing (q + 1) = f.enclosing q := by
    unfold enclosing
    simp only [show f.precedence < q + 1 ↔ f.precedence < q by omega]
  rw [linked_of_ne h, fits_of_height height, place]

/-- In a chain that is low enough only the nesting of the operands is left to be seen to. -/
theorem linked_iff {n q : Nat} (loose : 2 ≤ q) (tight : q ≤ 7) : (f : Formula) → reach q f ≤ maxHeight →
    (Linked n q f ↔ f.nesting + f.enclosing q ≤ n ∧ f.Low)
  | .binary op l r, bound => by
    by_cases same : op.precedence = q
    · subst same
      have notPow := precedence_pow.1 tight
      have parts := bound
      rw [reach_binary] at parts
      have place : enclosing (.binary op l r) op.precedence = 0 := if_neg (Nat.lt_irrefl op.precedence)
      rw [Linked, if_pos rfl, linked_iff loose tight l (by omega), fits_of_height (by omega), place, nesting,
        Low, leftContext_of_ne notPow, rightContext_of_ne notPow, if_neg notPow, if_neg notPow]
      constructor
      · rintro ⟨⟨left, lowLeft⟩, right, lowRight⟩
        exact ⟨by omega, lowLeft, lowRight, bound⟩
      · rintro ⟨levels, lowLeft, lowRight, -⟩
        exact ⟨⟨by omega, lowLeft⟩, by omega, lowRight⟩
    · exact linked_iff_of_ne (f := .binary op l r) same bound
  | .atom _, bound | .unary .., bound | .choice .., bound | .call .., bound | .group .., bound
  | .rank .., bound | .analysis .., bound => by
    refine linked_iff_of_ne (fun same => ?_) bound
    obtain ⟨_, _, _, e⟩ := binary_of_precedence loose tight same
    cases e

/-- The heights are those of a formula that has been read: of a choice the condition and the branches have
been checked, of anything else the whole. -/
def Bounded : Formula → Prop
  | .choice c t f => c.height ≤ maxHeight ∧ Bounded t ∧ Bounded f
  | f => f.height ≤ maxHeight

theorem bounded_of_height : {f : Formula} → f.height ≤ maxHeight → f.Bounded
  | .choice c t f, h => by
    rw [height] at h
    exact ⟨by omega, bounded_of_height (by omega), bounded_of_height (by omega)⟩
  | .atom _, h | .binary .., h | .unary .., h | .call .., h | .group .., h | .rank .., h
  | .analysis .., h => h

theorem Bounded.settled {f : Formula} (h : f.Bounded) : f.Settled := by
  cases f with
  | choice c t f => exact .inl rfl
  | _ => exact .inr h

mutual

theorem Low.chainsLow : {f : Formula} → f.Low → f.chainsLow = true
  | .binary op l r, h => by
    rw [Low] at h
    rw [Formula.chainsLow, h.1.chainsLow, h.2.1.chainsLow, Bool.true_and, Bool.true_and, Bool.or_eq_true,
      decide_eq_true_eq, decide_eq_true_eq]
    by_cases pow : op = .pow
    · exact .inl pow
    · have chain := h.2.2
      rw [if_neg pow] at chain
      exact .inr chain
  | .unary op x, h => by
    rw [Low] at h
    rw [Formula.chainsLow, h.1.chainsLow]
  | .choice c t f, h => by
    rw [Low] at h
    rw [Formula.chainsLow, h.1.chainsLow, h.2.2.1.chainsLow, h.2.2.2.2.1.chainsLow]
    rfl
  | .call name args, h => by
    rw [Low] at h
    rw [Formula.chainsLow, LowAll.chainsLowAll h]
  | .atom _, _ | .group .., _ | .rank .., _ | .analysis .., _ => rfl

theorem LowAll.chainsLowAll : {fs : List Formula} → LowAll fs → chainsLowAll fs = true
  | [], _ => rfl
  | f :: fs, h => by
    rw [LowAll] at h
    rw [Formula.chainsLowAll, h.1.chainsLow, LowAll.chainsLowAll h.2.2]
    rfl

end

mutual

/-- Inside a formula that is not too high only its chains can be counted too high. -/
theorem low_of_height : {f : Formula} → f.height ≤ maxHeight → f.chainsLow = true → f.Low
  | .binary op l r, bound, h => by
    rw [height] at bound
    rw [chainsLow, Bool.and_eq_true, Bool.and_eq_true, Bool.or_eq_true, decide_eq_true_eq,
      decide_eq_true_eq] at h
    obtain ⟨⟨left, right⟩, chain⟩ := h
    rw [Low]
    refine ⟨low_of_height (by omega) left, low_of_height (by omega) right, ?_⟩
    split
    · exact ⟨fun _ => .inr (by omega), fun _ => .inr (by omega)⟩
    · rename_i notPow
      exact chain.resolve_left notPow
  | .unary op x, bound, h => by
    rw [height] at bound
    rw [chainsLow] at h
    rw [Low]
    exact ⟨low_of_height (by omega) h, fun _ => .inr (by omega)⟩
  | .choice c t f, bound, h => by
    rw [height] at bound
    rw [chainsLow, Bool.and_eq_true, Bool.and_eq_true] at h
    obtain ⟨⟨condition, yes⟩, no⟩ := h
    rw [Low]
    exact ⟨low_of_height (by omega) condition, by omega, low_of_height (by omega) yes, .inr (by omega),
      low_of_height (by omega) no, .inr (by omega)⟩
  | .call name args, bound, h => by
    rw [height] at bound
    rw [chainsLow] at h
    rw [Low]
    exact lowAll_of_height (by omega) h
  | .atom _, _, _ | .group .., _, _ | .rank .., _, _ | .analysis .., _, _ => by unfold Low; trivial

theorem lowAll_of_height : {fs : List Formula} → heightAll fs ≤ maxHeight → chainsLowAll fs = true →
    LowAll fs
  | [], _, _ => by rw [LowAll]; trivial
  | f :: fs, bound, h => by
    rw [heightAll] at bound
    rw [chainsLowAll, Bool.and_eq_true] at h
    rw [LowAll]
    exact ⟨low_of_height (by omega) h.1, .inr (by omega), lowAll_of_height (by omega) h.2⟩

end

theorem Bounded.low : {f : Formula} → f.Bounded → f.chainsLow = true → f.Low
  | .choice c t f, bound, h => by
    obtain ⟨height, yes, no⟩ := bound
    rw [chainsLow, Bool.and_eq_true, Bool.and_eq_true] at h
    rw [Low]
    exact ⟨low_of_height height h.1.1, height, yes.low h.1.2, yes.settled, no.low h.2, no.settled⟩
  | .atom _, bound, h | .binary .., bound, h | .unary .., bound, h | .call .., bound, h
  | .group .., bound, h | .rank .., bound, h | .analysis .., bound, h => low_of_height bound h

/-- A formula that has been read can be read again from its written form if its chains are low and its
nesting has not grown. -/
theorem Bounded.fits_iff {n : Nat} {f : Formula} (bound : f.Bounded) (levels : f.nesting ≤ n) :
    Fits n 1 f ↔ f.chainsLow = true := by
  rw [fits_one]
  exact ⟨fun fits => fits.2.1.chainsLow, fun chains => ⟨levels, bound.low chains, bound.settled⟩⟩

end DerivedColumns.Formula
