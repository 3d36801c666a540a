import DerivedColumns.Formula.Equality
import DerivedColumns.Proofs.Number.Text

set_option autoImplicit false

namespace DerivedColumns

theorem Number.equals_self_iff (x : Number) : x.equals x = true ↔ x.isNaN = false := by
  rw [equals_iff]
  simp

def Atom.isNaN : Atom → Bool
  | .number x => x.isNaN
  | _ => false

theorem Atom.beq_self_iff (a : Atom) : (a == a) = true ↔ a.isNaN = false := by
  change a.beq a = true ↔ _
  cases a with
  | number x => exact x.equals_self_iff
  | _ => simp [beq, isNaN]

namespace Formula

mutual

def hasNaN : Formula → Bool
  | .atom a => a.isNaN
  | .binary _ l r => l.hasNaN || r.hasNaN
  | .unary _ x => x.hasNaN
  | .choice c t f => c.hasNaN || t.hasNaN || f.hasNaN
  | .call _ args => anyNaN args
  | .analysis _ _ params => params.toList.any fun p => p.2.isNaN
  | _ => false

def anyNaN : List Formula → Bool
  | [] => false
  | f :: fs => f.hasNaN || anyNaN fs

end

theorem beqParams_self_iff (params : List (String × Atom)) :
    beqParams params params = true ↔ (params.any fun p => p.2.isNaN) = false := by
  induction params with
  | nil => exact iff_of_true rfl rfl
  | cons p params ih =>
    simp only [beqParams, List.any_cons, BEq.rfl, Bool.true_and, Bool.and_eq_true,
      Bool.or_eq_false_iff, p.2.beq_self_iff, ih]

mutual

theorem beq_self_iff : (f : Formula) → (f.beq f = true ↔ f.hasNaN = false)
  | .atom a => a.beq_self_iff
  | .binary _ l r => by
    simp only [beq, hasNaN, BEq.rfl, Bool.true_and, Bool.and_eq_true, Bool.or_eq_false_iff,
      beq_self_iff l, beq_self_iff r]
  | .unary _ x => by
    simp only [beq, hasNaN, BEq.rfl, Bool.true_and, beq_self_iff x]
  | .choice c t f => by
    simp only [beq, hasNaN, Bool.and_eq_true, Bool.or_eq_false_iff, beq_self_iff c, beq_self_iff t,
      beq_self_iff f]
  | .call _ args => by
    simp only [beq, hasNaN, BEq.rfl, Bool.true_and, beqAll_self_iff args]
  | .group .. | .rank .. => by
    simp only [beq, hasNaN, BEq.rfl, Bool.and_self]
  | .analysis _ _ params => by
    simp only [beq, hasNaN, BEq.rfl, Bool.true_and, beqParams_self_iff params.toList]

theorem beqAll_self_iff : (fs : List Formula) → (beqAll fs fs = true ↔ anyNaN fs = false)
  | [] => iff_of_true rfl rfl
  | f :: fs => by
    simp only [beqAll, anyNaN, Bool.and_eq_true, Bool.or_eq_false_iff, beq_self_iff f,
      beqAll_self_iff fs]

end

end Formula

end DerivedColumns
