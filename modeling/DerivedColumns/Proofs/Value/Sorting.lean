import DerivedColumns.Value.Basic
import Mathlib.Order.Compare

set_option autoImplicit false

namespace DerivedColumns

open Std (TransCmp)

namespace Calendar

instance : Ord Date := ⟨Date.compare⟩

instance : Ord Time := ⟨Time.compare⟩

instance : Ord Moment := ⟨Moment.compare⟩

instance : Std.TransOrd Date :=
  inferInstanceAs (TransCmp (compareLex (compareOn Date.year)
    (compareLex (compareOn Date.month) (compareOn Date.day))))

instance : Std.TransOrd Time :=
  inferInstanceAs (TransCmp (compareLex (compareOn Time.hour) (compareLex (compareOn Time.minute)
    (compareLex (compareOn Time.second) (compareOn Time.nano)))))

instance : Std.TransOrd Moment :=
  inferInstanceAs (TransCmp (compareLex (compareOn Moment.date) (compareOn Moment.time)))

end Calendar

namespace Value

def boolKey : Value → Option Bool
  | .bool b => some b
  | _ => none

def numberKey : Value → Option Int
  | .number x => some x.orderKey
  | _ => none

def dateKey : Value → Option Calendar.Moment
  | .date m => some m
  | _ => none

def textKey : Value → Option String
  | .text s => some s
  | _ => none

theorem sortCompare_eq : sortCompare = compareLex (compareOn kindRank) (compareLex (compareOn boolKey)
    (compareLex (compareOn numberKey) (compareLex (compareOn dateKey) (compareOn textKey)))) := by
  funext a b
  cases a <;> cases b <;> first | rfl | exact Ordering.then_eq.symm

instance : TransCmp sortCompare := by
  rw [sortCompare_eq]
  infer_instance

theorem sortCompare_swap (v w : Value) : w.sortCompare v = (v.sortCompare w).swap :=
  Std.OrientedCmp.eq_swap

theorem sortCompare_total (v w : Value) :
    (v.sortCompare w).isLE = true ∨ (w.sortCompare v).isLE = true := by
  rw [sortCompare_swap v w]
  cases v.sortCompare w <;> decide

end Value

end DerivedColumns
