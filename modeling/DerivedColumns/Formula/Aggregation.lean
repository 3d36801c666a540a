import DerivedColumns.Formula.Basic
import DerivedColumns.Text.Case

set_option autoImplicit false

namespace DerivedColumns

structure UnknownAggregation where
  name : String
deriving DecidableEq

def UnknownAggregation.message (e : UnknownAggregation) : String := "unknown aggregation: " ++ e.name

/-- The aggregation of a name, without regard to the case of the letters A to Z. -/
def Aggregation.ofName (name : String) : Except UnknownAggregation Aggregation :=
  match Text.lowercase name with
  | "sum" => .ok .sum
  | "average" | "avg" | "mean" => .ok .average
  | "min" => .ok .min
  | "max" => .ok .max
  | "count" => .ok .count
  | "countunique" | "count_unique" => .ok .countUnique
  | name => .error ⟨name⟩

end DerivedColumns
