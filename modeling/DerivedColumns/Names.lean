import Std.Data.ExtTreeMap.Lemmas
import Std.Data.ExtTreeSet.Lemmas

set_option autoImplicit false

namespace DerivedColumns

/-- A finite set of field and column names, listed in ascending order. -/
abbrev Names := Std.ExtTreeSet String

abbrev ByName (α : Type) := Std.ExtTreeMap String α

namespace Names

def ofList (names : List String) : Names :=
  Std.ExtTreeSet.ofList names

end Names

end DerivedColumns
