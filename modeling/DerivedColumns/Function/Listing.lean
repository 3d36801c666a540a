import DerivedColumns.Function.Library
import DerivedColumns.Text.Quoted

set_option autoImplicit false

namespace DerivedColumns

def Library.listing (lib : Library) : String :=
  "FunctionRegistry \x7b functions: [" ++ ", ".intercalate (lib.names.map Text.quoted) ++ "] \x7d"

end DerivedColumns
