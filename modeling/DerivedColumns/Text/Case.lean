set_option autoImplicit false

namespace DerivedColumns.Text

def lowercase (s : String) : String := String.ofList (s.toList.map Char.toLower)

end DerivedColumns.Text
