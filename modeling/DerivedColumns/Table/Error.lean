import DerivedColumns.Table.Row

set_option autoImplicit false

namespace DerivedColumns

inductive TableError where
  | malformed
  | columnNotFound (name : String)
  | nullId (position : Nat) (column : String)
  | duplicateId (id : RowId) (column : String)
  | unsupportedExtension (extension : String)
  | noExtension
deriving DecidableEq

def TableError.message : TableError → String
  | .malformed => "malformed table"
  | .columnNotFound name => "column not found: " ++ name
  | .nullId position column =>
    "row " ++ toString position ++ " has a null id in column '" ++ column ++ "'"
  | .duplicateId id column =>
    "duplicate row id " ++ toString id ++ " in column '" ++ column ++ "'"
  | .unsupportedExtension extension => "unsupported file extension: " ++ extension
  | .noExtension => "file has no extension"

end DerivedColumns
