import DerivedColumns.Json.Scan

set_option autoImplicit false

namespace DerivedColumns

inductive Resource where
  | parse
  | calculations
  | calculation (encoded : List Char)
  | execute
  | refresh
  | columns
  | virtualColumns
  | subscribe
deriving DecidableEq

def beforeQuery (s : List Char) : List Char := s.takeWhile fun c => c ≠ '?' && c ≠ '#'

def afterAuthority? (s : List Char) : Option (List Char) :=
  match s.dropWhile (· ≠ ':') with
  | ':' :: '/' :: '/' :: rest => some (rest.dropWhile fun c => c ≠ '/' && c ≠ '?' && c ≠ '#')
  | _ => none

/-- The path of a URI. A URI that does not begin with its path has one only if it has a scheme, and
then an empty path is the root. -/
def pathOf (uri : String) : List Char :=
  match uri.toList with
  | '/' :: s => '/' :: beforeQuery s
  | s =>
    match (afterAuthority? s).map beforeQuery with
    | none => []
    | some [] => ['/']
    | some path => path

def Resource.ofPath? (path : List Char) : Option Resource :=
  match String.ofList path with
  | "/parse" => some .parse
  | "/calculations" => some .calculations
  | "/execute" => some .execute
  | "/refresh" => some .refresh
  | "/columns" => some .columns
  | "/virtual-columns" => some .virtualColumns
  | "/subscribe" => some .subscribe
  | _ =>
    let above := "/calculations/".toList
    let encoded := path.drop above.length
    if above.isPrefixOf path && !encoded.isEmpty && !encoded.contains '/' then
      some (.calculation encoded)
    else none

/-- The bytes of percent-encoded text. A percent sign without two hexadecimal digits stands for
itself. -/
def percentBytes : List Char → List UInt8
  | '%' :: a :: b :: s =>
    match Json.Scan.hexValue? a, Json.Scan.hexValue? b with
    | some high, some low => UInt8.ofNat (16 * high + low) :: percentBytes s
    | _, _ => '%'.toUInt8 :: percentBytes (a :: b :: s)
  | c :: s => (String.ofList [c]).toUTF8.toList ++ percentBytes s
  | [] => []
termination_by s => s.length

def percentDecode? (s : List Char) : Option String := String.fromUTF8? ⟨(percentBytes s).toArray⟩

inductive Method where
  | get
  | head
  | post
  | patch
  | delete
deriving DecidableEq

def Method.ofName? (name : String) : Option Method :=
  match name with
  | "GET" => some .get
  | "HEAD" => some .head
  | "POST" => some .post
  | "PATCH" => some .patch
  | "DELETE" => some .delete
  | _ => none

/-- The methods that a resource takes. What can be got can also be asked for without its content. -/
def Resource.methods : Resource → List Method
  | .parse | .execute | .refresh => [.post]
  | .calculations => [.get, .head, .post]
  | .calculation _ => [.get, .head, .patch, .delete]
  | .columns | .virtualColumns | .subscribe => [.get, .head]

end DerivedColumns
