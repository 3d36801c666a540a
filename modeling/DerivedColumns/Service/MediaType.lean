set_option autoImplicit false

namespace DerivedColumns

structure MediaType where
  type : List Char
  subtype : List Char
  suffix : Option (List Char)
deriving DecidableEq

namespace MediaType

def isPrintable (c : Char) : Bool := 32 ≤ c.toNat && c.toNat < 127

def isTokenChar (c : Char) : Bool :=
  isPrintable c && !" ()<>@,;:\\\"/[]?=\x7b\x7d".toList.contains c

inductive Place where
  | beforeName
  | name
  | beforeValue
  | value
  /-- After the opening quote; a quote that stands here is part of the value. -/
  | opened
  | quoted
  | closed
deriving DecidableEq

/-- The place after a character; none if the character must not stand there. Spaces stand before names
and after closing quotes only. -/
def Place.next? (place : Place) (c : Char) : Option Place :=
  match place with
  | .beforeName => if c = ' ' then some .beforeName else if isTokenChar c then some .name else none
  | .name => if c = '=' then some .beforeValue else if isTokenChar c then some .name else none
  | .beforeValue => if c = '"' then some .opened else if isTokenChar c then some .value else none
  | .value => if c = ';' then some .beforeName else if isTokenChar c then some .value else none
  | .opened => if isPrintable c then some .quoted else none
  | .quoted => if c = '"' then some .closed else if isPrintable c then some .quoted else none
  | .closed => if c = ';' then some .beforeName else if c = ' ' then some .closed else none

def Place.isEnd : Place → Bool
  | .name | .opened | .quoted => false
  | _ => true

def isParameters (s : List Char) : Bool :=
  ((s.foldlM Place.next? .beforeName).map Place.isEnd).getD false

/-- A subtype and its suffix. A plus sign at the start belongs to the subtype. -/
def splitSuffix (s : List Char) : List Char × Option (List Char) :=
  let after := s.reverse.takeWhile (· ≠ '+')
  let before := s.take (s.length - after.length - 1)
  if before.isEmpty || after.length = s.length then (s, none) else (before, some after.reverse)

def ofText? (text : String) : Option MediaType :=
  let s := text.toList.map Char.toLower
  let (type, rest) := (s.takeWhile isTokenChar, s.dropWhile isTokenChar)
  match rest with
  | '/' :: rest =>
    let (whole, rest) := (rest.takeWhile isTokenChar, rest.dropWhile isTokenChar)
    let (subtype, suffix) := splitSuffix whole
    let wellFormed := match rest with
      | [] => true
      | ';' :: parameters => !whole.isEmpty && isParameters parameters
      | _ => false
    if !type.isEmpty && wellFormed then some ⟨type, subtype, suffix⟩ else none
  | _ => none

def isJson (t : MediaType) : Bool :=
  let json := ['j', 's', 'o', 'n']
  t.type == "application".toList && (t.subtype == json || t.suffix == some json)

end MediaType

end DerivedColumns
