import DerivedColumns.Number.Layout

set_option autoImplicit false

namespace DerivedColumns

inductive Json where
  | null
  | bool (b : Bool)
  | integer (n : Int)
  | number (x : Number)
  | string (s : String)
  | array (items : List Json)
  | object (members : List (String × Json))

namespace Json

instance : Inhabited Json := ⟨.null⟩

def hexDigit (n : Nat) : Char := Nat.digitChar n

def escape (c : Char) : List Char :=
  if c = '"' then ['\\', '"']
  else if c = '\\' then ['\\', '\\']
  else if c = '\x08' then ['\\', 'b']
  else if c = '\x0c' then ['\\', 'f']
  else if c = '\n' then ['\\', 'n']
  else if c = '\r' then ['\\', 'r']
  else if c = '\t' then ['\\', 't']
  else if c.toNat < 0x20 then ['\\', 'u', '0', '0', hexDigit (c.toNat / 16), hexDigit (c.toNat % 16)]
  else [c]

def quoted (s : List Char) : List Char := '"' :: (s.flatMap escape ++ ['"'])

def numberChars (x : Number) : List Char :=
  if x.isFinite then Number.Layout.json.finite x else ['n', 'u', 'l', 'l']

def integerChars (n : Int) : List Char :=
  (if n < 0 then ['-'] else []) ++ Nat.toDigits 10 n.natAbs

mutual

def chars : Json → List Char
  | .null => ['n', 'u', 'l', 'l']
  | .bool true => ['t', 'r', 'u', 'e']
  | .bool false => ['f', 'a', 'l', 's', 'e']
  | .integer n => integerChars n
  | .number x => numberChars x
  | .string s => quoted s.toList
  | .array items => '[' :: (itemChars items ++ [']'])
  | .object members => '{' :: (memberChars members ++ ['}'])

def itemChars : List Json → List Char
  | [] => []
  | [j] => j.chars
  | j :: k :: more => j.chars ++ ',' :: itemChars (k :: more)

def memberChars : List (String × Json) → List Char
  | [] => []
  | [(name, j)] => quoted name.toList ++ ':' :: j.chars
  | (name, j) :: m :: more => quoted name.toList ++ ':' :: (j.chars ++ ',' :: memberChars (m :: more))

end

def text (j : Json) : String := String.ofList j.chars

def strings (names : List String) : Json := .array (names.map .string)

end Json

end DerivedColumns
