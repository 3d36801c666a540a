import DerivedColumns.Text.Extending
import DerivedColumns.Text.Ignorable
import DerivedColumns.Text.Unmarked

set_option autoImplicit false

namespace DerivedColumns.Text

def isVisible (c : Char) : Bool := !isUnmarked c && !isExtending c && !isIgnorable c

def quotedChar (c : Char) : List Char :=
  if c = '\x00' then ['\\', '0']
  else if c = '\t' then ['\\', 't']
  else if c = '\n' then ['\\', 'n']
  else if c = '\r' then ['\\', 'r']
  else if c = '"' then ['\\', '"']
  else if c = '\\' then ['\\', '\\']
  else if isVisible c then [c]
  else '\\' :: 'u' :: '\x7b' :: (Nat.toDigits 16 c.toNat ++ ['\x7d'])

def quoted (s : String) : String := String.ofList ('"' :: (s.toList.flatMap quotedChar ++ ['"']))

end DerivedColumns.Text
