import DerivedColumns.Calendar.Moment

set_option autoImplicit false

/-!
A pattern such as `yyyy-MM-dd 'at' HH:mm` is translated into a format such as `%Y-%m-%d at %H:%M`. In a
format a specifier starts with a percent sign, and a percent sign itself is written twice. Quoted
stretches are copied, and runs of one repeated character stand for a part of the moment if the character
and the length of the run name one and are copied otherwise.
-/

namespace DerivedColumns.Calendar

/-- A part of a moment and the way in which it is written. -/
inductive Field where
  | yearOfCentury
  | year
  | month (wide : Bool)
  | monthAbbreviation
  | monthName
  | day (wide : Bool)
  | weekdayAbbreviation
  | weekdayName
  | hour (wide : Bool)
  | halfDayHour (wide : Bool)
  | minute (wide : Bool)
  | second (wide : Bool)
  | halfDay
deriving DecidableEq

namespace Field

def numberCode (wide : Bool) (letter : Char) : List Char := if wide then [letter] else ['-', letter]

def code : Field → List Char
  | .yearOfCentury => ['y']
  | .year => ['Y']
  | .month wide => numberCode wide 'm'
  | .monthAbbreviation => ['b']
  | .monthName => ['B']
  | .day wide => numberCode wide 'd'
  | .weekdayAbbreviation => ['a']
  | .weekdayName => ['A']
  | .hour wide => numberCode wide 'H'
  | .halfDayHour wide => numberCode wide 'I'
  | .minute wide => numberCode wide 'M'
  | .second wide => numberCode wide 'S'
  | .halfDay => ['p']

end Field

inductive Directive where
  | literal (c : Char)
  | field (f : Field)
deriving DecidableEq

namespace Directive

def code : Directive → List Char
  | .literal c => if c = '%' then ['%', '%'] else [c]
  | .field f => '%' :: f.code

end Directive

def Field.ofRun? (c : Char) (n : Nat) : Option Field :=
  if c = 'y' ∨ c = 'Y' then some (if n ≤ 2 then .yearOfCentury else .year)
  else if c = 'M' then
    some (if n ≤ 2 then .month (n = 2) else if n = 3 then .monthAbbreviation else .monthName)
  else if c = 'd' ∨ c = 'D' then if n ≤ 2 then some (.day (n = 2)) else none
  else if c = 'E' then some (if n ≤ 3 then .weekdayAbbreviation else .weekdayName)
  else if c = 'H' then some (.hour (2 ≤ n))
  else if c = 'h' then some (.halfDayHour (2 ≤ n))
  else if c = 'm' then some (.minute (2 ≤ n))
  else if c = 's' then some (.second (2 ≤ n))
  else if c = 'a' ∨ c = 'A' then some .halfDay
  else none

def quote (text : List Char) : List Char := text.flatMap fun c => (Directive.literal c).code

def runCode (c : Char) (n : Nat) : List Char :=
  match Field.ofRun? c n with
  | some f => (Directive.field f).code
  | none => quote (List.replicate n c)

theorem length_dropWhile_le (p : Char → Bool) (s : List Char) : (s.dropWhile p).length ≤ s.length :=
  (List.dropWhile_sublist p).length_le

/-- The format for a pattern. A quote that is not closed reaches to the end. -/
def translate : List Char → List Char
  | [] => []
  | c :: s =>
    if c = '\'' then
      quote (s.takeWhile (· ≠ '\'')) ++ translate ((s.dropWhile (· ≠ '\'')).drop 1)
    else runCode c ((s.takeWhile (· = c)).length + 1) ++ translate (s.dropWhile (· = c))
termination_by s => s.length
decreasing_by
  · have := length_dropWhile_le (· ≠ '\'') s
    simp only [List.length_drop, List.length_cons]; omega
  · have := length_dropWhile_le (· = c) s
    simp only [List.length_cons]; omega

end DerivedColumns.Calendar
