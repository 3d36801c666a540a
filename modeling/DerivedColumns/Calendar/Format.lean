import DerivedColumns.Calendar.Pattern
import DerivedColumns.Calendar.Text

set_option autoImplicit false

namespace DerivedColumns.Calendar

namespace Field

def all : List Field :=
  [.yearOfCentury, .year, .month true, .month false, .monthAbbreviation, .monthName, .day true,
    .day false, .weekdayAbbreviation, .weekdayName, .hour true, .hour false, .halfDayHour true,
    .halfDayHour false, .minute true, .minute false, .second true, .second false, .halfDay]

def read? (s : List Char) : Option (Field × List Char) :=
  (all.find? fun f => f.code.isPrefixOf s).map fun f => (f, s.drop f.code.length)

theorem append_of_read? {s rest : List Char} {f : Field} (h : read? s = some (f, rest)) :
    f.code ++ rest = s := by
  obtain ⟨f', found, same⟩ := Option.map_eq_some_iff.1 h
  cases same
  exact List.prefix_iff_eq_append.1 (List.isPrefixOf_iff_prefix.1 (List.find?_some found :))

end Field

def monthNames : List String :=
  ["January", "February", "March", "April", "May", "June", "July", "August", "September", "October",
    "November", "December"]

def weekdayNames : List String :=
  ["Sunday", "Monday", "Tuesday", "Wednesday", "Thursday", "Friday", "Saturday"]

def numberChars (wide : Bool) (n : Nat) : List Char := padded (if wide then 2 else 1) n

def Time.halfDayHour (t : Time) : Nat := if t.hour % 12 = 0 then 12 else t.hour % 12

def Field.chars (m : Moment) : Field → List Char
  | .yearOfCentury => padded 2 (m.date.year % 100).toNat
  | .year => yearChars m.date.year
  | .month wide => numberChars wide m.date.month
  | .monthAbbreviation => (monthNames.getD (m.date.month - 1) "").toList.take 3
  | .monthName => (monthNames.getD (m.date.month - 1) "").toList
  | .day wide => numberChars wide m.date.day
  | .weekdayAbbreviation => (weekdayNames.getD m.date.weekday "").toList.take 3
  | .weekdayName => (weekdayNames.getD m.date.weekday "").toList
  | .hour wide => numberChars wide m.time.hour
  | .halfDayHour wide => numberChars wide m.time.halfDayHour
  | .minute wide => numberChars wide m.time.minute
  | .second wide => numberChars wide m.time.second
  | .halfDay => if m.time.hour < 12 then ['A', 'M'] else ['P', 'M']

namespace Directive

def chars (m : Moment) : Directive → List Char
  | .literal c => [c]
  | .field f => f.chars m

def read? (c : Char) (s : List Char) : Option (Directive × List Char) :=
  if c ≠ '%' then some (.literal c, s)
  else
    match s with
    | '%' :: s => some (.literal '%', s)
    | s => (Field.read? s).map fun (f, rest) => (.field f, rest)

theorem append_of_read? {c : Char} {s rest : List Char} {directive : Directive}
    (h : read? c s = some (directive, rest)) : directive.code ++ rest = c :: s := by
  unfold read? at h
  split at h
  · rename_i plain
    cases h
    rw [code, if_neg plain]
    rfl
  · rename_i percent
    obtain rfl := Decidable.not_not.1 percent
    split at h
    · cases h
      rfl
    · obtain ⟨⟨f, _⟩, found, same⟩ := Option.map_eq_some_iff.1 h
      cases same
      exact congrArg ('%' :: ·) (Field.append_of_read? found)

theorem length_code_pos (directive : Directive) : 0 < directive.code.length := by
  cases directive with
  | literal c =>
    rw [code]
    split <;> exact Nat.succ_pos _
  | field f => exact Nat.succ_pos _

end Directive

def directives? : List Char → Option (List Directive)
  | [] => some []
  | c :: s =>
    match _read : Directive.read? c s with
    | some (directive, rest) => (directives? rest).map (directive :: ·)
    | none => none
termination_by s => s.length
decreasing_by
  have total := congrArg List.length (Directive.append_of_read? _read)
  have := directive.length_code_pos
  rw [List.length_append] at total
  omega

def Moment.format? (m : Moment) (format : List Char) : Option (List Char) :=
  (directives? format).map fun directives => directives.flatMap (Directive.chars m)

end DerivedColumns.Calendar
