set_option autoImplicit false

namespace DerivedColumns.Calendar

def isLeap (year : Int) : Bool := year % 4 = 0 && (year % 100 ≠ 0 || year % 400 = 0)

def monthLengths (leap : Bool) : List Nat :=
  [31, if leap then 29 else 28, 31, 30, 31, 30, 31, 31, 30, 31, 30, 31]

/-- The number of days of a month; zero for a month that is not one of 1 to 12. -/
def monthLength (year : Int) (month : Nat) : Nat :=
  match month with
  | 0 => 0
  | m + 1 => (monthLengths (isLeap year)).getD m 0

def firstYear : Int := -262143

def lastYear : Int := 262142

structure Date where
  year : Int
  month : Nat
  day : Nat
  year_mem : firstYear ≤ year ∧ year ≤ lastYear
  month_mem : 1 ≤ month ∧ month ≤ 12
  day_mem : 1 ≤ day ∧ day ≤ monthLength year month
deriving DecidableEq

namespace Date

def ofParts? (year : Int) (month day : Nat) : Option Date :=
  if h : (firstYear ≤ year ∧ year ≤ lastYear) ∧ (1 ≤ month ∧ month ≤ 12) ∧
      (1 ≤ day ∧ day ≤ monthLength year month) then
    some ⟨year, month, day, h.1, h.2.1, h.2.2⟩
  else none

theorem ofParts?_self (d : Date) : ofParts? d.year d.month d.day = some d := by
  simp [ofParts?, d.year_mem, d.month_mem, d.day_mem]

def ordinal (d : Date) : Nat :=
  ((monthLengths (isLeap d.year)).take (d.month - 1)).foldl (· + ·) d.day

def daysBefore (year : Int) : Int :=
  let past := year - 1
  365 * past + past / 4 - past / 100 + past / 400

def epoch : Int := 719162

def number (d : Date) : Int := daysBefore d.year + d.ordinal - 1 - epoch

def monthAndDay (month rest : Nat) : List Nat → Nat × Nat
  | [] => (month, rest + 1)
  | length :: more =>
    if rest < length then (month, rest + 1) else monthAndDay (month + 1) (rest - length) more

/-- The year that holds the day `n` days after 0001-01-01, and the number of days before it in that
year. Years repeat after 400 years, which hold 97 leap days. -/
def yearOfDay (n : Int) : Int × Nat :=
  let cycle := n / 146097
  let rest := (n % 146097).toNat
  let century := min (rest / 36524) 3
  let rest := rest - 36524 * century
  let quadrennium := rest / 1461
  let rest := rest % 1461
  let past := min (rest / 365) 3
  (400 * cycle + 100 * century + 4 * quadrennium + past + 1, rest - 365 * past)

def ofNumber? (n : Int) : Option Date :=
  let (year, rest) := yearOfDay (n + epoch)
  let (month, day) := monthAndDay 1 rest (monthLengths (isLeap year))
  ofParts? year month day

def weekday (d : Date) : Nat := ((d.number + 4) % 7).toNat

def sinceMonday (d : Date) : Nat := (d.weekday + 6) % 7

def firstSinceMonday (year : Int) : Nat := (daysBefore year % 7).toNat

def weeksIn (year : Int) : Nat :=
  let first := firstSinceMonday year
  if first = 3 || (first = 2 && isLeap year) then 53 else 52

/-- The number of the week of ISO 8601: weeks start on Monday and belong to the year of their
Thursday. -/
def week (d : Date) : Nat :=
  let week := (d.ordinal + 9 - d.sinceMonday) / 7
  if week = 0 then weeksIn (d.year - 1)
  else if weeksIn d.year < week then 1
  else week

def compare (a b : Date) : Ordering :=
  (Ord.compare a.year b.year).then ((Ord.compare a.month b.month).then (Ord.compare a.day b.day))

end Date

structure Time where
  hour : Nat
  minute : Nat
  second : Nat
  nano : Nat
  hour_lt : hour < 24
  minute_lt : minute < 60
  second_le : second ≤ 60
  nano_lt : nano < 1000000000
deriving DecidableEq

namespace Time

def ofParts? (hour minute second nano : Nat) : Option Time :=
  if h : hour < 24 ∧ minute < 60 ∧ second ≤ 60 ∧ nano < 1000000000 then
    some ⟨hour, minute, second, nano, h.1, h.2.1, h.2.2.1, h.2.2.2⟩
  else none

theorem ofParts?_self (t : Time) : ofParts? t.hour t.minute t.second t.nano = some t := by
  simp [ofParts?, t.hour_lt, t.minute_lt, t.second_le, t.nano_lt]

def midnight : Time := ⟨0, 0, 0, 0, by decide, by decide, by decide, by decide⟩

def ofMillis (n : Nat) (h : n < 86400000) : Time :=
  ⟨n / 3600000, n / 60000 % 60, n / 1000 % 60, n % 1000 * 1000000,
    by omega, by omega, by omega, by omega⟩

/-- The number of milliseconds into the day; a leap second runs into the next minute. -/
def millis (t : Time) : Nat :=
  ((t.hour * 60 + t.minute) * 60 + t.second) * 1000 + t.nano / 1000000

def compare (a b : Time) : Ordering :=
  (Ord.compare a.hour b.hour).then ((Ord.compare a.minute b.minute).then
    ((Ord.compare a.second b.second).then (Ord.compare a.nano b.nano)))

end Time

end DerivedColumns.Calendar
