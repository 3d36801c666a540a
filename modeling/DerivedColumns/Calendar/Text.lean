import DerivedColumns.Calendar.Moment

set_option autoImplicit false

namespace DerivedColumns.Calendar

def padded (width n : Nat) : List Char :=
  let digits := Nat.toDigits 10 n
  List.replicate (width - digits.length) '0' ++ digits

/-- Four digits, and a sign for the years before 0 and after 9999. -/
def yearChars (year : Int) : List Char :=
  let digits := padded 4 year.natAbs
  if year < 0 then '-' :: digits else if 9999 < year then '+' :: digits else digits

def Date.chars (d : Date) : List Char :=
  yearChars d.year ++ '-' :: (padded 2 d.month ++ '-' :: padded 2 d.day)

def Time.clockChars (t : Time) : List Char :=
  padded 2 t.hour ++ ':' :: (padded 2 t.minute ++ ':' :: padded 2 t.second)

/-- The part of a second, in as few groups of three digits as hold it. -/
def fractionChars (nano : Nat) : List Char :=
  if nano = 0 then []
  else if nano % 1000000 = 0 then '.' :: padded 3 (nano / 1000000)
  else if nano % 1000 = 0 then '.' :: padded 6 (nano / 1000)
  else '.' :: padded 9 nano

def Moment.isoChars (m : Moment) : List Char :=
  m.date.chars ++ 'T' :: (m.time.clockChars ++ fractionChars m.time.nano)

def Moment.iso (m : Moment) : String := String.ofList m.isoChars

def Moment.cellChars (m : Moment) : List Char :=
  if m.time = .midnight then m.date.chars else m.date.chars ++ 'T' :: m.time.clockChars

def Moment.cellText (m : Moment) : String := String.ofList m.cellChars

end DerivedColumns.Calendar
