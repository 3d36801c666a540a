import DerivedColumns.Calendar.Date

set_option autoImplicit false

namespace DerivedColumns.Calendar

structure Moment where
  date : Date
  time : Time
deriving DecidableEq

namespace Moment

def atMidnight (d : Date) : Moment := ⟨d, .midnight⟩

def millis (m : Moment) : Int := m.date.number * 86400000 + m.time.millis

def ofMillis? (n : Int) : Option Moment :=
  (Date.ofNumber? (n / 86400000)).map fun date =>
    ⟨date, .ofMillis (n % 86400000).toNat (by omega)⟩

/-- The same moment on a clock that is `minutes` behind. -/
def behind? (m : Moment) (minutes : Int) : Option Moment :=
  let clock := (m.time.hour * 60 + m.time.minute : Int) - minutes
  let minute := (clock % 1440).toNat
  (Date.ofNumber? (m.date.number + clock / 1440)).map fun date =>
    { date
      time := { m.time with
        hour := minute / 60
        minute := minute % 60
        hour_lt := by omega
        minute_lt := by omega } }

def compare (a b : Moment) : Ordering := (a.date.compare b.date).then (a.time.compare b.time)

end Moment

end DerivedColumns.Calendar
