import DerivedColumns.Calendar.Moment
import Mathlib

set_option autoImplicit false

namespace DerivedColumns.Calendar

theorem monthLengths_le (leap : Bool) : ∀ n ∈ monthLengths leap, n ≤ 31 := by
  cases leap <;> decide

theorem length_monthLengths (leap : Bool) : (monthLengths leap).length = 12 := rfl

theorem monthLength_le (year : Int) (month : Nat) : monthLength year month ≤ 31 := by
  cases month with
  | zero => exact Nat.zero_le 31
  | succ m =>
    change (monthLengths (isLeap year)).getD m 0 ≤ 31
    rw [List.getD_eq_getElem?_getD]
    cases h : (monthLengths (isLeap year))[m]? with
    | none => exact Nat.zero_le 31
    | some n => exact monthLengths_le _ n (List.mem_of_getElem? h)

theorem foldl_add_le {b : Nat} {ns : List Nat} (h : ∀ n ∈ ns, n ≤ b) (start : Nat) :
    ns.foldl (· + ·) start ≤ start + ns.length * b := by
  induction ns generalizing start with
  | nil => exact Nat.le_add_right _ _
  | cons n ns ih =>
    rw [List.forall_mem_cons] at h
    have rest := ih h.2 (start + n)
    rw [List.length_cons, Nat.succ_mul]
    change ns.foldl (· + ·) (start + n) ≤ _
    have first := h.1
    omega

namespace Date

variable (d : Date)

theorem day_le : d.day ≤ 31 := Nat.le_trans d.day_mem.2 (monthLength_le _ _)

theorem ordinal_le : d.ordinal ≤ 403 := by
  have months : ∀ n ∈ (monthLengths (isLeap d.year)).take (d.month - 1), n ≤ 31 :=
    fun n hn => monthLengths_le _ n (List.mem_of_mem_take hn)
  have length := List.length_take_le' (d.month - 1) (monthLengths (isLeap d.year))
  rw [length_monthLengths] at length
  have sum := foldl_add_le months d.day
  have day := d.day_le
  unfold ordinal
  omega

theorem week_le : d.week ≤ 58 := by
  have ordinal := d.ordinal_le
  have weeks : ∀ year, weeksIn year ≤ 53 := by
    intro year
    unfold weeksIn
    dsimp only
    split <;> decide
  unfold week
  dsimp only
  split
  · exact Nat.le_trans (weeks _) (by decide)
  · split
    · decide
    · omega

theorem weekday_lt : d.weekday < 7 := by
  unfold weekday
  omega

theorem natAbs_number_lt : d.number.natAbs < 100000000 := by
  have ordinal := d.ordinal_le
  have year := d.year_mem
  unfold number daysBefore epoch
  unfold firstYear lastYear at year
  dsimp only
  omega

end Date

theorem Time.millis_lt (t : Time) : t.millis < 86402000 := by
  have hour := t.hour_lt
  have minute := t.minute_lt
  have second := t.second_le
  have nano := t.nano_lt
  unfold millis
  omega

theorem Moment.natAbs_millis_lt (m : Moment) : m.millis.natAbs < 2 ^ 53 := by
  have days := m.date.natAbs_number_lt
  have time := m.time.millis_lt
  unfold millis
  omega

end DerivedColumns.Calendar
