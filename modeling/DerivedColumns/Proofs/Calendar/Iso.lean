import DerivedColumns.Calendar.Reader
import DerivedColumns.Proofs.Calendar.Range
import DerivedColumns.Proofs.Calendar.Text

set_option autoImplicit false

namespace DerivedColumns.Calendar

open Number (ofDigits spanDigits)
open Text (isBlank trimStart)

variable {width n : Nat} {ps : Parts} {p : Part} {s : List Char}

theorem length_padded (positive : 0 < width) (h : n < 10 ^ width) : (padded width n).length = width := by
  have digits : (Nat.toDigits 10 n).length ≤ width := (Nat.length_toDigits_le_iff (by decide) positive).2 h
  rw [padded, List.length_append, List.length_replicate]
  omega

theorem digitsUpTo?_padded (positive : 0 < width) (h : n < 10 ^ width) (s : List Char) :
    digitsUpTo? width (padded width n ++ s) = some (n, s) := by
  have length := length_padded positive h
  obtain ⟨d, ds, head, -⟩ := head_padded width n
  have digits : ((padded width n ++ s).take width).takeWhile Char.isDigit = padded width n := by
    rw [List.take_left' length, List.takeWhile_eq_self_iff]
    exact isDigit_padded width n
  unfold digitsUpTo?
  dsimp only
  rw [digits, List.drop_left, ofDigits_padded, head]
  rfl

theorem anyDigits?_padded (stop : ∀ c ∈ s.head?, c.isDigit = false) :
    anyDigits? (padded width n ++ s) = some (n, s) := by
  obtain ⟨d, ds, head, -⟩ := head_padded width n
  have value := ofDigits_padded width n
  unfold anyDigits?
  rw [Number.spanDigits_append (isDigit_padded width n) stop]
  rw [head] at value ⊢
  rw [← value]

theorem isBlank_of_isDigit {c : Char} (h : c.isDigit = true) : isBlank c = false := by
  have bounds : 48 ≤ c.toNat ∧ c.toNat ≤ 57 := by
    simpa [Char.isDigit, UInt32.le_iff_toNat_le] using h
  simp only [isBlank, Bool.or_eq_false_iff, Bool.and_eq_false_iff, decide_eq_false_iff_not, beq_eq_false_iff_ne]
  omega

theorem trimStart_padded (width n : Nat) (s : List Char) : trimStart (padded width n ++ s) = padded width n ++ s := by
  obtain ⟨d, ds, head, digit⟩ := head_padded width n
  rw [head, List.cons_append, trimStart, List.dropWhile_cons, isBlank_of_isDigit digit]
  rfl

theorem looseNumber?_padded (p : Part) (h : n < 10 ^ p.width) (s : List Char) :
    looseNumber? p (padded p.width n ++ s) = some ((n : Int), s) := by
  have positive : 0 < p.width := by cases p <;> decide
  have digits := digitsUpTo?_padded positive h s
  obtain ⟨d, ds, head, digit⟩ := head_padded p.width n
  rw [looseNumber?.eq_def, trimStart_padded]
  rw [head] at digits ⊢
  split
  · rename_i minus
    cases minus
    cases digit
  · rename_i plus
    cases plus
    cases digit
  · rw [digits, Option.map_some]

theorem read?_loose (two : p.width = 2) (h : n < 100) (s : List Char) :
    Item.read? ps (padded 2 n ++ s) (.loose p) = some (ps.set p n, s) := by
  have number := looseNumber?_padded (n := n) p (by rw [two]; exact h) s
  rw [two] at number
  rw [Item.read?, number, Option.map_some]

theorem read?_year (year : Int) (s : List Char) :
    Item.read? ps (yearChars year ++ '-' :: s) (.loose .year) = some (ps.set .year year, '-' :: s) := by
  have stop : ∀ c ∈ ('-' :: s).head?, c.isDigit = false := by
    intro c hc
    cases hc
    rfl
  have digits : anyDigits? (padded 4 year.natAbs ++ '-' :: s) = some (year.natAbs, '-' :: s) := anyDigits?_padded stop
  have signed : ∀ sign, isBlank sign = false → trimStart (sign :: (padded 4 year.natAbs ++ '-' :: s)) =
      sign :: (padded 4 year.natAbs ++ '-' :: s) := by
    intro sign plain
    rw [trimStart, List.dropWhile_cons, plain]
    rfl
  rw [Item.read?, yearChars]
  by_cases before : year < 0
  · have value : -(year.natAbs : Int) = year := by omega
    rw [if_pos before, List.cons_append, looseNumber?.eq_def, signed '-' (by decide)]
    simp only [digits, Option.map_some, value]
  · have value : (year.natAbs : Int) = year := by omega
    rw [if_neg before]
    by_cases far : 9999 < year
    · rw [if_pos far, List.cons_append, looseNumber?.eq_def, signed '+' (by decide)]
      simp only [digits, Option.map_some, value]
    · have number := looseNumber?_padded .year (n := year.natAbs) (by change year.natAbs < 10000; omega) ('-' :: s)
      rw [if_neg far]
      rw [Part.width, value] at number
      rw [number, Option.map_some]

theorem read?_mark (c : Char) (s : List Char) : Item.read? ps (c :: s) (.mark [c]) = some (ps, s) := by
  simp [Item.read?]

theorem read?_gap (c : Char) (h : isBlank c = false) (s : List Char) :
    Item.read? ps (c :: s) .gap = some (ps, c :: s) := by
  rw [Item.read?, trimStart, List.dropWhile_cons, h]
  rfl

theorem nanos_padded (positive : 0 < width) (nine : width ≤ 9) (h : n < 10 ^ width) :
    nanos (padded width n) = n * 10 ^ (9 - width) := by
  have length := length_padded positive h
  rw [nanos, List.take_of_length_le (by omega), ofDigits_padded, length]
  rfl

theorem read?_point (positive : 0 < width) (nine : width ≤ 9) (h : n < 10 ^ width) :
    Item.read? ps ('.' :: padded width n) .fraction = some ({ ps with nano := n * 10 ^ (9 - width) }, []) := by
  have digits := Number.spanDigits_append (isDigit_padded width n) (s := []) (fun _ h => nomatch h)
  have value := nanos_padded positive nine h
  obtain ⟨d, ds, head, -⟩ := head_padded width n
  rw [List.append_nil] at digits
  rw [Item.read?, digits]
  rw [head] at value ⊢
  rw [← value]

/-- The part of a second is written in the fewest groups of digits that hold it, and none of it is lost. -/
theorem read?_fraction (nothing : ps.nano = 0) (h : n < 1000000000) :
    Item.read? ps (fractionChars n) .fraction = some ({ ps with nano := n }, []) := by
  unfold fractionChars
  split
  · rename_i zero
    rw [Item.read?, zero, ← nothing]
    exact fun _ h => nomatch h
  split
  · rename_i millis
    rw [read?_point (by decide) (by decide) (by change n / 1000000 < 1000; omega)]
    have whole : n / 1000000 * 10 ^ (9 - 3) = n := Nat.div_mul_cancel (Nat.dvd_of_mod_eq_zero millis)
    rw [whole]
  split
  · rename_i micros
    rw [read?_point (by decide) (by decide) (by change n / 1000 < 1000000; omega)]
    have whole : n / 1000 * 10 ^ (9 - 6) = n := Nat.div_mul_cancel (Nat.dvd_of_mod_eq_zero micros)
    rw [whole]
  · rw [read?_point (by decide) (by decide) h, Nat.sub_self, Nat.pow_zero, Nat.mul_one]

theorem readItems?_cons {item : Item} {ps' : Parts} {s' : List Char} (h : item.read? ps s = some (ps', s'))
    (items : List Item) : readItems? ps s (item :: items) = readItems? ps' s' items := by
  rw [readItems?, h]
  rfl

theorem readItems?_isoChars (m : Moment) : readItems? .none m.isoChars isoForm =
    some (⟨m.date.year, m.date.month, m.date.day, m.time.hour, m.time.minute, m.time.second, m.time.nano⟩, []) := by
  have month : m.date.month < 100 := by have := m.date.month_mem; omega
  have day : m.date.day < 100 := by have := m.date.day_le; omega
  have hour : m.time.hour < 100 := by have := m.time.hour_lt; omega
  have minute : m.time.minute < 100 := by have := m.time.minute_lt; omega
  have second : m.time.second < 100 := by have := m.time.second_le; omega
  rw [Moment.isoChars, Date.chars, Time.clockChars]
  simp only [List.append_assoc, List.cons_append]
  rw [isoForm, readItems?_cons (read?_year _ _), readItems?_cons (read?_gap '-' (by decide) _),
    readItems?_cons (read?_mark '-' _), readItems?_cons (read?_loose rfl month _),
    readItems?_cons (read?_gap '-' (by decide) _), readItems?_cons (read?_mark '-' _),
    readItems?_cons (read?_loose rfl day _), readItems?_cons (read?_gap 'T' (by decide) _),
    readItems?_cons (read?_mark 'T' _), readItems?_cons (read?_loose rfl hour _),
    readItems?_cons (read?_gap ':' (by decide) _), readItems?_cons (read?_mark ':' _),
    readItems?_cons (read?_loose rfl minute _), readItems?_cons (read?_gap ':' (by decide) _),
    readItems?_cons (read?_mark ':' _), readItems?_cons (read?_loose rfl second _),
    readItems?_cons (read?_fraction rfl m.time.nano_lt)]
  rfl

theorem readIso?_isoChars (m : Moment) : readIso? m.isoChars = some m := by
  rw [readIso?, readAll?, readItems?_isoChars, Option.bind_some, Parts.moment?, Parts.date?, Date.ofParts?_self]
  simp only [Time.ofParts?_self, Option.bind_eq_bind, Option.bind_some]

end DerivedColumns.Calendar
