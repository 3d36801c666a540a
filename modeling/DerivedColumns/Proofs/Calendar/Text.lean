import DerivedColumns.Calendar.Text
import DerivedColumns.Proofs.Number.Plain

set_option autoImplicit false

namespace DerivedColumns.Calendar

open Number (ofDigits spanDigits)

section Digits

variable {width width' n n' : Nat} {s s' : List Char}

theorem isDigit_padded (width n : Nat) : ∀ c ∈ padded width n, c.isDigit = true := by
  intro c hc
  rcases List.mem_append.1 hc with hc | hc
  · exact Number.isDigit_zeros _ c hc
  · exact Nat.isDigit_of_mem_toDigits (by decide) (by decide) hc

theorem ofDigits_padded (width n : Nat) : ofDigits (padded width n) = n :=
  (Number.ofDigits_zeros_append _ _).trans (Number.ofDigits_toDigits n)

theorem head_padded (width n : Nat) : ∃ d ds, padded width n = d :: ds ∧ d.isDigit = true := by
  have ne_nil : padded width n ≠ [] := by
    intro none
    exact Nat.toDigits_ne_nil (List.append_eq_nil_iff.1 none).2
  obtain ⟨d, ds, e⟩ := List.exists_cons_of_ne_nil ne_nil
  exact ⟨d, ds, e, isDigit_padded width n d (e ▸ List.mem_cons_self)⟩

theorem padded_append_inj (stop : ∀ c ∈ s.head?, c.isDigit = false)
    (stop' : ∀ c ∈ s'.head?, c.isDigit = false) (h : padded width n ++ s = padded width' n' ++ s') :
    n = n' ∧ s = s' := by
  have split := congrArg spanDigits h
  rw [Number.spanDigits_append (isDigit_padded width n) stop,
    Number.spanDigits_append (isDigit_padded width' n') stop', Prod.mk.injEq] at split
  refine ⟨?_, split.2⟩
  rw [← ofDigits_padded width n, split.1, ofDigits_padded]

theorem yearChars_append_inj {year year' : Int} (stop : ∀ c ∈ s.head?, c.isDigit = false)
    (stop' : ∀ c ∈ s'.head?, c.isDigit = false) (h : yearChars year ++ s = yearChars year' ++ s') :
    year = year' ∧ s = s' := by
  have unsigned : ∀ {n : Nat} {sign : Char} {t t' : List Char}, sign.isDigit = false →
      padded 4 n ++ t ≠ sign :: t' := by
    intro n sign t t' hs e
    obtain ⟨d, ds, hd, digit⟩ := head_padded 4 n
    rw [hd] at e
    cases e
    rw [digit] at hs
    cases hs
  unfold yearChars at h
  dsimp only at h
  split at h
  · rename_i before
    split at h
    · rename_i before'
      obtain ⟨e, rest⟩ := padded_append_inj stop stop' (List.cons.inj h).2
      exact ⟨by omega, rest⟩
    · split at h
      · cases (List.cons.inj h).1
      · exact absurd h.symm (unsigned rfl)
  · rename_i after
    split at h
    · rename_i far
      split at h
      · cases (List.cons.inj h).1
      · split at h
        · obtain ⟨e, rest⟩ := padded_append_inj stop stop' (List.cons.inj h).2
          exact ⟨by omega, rest⟩
        · exact absurd h.symm (unsigned rfl)
    · split at h
      · exact absurd h (unsigned rfl)
      · split at h
        · exact absurd h (unsigned rfl)
        · obtain ⟨e, rest⟩ := padded_append_inj stop stop' h
          exact ⟨by omega, rest⟩

end Digits

theorem Date.chars_append_inj {d e : Date} {s t : List Char} (stop : ∀ c ∈ s.head?, c.isDigit = false)
    (stop' : ∀ c ∈ t.head?, c.isDigit = false) (h : d.chars ++ s = e.chars ++ t) : d = e ∧ s = t := by
  have hyphen : ∀ (u : List Char), ∀ c ∈ ('-' :: u).head?, c.isDigit = false := by
    intro u c hc
    cases hc
    rfl
  unfold chars at h
  simp only [List.append_assoc, List.cons_append] at h
  obtain ⟨year, h⟩ := yearChars_append_inj (hyphen _) (hyphen _) h
  obtain ⟨month, h⟩ := padded_append_inj (hyphen _) (hyphen _) (List.cons.inj h).2
  obtain ⟨day, rest⟩ := padded_append_inj stop stop' (List.cons.inj h).2
  obtain ⟨_, _, _, _, _, _⟩ := d
  obtain ⟨_, _, _, _, _, _⟩ := e
  cases year
  cases month
  cases day
  exact ⟨rfl, rest⟩

def Time.SameSecond (t u : Time) : Prop := t.hour = u.hour ∧ t.minute = u.minute ∧ t.second = u.second

theorem Time.clockChars_eq_iff (t u : Time) : t.clockChars = u.clockChars ↔ t.SameSecond u := by
  have colon : ∀ (s : List Char), ∀ c ∈ (':' :: s).head?, c.isDigit = false := by
    intro s c hc
    cases hc
    rfl
  constructor
  · intro h
    unfold clockChars at h
    obtain ⟨hour, h⟩ := padded_append_inj (colon _) (colon _) h
    obtain ⟨minute, h⟩ := padded_append_inj (colon _) (colon _) (List.cons.inj h).2
    have last := (List.cons.inj h).2
    exact ⟨hour, minute, by rw [← ofDigits_padded 2 t.second, last, ofDigits_padded]⟩
  · rintro ⟨hour, minute, second⟩
    unfold clockChars
    rw [hour, minute, second]

namespace Moment

variable {m n : Moment}

def cellTail (m : Moment) : List Char := if m.time = .midnight then [] else 'T' :: m.time.clockChars

theorem cellChars_eq (m : Moment) : m.cellChars = m.date.chars ++ m.cellTail := by
  unfold cellChars cellTail
  split
  · exact (List.append_nil _).symm
  · rfl

theorem isDigit_cellTail (m : Moment) : ∀ c ∈ m.cellTail.head?, c.isDigit = false := by
  intro c hc
  unfold cellTail at hc
  split at hc
  · cases hc
  · cases hc
    rfl

/-- Cells show the same if they are of one second, both or neither of them at midnight sharp. -/
theorem cellText_eq_iff (m n : Moment) : m.cellText = n.cellText ↔
    m.date = n.date ∧ m.time.SameSecond n.time ∧ (m.time = .midnight ↔ n.time = .midnight) := by
  have chars : m.cellText = n.cellText ↔ m.date = n.date ∧ m.cellTail = n.cellTail := by
    rw [cellText, cellText, String.ofList_inj, cellChars_eq, cellChars_eq]
    constructor
    · exact Date.chars_append_inj m.isDigit_cellTail n.isDigit_cellTail
    · rintro ⟨date, tail⟩
      rw [date, tail]
  rw [chars]
  refine and_congr_right fun _ => ?_
  unfold cellTail
  by_cases hm : m.time = .midnight
  · by_cases hn : n.time = .midnight
    · simp [hm, hn, Time.SameSecond]
    · simp [hm, hn]
  · by_cases hn : n.time = .midnight
    · simp [hm, hn]
    · simp [hm, hn, Time.clockChars_eq_iff]

theorem hyphen_mem_tail (m : Moment) : '-' ∈ m.cellChars.tail := by
  have ne_nil : yearChars m.date.year ≠ [] := by
    obtain ⟨d, ds, hd, -⟩ := head_padded 4 m.date.year.natAbs
    unfold yearChars
    dsimp only
    rw [hd]
    split
    · exact List.cons_ne_nil _ _
    · split
      · exact List.cons_ne_nil _ _
      · exact List.cons_ne_nil _ _
  obtain ⟨d, ds, hd⟩ := List.exists_cons_of_ne_nil ne_nil
  rw [cellChars_eq, Date.chars, hd]
  simp

theorem bar_not_mem_chars (m : Moment) : '|' ∉ m.cellChars := by
  have digits : ∀ width n, '|' ∉ padded width n :=
    fun width n hc => absurd (isDigit_padded width n _ hc) (by decide)
  have year : '|' ∉ yearChars m.date.year := by
    unfold yearChars
    dsimp only
    split
    · simp [digits]
    · split <;> simp [digits]
  rw [cellChars_eq, Date.chars, cellTail, Time.clockChars]
  split <;> simp [year, digits]

end Moment

end DerivedColumns.Calendar
