import DerivedColumns.Proofs.Calendar.Text
import DerivedColumns.Proofs.Number.Text
import DerivedColumns.Value.Basic

set_option autoImplicit false

namespace DerivedColumns.Value

open Calendar (Moment Time)

/-- Told from the values alone: their cells show the same. -/
def LooksLike : Value → Value → Prop
  | .null, .null => True
  | .bool a, .bool b => a = b
  | .number x, .number y => x = y ∨ (x.isNaN = true ∧ y.isNaN = true)
  | .date m, .date n =>
    m.date = n.date ∧ m.time.SameSecond n.time ∧ (m.time = .midnight ↔ n.time = .midnight)
  | .text s, v => s = v.display
  | v, .text s => v.display = s
  | _, _ => False

theorem toList_text (x : Number) : x.text.toList = x.chars := String.toList_ofList

theorem toList_cellText (m : Moment) : m.cellText.toList = m.cellChars := String.toList_ofList

/-- Only dates have a hyphen after the first character. -/
theorem display_ne_cellText {v : Value} (plain : '-' ∉ v.display.toList.tail) (m : Moment) :
    v.display ≠ m.cellText := by
  intro same
  rw [same, toList_cellText] at plain
  exact plain m.hyphen_mem_tail

theorem display_ne_number {v : Value} (word : Number.read? v.display.toList = none) (x : Number) :
    v.display ≠ x.text := by
  intro same
  have read := x.isSome_read_chars
  rw [← toList_text, ← same, word] at read
  cases read

theorem hyphen_not_mem_text (x : Number) : '-' ∉ x.text.toList.tail := by
  rw [toList_text]
  exact x.hyphen_not_mem_tail

theorem hyphen_not_mem_bool (b : Bool) : '-' ∉ (boolText b).toList.tail := by
  cases b <;> decide

theorem read_boolText (b : Bool) : Number.read? (boolText b).toList = none := by
  cases b <;> decide +kernel

theorem hyphen_not_mem_null : '-' ∉ ("null" : String).toList.tail := by decide

theorem read_null : Number.read? ("null" : String).toList = none := by decide +kernel

theorem boolText_inj {a b : Bool} : boolText a = boolText b ↔ a = b := by
  cases a <;> cases b <;> decide

theorem display_eq_iff (a b : Value) : a.display = b.display ↔ a.LooksLike b := by
  cases a with
  | null =>
    cases b with
    | null => exact iff_of_true rfl trivial
    | bool b => exact iff_of_false (by cases b <;> decide) id
    | number x => exact iff_of_false (display_ne_number (v := .null) read_null x) id
    | date m => exact iff_of_false (display_ne_cellText (v := .null) hyphen_not_mem_null m) id
    | text s => exact Iff.rfl
  | bool a =>
    cases b with
    | null => exact iff_of_false (by cases a <;> decide) id
    | bool b => exact boolText_inj
    | number x => exact iff_of_false (display_ne_number (v := .bool a) (read_boolText a) x) id
    | date m => exact iff_of_false (display_ne_cellText (v := .bool a) (hyphen_not_mem_bool a) m) id
    | text s => exact Iff.rfl
  | number x =>
    cases b with
    | null => exact iff_of_false (display_ne_number (v := .null) read_null x).symm id
    | bool b => exact iff_of_false (display_ne_number (v := .bool b) (read_boolText b) x).symm id
    | number y => exact Number.text_eq_iff x y
    | date m => exact iff_of_false (display_ne_cellText (v := .number x) (hyphen_not_mem_text x) m) id
    | text s => exact Iff.rfl
  | date m =>
    cases b with
    | null => exact iff_of_false (display_ne_cellText (v := .null) hyphen_not_mem_null m).symm id
    | bool b =>
      exact iff_of_false (display_ne_cellText (v := .bool b) (hyphen_not_mem_bool b) m).symm id
    | number x =>
      exact iff_of_false (display_ne_cellText (v := .number x) (hyphen_not_mem_text x) m).symm id
    | date n => exact m.cellText_eq_iff n
    | text s => exact Iff.rfl
  | text s => cases b <;> exact Iff.rfl

theorem exists_text_of_bar {v : Value} (h : '|' ∈ v.display.toList) : ∃ s, v = .text s := by
  cases v with
  | null => exact absurd h (by decide)
  | bool b =>
    cases b with
    | false => exact absurd h (by decide)
    | true => exact absurd h (by decide)
  | number x => exact absurd (toList_text x ▸ h) x.bar_not_mem_chars
  | date m => exact absurd (toList_cellText m ▸ h) m.bar_not_mem_chars
  | text s => exact ⟨s, rfl⟩

/-- Two values of which the texts tell another thing than equality does. -/
inductive Misjudged : Value → Value → Prop
  | nan (x y : Number) (hx : x.isNaN = true) (hy : y.isNaN = true) : Misjudged (.number x) (.number y)
  | zero (x y : Number) (hx : x.isZero = true) (hy : y.isZero = true) (ne : x ≠ y) :
    Misjudged (.number x) (.number y)
  | date (m n : Moment) (same : LooksLike (.date m) (.date n)) (ne : m ≠ n) :
    Misjudged (.date m) (.date n)
  | text (s : String) (v : Value) (kind : ∀ t, v ≠ .text t) (spelled : s = v.display) :
    Misjudged (.text s) v
  | spelled (v : Value) (s : String) (kind : ∀ t, v ≠ .text t) (spelled : v.display = s) :
    Misjudged v (.text s)

theorem not_misjudged_number (x y : Number) : ¬ Misjudged (.number x) (.number y) ↔
    (x = y ∨ (x.isNaN = true ∧ y.isNaN = true) ↔ x.equals y = true) := by
  rw [Number.equals_iff]
  constructor
  · intro fine
    constructor
    · intro alike
      have number : ¬ x.isNaN = true ∧ ¬ y.isNaN = true := by
        rcases alike with rfl | ⟨hx, hy⟩
        · exact ⟨fun h => fine (.nan x x h h), fun h => fine (.nan x x h h)⟩
        · exact absurd (.nan x y hx hy) fine
      rw [Bool.not_eq_true, Bool.not_eq_true] at number
      exact ⟨number, .inl (alike.resolve_right fun h => by rw [number.1] at h; cases h.1)⟩
    · rintro ⟨-, same | ⟨hx, hy⟩⟩
      · exact .inl same
      · by_cases same : x = y
        · exact .inl same
        · exact absurd (.zero x y hx hy same) fine
  · intro agree misjudged
    cases misjudged with
    | nan _ _ hx hy =>
      have := (agree.1 (.inr ⟨hx, hy⟩)).1.1
      rw [hx] at this
      cases this
    | zero _ _ hx hy ne =>
      have proper := And.intro (Number.isNaN_of_isZero hx) (Number.isNaN_of_isZero hy)
      rcases agree.2 ⟨proper, .inr ⟨hx, hy⟩⟩ with same | ⟨nan, -⟩
      · exact ne same
      · rw [proper.1] at nan
        cases nan

theorem not_misjudged_date (m n : Moment) : ¬ Misjudged (.date m) (.date n) ↔
    (LooksLike (.date m) (.date n) ↔ (m == n) = true) := by
  rw [beq_iff_eq]
  constructor
  · intro fine
    constructor
    · intro alike
      by_contra ne
      exact fine (.date m n alike ne)
    · rintro rfl
      exact ⟨rfl, ⟨rfl, rfl, rfl⟩, Iff.rfl⟩
  · intro agree misjudged
    cases misjudged with
    | date _ _ same ne => exact ne (agree.1 same)

theorem beq_text_eq_false {v : Value} (kind : ∀ t, v ≠ .text t) (s : String) :
    ((.text s : Value) == v) = false ∧ (v == .text s) = false := by
  cases v with
  | text t => exact absurd rfl (kind t)
  | _ => exact ⟨rfl, rfl⟩

theorem not_misjudged_text {v : Value} (kind : ∀ t, v ≠ .text t) (s : String) :
    (¬ Misjudged (.text s) v ↔ (LooksLike (.text s) v ↔ ((.text s : Value) == v) = true)) ∧
      (¬ Misjudged v (.text s) ↔ (LooksLike v (.text s) ↔ (v == .text s) = true)) := by
  rw [(beq_text_eq_false kind s).1, (beq_text_eq_false kind s).2, ← display_eq_iff, ← display_eq_iff]
  simp only [Bool.false_eq_true, iff_false]
  constructor
  · refine not_congr ⟨fun misjudged => ?_, .text s v kind⟩
    cases misjudged with
    | text _ _ _ spelled => exact spelled
    | spelled _ _ kind' _ => exact absurd rfl (kind' s)
  · refine not_congr ⟨fun misjudged => ?_, .spelled v s kind⟩
    cases misjudged with
    | text _ _ kind' _ => exact absurd rfl (kind' s)
    | spelled _ _ _ spelled => exact spelled

/-- The texts tell what equality does, exactly where nothing is misjudged. -/
theorem not_misjudged_iff (a b : Value) : ¬ Misjudged a b ↔ (a.LooksLike b ↔ (a == b) = true) := by
  have apart : ∀ {c d : Value}, (Misjudged c d → False) → ¬ c.LooksLike d → (c == d) = false →
      (¬ Misjudged c d ↔ (c.LooksLike d ↔ (c == d) = true)) := by
    intro c d fine unlike unequal
    refine iff_of_true fine (iff_of_false unlike ?_)
    rw [unequal]
    exact Bool.false_ne_true
  cases a with
  | null =>
    cases b with
    | null => exact iff_of_true nofun (iff_of_true trivial rfl)
    | text s => exact (not_misjudged_text (fun _ => Value.noConfusion) s).2
    | _ => exact apart nofun id rfl
  | bool a =>
    cases b with
    | bool b => exact iff_of_true nofun beq_iff_eq.symm
    | text s => exact (not_misjudged_text (fun _ => Value.noConfusion) s).2
    | _ => exact apart nofun id rfl
  | number x =>
    cases b with
    | number y => exact not_misjudged_number x y
    | text s => exact (not_misjudged_text (fun _ => Value.noConfusion) s).2
    | _ => exact apart nofun id rfl
  | date m =>
    cases b with
    | date n => exact not_misjudged_date m n
    | text s => exact (not_misjudged_text (fun _ => Value.noConfusion) s).2
    | _ => exact apart nofun id rfl
  | text s =>
    cases b with
    | text t =>
      refine iff_of_true (fun h => ?_) beq_iff_eq.symm
      cases h with
      | text _ _ kind _ => exact kind t rfl
      | spelled _ _ kind _ => exact kind s rfl
    | _ => exact (not_misjudged_text (fun _ => Value.noConfusion) s).1

end DerivedColumns.Value
