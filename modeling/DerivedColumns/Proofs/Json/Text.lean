import DerivedColumns.Json.Scan
import DerivedColumns.Json.Writer

set_option autoImplicit false

namespace DerivedColumns.Json

open Scan (hexValue? hex4? coded? escaped? content?)

theorem hexValue?_hexDigit {n : Nat} (h : n < 16) : hexValue? (hexDigit n) = some n := by
  have all : ∀ m < 16, hexValue? (hexDigit m) = some m := by decide
  exact all n h

/-- The code of a control character, of which the first two of its four digits are zeros. -/
theorem coded?_control {c : Char} (h : c.toNat < 0x20) (s : List Char) :
    coded? ('0' :: '0' :: hexDigit (c.toNat / 16) :: hexDigit (c.toNat % 16) :: s) = some (c, s) := by
  have zero : hexValue? '0' = some 0 := rfl
  have code : hex4? ('0' :: '0' :: hexDigit (c.toNat / 16) :: hexDigit (c.toNat % 16) :: s) = some (c.toNat, s) := by
    have high := hexValue?_hexDigit (n := c.toNat / 16) (by omega)
    have low := hexValue?_hexDigit (n := c.toNat % 16) (by omega)
    have value : ((0 * 16 + 0) * 16 + c.toNat / 16) * 16 + c.toNat % 16 = c.toNat := by omega
    simp only [hex4?, zero, high, low, Option.bind_eq_bind, Option.bind_some, value]
  simp only [coded?, code, Option.bind_eq_bind, Option.bind_some]
  rw [if_neg (by omega), if_neg (by omega), Char.ofNat_toNat]

theorem content?_backslash {s more cs rest : List Char} {c : Char} (read : escaped? s = some (c, more))
    (shorter : more.length ≤ s.length) (h : content? escaped? more = some (cs, rest)) :
    content? escaped? ('\\' :: s) = some (c :: cs, rest) := by
  rw [content?, read]
  simp only [if_pos shorter, h, Option.map_some]

theorem content?_plain {c : Char} {s cs rest : List Char} (quote : c ≠ '"') (backslash : c ≠ '\\')
    (plain : ¬ c.toNat < 0x20) (h : content? escaped? s = some (cs, rest)) :
    content? escaped? (c :: s) = some (c :: cs, rest) := by
  rw [content?]
  · rw [if_neg plain, h, Option.map_some]
  · exact fun same => quote same
  · exact fun same => backslash same

theorem content?_escape (c : Char) {s cs rest : List Char} (h : content? escaped? s = some (cs, rest)) :
    content? escaped? (escape c ++ s) = some (c :: cs, rest) := by
  have short : ∀ {mark : Char}, escaped? (mark :: s) = some (c, s) →
      content? escaped? ('\\' :: mark :: s) = some (c :: cs, rest) :=
    fun read => content?_backslash read (Nat.le_succ _) h
  unfold escape
  split
  · rename_i quote
    subst quote
    exact short rfl
  split
  · rename_i backslash
    subst backslash
    exact short rfl
  rename_i quote backslash
  iterate 5
    split
    · rename_i mark
      subst mark
      exact short rfl
  split
  · rename_i control
    exact content?_backslash (coded?_control control s) (Nat.le_add_right s.length 5) h
  · rename_i plain
    exact content?_plain quote backslash plain h

theorem content?_quoted (s rest : List Char) :
    content? escaped? (s.flatMap escape ++ '"' :: rest) = some (s, rest) := by
  induction s with
  | nil => rw [List.flatMap_nil, List.nil_append, content?]
  | cons c s ih =>
    rw [List.flatMap_cons, List.append_assoc]
    exact content?_escape c ih

end DerivedColumns.Json
