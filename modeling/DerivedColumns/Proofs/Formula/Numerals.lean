import DerivedColumns.Proofs.Formula.Words

set_option autoImplicit false

namespace DerivedColumns.Formula

open Number (spanDigits spanExponent exponent? spanDigits_append)

def Run (ds : List Char) : Prop := ds ≠ [] ∧ ∀ c ∈ ds, c.isDigit = true

inductive IsExponent : List Char → Prop where
  | none : IsExponent []
  | some {mark : Char} {sign ds : List Char} (hm : mark = 'e' ∨ mark = 'E')
      (hs : sign = [] ∨ sign = ['-'] ∨ sign = ['+']) (hd : Run ds) : IsExponent (mark :: (sign ++ ds))

inductive IsNumeral : List Char → Prop where
  | whole {ds e : List Char} (hd : Run ds) (he : IsExponent e) : IsNumeral (ds ++ e)
  | point {ds fs e : List Char} (hd : Run ds) (hf : Run fs) (he : IsExponent e) : IsNumeral (ds ++ '.' :: (fs ++ e))
  | fraction {fs e : List Char} (hf : Run fs) (he : IsExponent e) : IsNumeral ('.' :: (fs ++ e))

def NoDigit (s : List Char) : Prop := ∀ c ∈ s.head?, c.isDigit = false

theorem noDigit_dropWhile (s : List Char) : NoDigit (s.dropWhile Char.isDigit) := by
  intro c hc
  have stopped := List.head?_dropWhile_not Char.isDigit s
  rwa [Option.mem_def.1 hc] at stopped

theorem spanDigits_run {s ds rest : List Char} (h : spanDigits s = (ds, rest)) (some : ds ≠ []) :
    s = ds ++ rest ∧ Run ds ∧ NoDigit rest := by
  obtain ⟨rfl, rfl⟩ := Prod.mk.inj h
  exact ⟨List.takeWhile_append_dropWhile.symm, ⟨some, fun c hc => List.mem_takeWhile_imp hc⟩, noDigit_dropWhile s⟩

theorem Run.append {ds more : List Char} (h : Run ds) (hm : ∀ c ∈ more, c.isDigit = true) : Run (ds ++ more) :=
  ⟨List.append_ne_nil_of_left_ne_nil h.1 _, fun c hc => (List.mem_append.1 hc).elim (h.2 c) (hm c)⟩

theorem Run.extend {ds : List Char} (h : Run ds) (s : List Char) :
    Run (ds ++ s.takeWhile Char.isDigit) := h.append fun _ hc => List.mem_takeWhile_imp hc

theorem exponent?_append {mark : Char} (hm : mark = 'e' ∨ mark = 'E') {sign : List Char}
    (hs : sign = [] ∨ sign = ['-'] ∨ sign = ['+']) {ds : List Char} (hd : Run ds) :
    ∃ e, ∀ rest, NoDigit rest → exponent? (mark :: (sign ++ (ds ++ rest))) = some (e, rest) := by
  obtain ⟨d, more, rfl⟩ := List.exists_cons_of_ne_nil hd.1
  have digits : ∀ rest, NoDigit rest → spanDigits (d :: (more ++ rest)) = (d :: more, rest) :=
    fun rest stop => spanDigits_append hd.2 stop
  have unsigned : d ≠ '-' ∧ d ≠ '+' := by
    constructor <;> rintro rfl <;> cases hd.2 _ List.mem_cons_self
  rcases hs with rfl | rfl | rfl
  · refine ⟨Number.ofDigits (d :: more), fun rest stop => ?_⟩
    rw [exponent?, if_pos hm, List.nil_append, List.cons_append, digits rest stop]
    · rfl
    · exact fun s same => unsigned.1 (List.cons.inj same).1
    · exact fun s same => unsigned.2 (List.cons.inj same).1
  · refine ⟨-(Number.ofDigits (d :: more) : Int), fun rest stop => ?_⟩
    simp only [exponent?, if_pos hm, List.cons_append, List.nil_append, digits rest stop, if_true]
  · refine ⟨Number.ofDigits (d :: more), fun rest stop => ?_⟩
    simp only [exponent?, if_pos hm, List.cons_append, List.nil_append, digits rest stop, Bool.false_eq_true, if_false]

theorem exponent?_parts {s rest : List Char} {e : Int} (h : exponent? s = some (e, rest)) :
    ∃ mark sign ds, (mark = 'e' ∨ mark = 'E') ∧ (sign = [] ∨ sign = ['-'] ∨ sign = ['+']) ∧ Run ds ∧ NoDigit rest ∧
      s = mark :: (sign ++ (ds ++ rest)) := by
  unfold exponent? at h
  split at h
  · cases h
  rename_i mark s
  split at h
  · rename_i hm
    dsimp only at h
    split at h
    · cases h
    · rename_i ds after some digits
      cases h
      split at digits
      · obtain ⟨rfl, run, stop⟩ := spanDigits_run digits some
        exact ⟨mark, _, ds, hm, .inr (.inl rfl), run, stop, rfl⟩
      · obtain ⟨rfl, run, stop⟩ := spanDigits_run digits some
        exact ⟨mark, _, ds, hm, .inr (.inr rfl), run, stop, rfl⟩
      · obtain ⟨rfl, run, stop⟩ := spanDigits_run digits some
        exact ⟨mark, _, ds, hm, .inl rfl, run, stop, rfl⟩
  · cases h

theorem isExponent_of_exponent? {s rest : List Char} {e : Int} (h : exponent? s = some (e, rest)) :
    ∃ w, s = w ++ rest ∧ IsExponent w := by
  obtain ⟨mark, sign, ds, hm, hs, run, -, rfl⟩ := exponent?_parts h
  exact ⟨mark :: (sign ++ ds), by rw [List.cons_append, List.append_assoc], .some hm hs run⟩

theorem isExponent_spanExponent (s : List Char) : ∃ w, s = w ++ (spanExponent s).2 ∧ IsExponent w := by
  unfold spanExponent
  cases found : exponent? s with
  | none => exact ⟨[], rfl, .none⟩
  | some p => exact isExponent_of_exponent? found

theorem spanExponent_length (s : List Char) : (spanExponent s).2.length ≤ s.length := by
  obtain ⟨w, whole, -⟩ := isExponent_spanExponent s
  have total := congrArg List.length whole
  rw [List.length_append] at total
  omega

theorem IsExponent.length_le {w : List Char} (h : IsExponent w) (s : List Char) :
    (spanExponent ((w ++ s).dropWhile Char.isDigit)).2.length ≤ s.length := by
  cases h with
  | none => exact (spanExponent_length _).trans (List.dropWhile_sublist _).length_le
  | some hm hs hd =>
    rename_i mark sign ds
    obtain ⟨e, read⟩ := exponent?_append hm hs (hd.extend s)
    have here : (mark :: (sign ++ ds) ++ s).dropWhile Char.isDigit =
        mark :: (sign ++ (ds ++ s.takeWhile Char.isDigit ++ s.dropWhile Char.isDigit)) := by
      have plain : mark.isDigit = false := by rcases hm with rfl | rfl <;> rfl
      rw [List.append_assoc ds, List.takeWhile_append_dropWhile, List.cons_append, List.dropWhile_cons, plain,
        if_neg Bool.false_ne_true, List.append_assoc]
    rw [here, spanExponent, read _ (noDigit_dropWhile s)]
    exact (List.dropWhile_sublist _).length_le

theorem IsExponent.read {w : List Char} (h : IsExponent w) :
    ∃ e, ∀ rest, Number.Apart rest → spanExponent (w ++ rest) = (e, rest) := by
  cases h with
  | none => exact ⟨0, fun rest apart => apart.spanExponent⟩
  | some hm hs hd =>
    obtain ⟨e, read⟩ := exponent?_append hm hs hd
    refine ⟨e, fun rest apart => ?_⟩
    rw [List.cons_append, List.append_assoc, spanExponent, read rest apart.isDigit]
    rfl

def spanFraction (s : List Char) : List Char × List Char :=
  match s with
  | '.' :: s' =>
    match spanDigits s' with
    | ([], _) => ([], s)
    | (fraction, rest) => (fraction, rest)
  | s => ([], s)

theorem numeral?_of_run {ds s : List Char} (h : Run ds) (stop : NoDigit s) :
    numeral? (ds ++ s) = some (⟨ds, (spanFraction s).1, (spanExponent (spanFraction s).2).1⟩,
      (spanExponent (spanFraction s).2).2) := by
  obtain ⟨d, more, rfl⟩ := List.exists_cons_of_ne_nil h.1
  rw [numeral?, spanDigits_append h.2 stop]
  · rfl
  · intro after same
    cases same
    cases h.2 '.' List.mem_cons_self

theorem numeral?_of_point {fs s : List Char} (h : Run fs) (stop : NoDigit s) :
    numeral? ('.' :: (fs ++ s)) = some (⟨[], fs, (spanExponent s).1⟩, (spanExponent s).2) := by
  obtain ⟨d, more, rfl⟩ := List.exists_cons_of_ne_nil h.1
  have none : spanDigits ('.' :: (d :: more ++ s)) = ([], '.' :: (d :: more ++ s)) := rfl
  rw [numeral?, none]
  dsimp only
  rw [spanDigits_append h.2 stop]

theorem spanFraction_of_point {fs s : List Char} (h : Run fs) (stop : NoDigit s) :
    spanFraction ('.' :: (fs ++ s)) = (fs, s) := by
  obtain ⟨d, more, rfl⟩ := List.exists_cons_of_ne_nil h.1
  rw [spanFraction, spanDigits_append h.2 stop]

theorem spanFraction_of_ne {s : List Char} (h : s.head? ≠ some '.') : spanFraction s = ([], s) := by
  unfold spanFraction
  split
  · exact absurd rfl h
  · rfl

theorem spanFraction_cases (s : List Char) : spanFraction s = ([], s) ∨
    ∃ fs rest, Run fs ∧ NoDigit rest ∧ s = '.' :: (fs ++ rest) ∧ spanFraction s = (fs, rest) := by
  unfold spanFraction
  split
  · split
    · exact .inl rfl
    · rename_i fs rest some digits
      obtain ⟨rfl, run, stop⟩ := spanDigits_run digits some
      exact .inr ⟨fs, rest, run, stop, rfl, rfl⟩
  · exact .inl rfl

theorem spanFraction_length (s : List Char) : (spanFraction s).2.length ≤ s.length := by
  rcases spanFraction_cases s with same | ⟨fs, rest, -, -, rfl, found⟩
  · rw [same]
  · rw [found]
    simp only [List.length_cons, List.length_append]
    omega

theorem isNumeral_of_numeral? {s rest : List Char} {n : Number.Numeral} (h : numeral? s = some (n, rest)) :
    ∃ w, s = w ++ rest ∧ IsNumeral w := by
  cases digits : spanDigits s with
  | mk ds after =>
    by_cases begins : ds = []
    · subst begins
      have point : ∃ fs after, s = '.' :: (fs ++ after) ∧ Run fs ∧ NoDigit after := by
        unfold numeral? at h
        rw [digits] at h
        dsimp only at h
        split at h
        · split at h
          · cases h
          · rename_i digits
            obtain ⟨rfl, run, stop⟩ := spanDigits_run digits ‹_›
            exact ⟨_, _, rfl, run, stop⟩
        · cases h
      obtain ⟨fs, after, rfl, run, stop⟩ := point
      rw [numeral?_of_point run stop] at h
      cases h
      obtain ⟨e, whole, exponent⟩ := isExponent_spanExponent after
      exact ⟨'.' :: (fs ++ e), by rw [List.cons_append, List.append_assoc, ← whole], .fraction run exponent⟩
    · obtain ⟨rfl, run, stop⟩ := spanDigits_run digits begins
      rw [numeral?_of_run run stop] at h
      cases h
      obtain ⟨e, whole, exponent⟩ := isExponent_spanExponent (spanFraction after).2
      rcases spanFraction_cases after with same | ⟨fs, rest, run', -, rfl, same⟩
      · rw [same] at whole ⊢
        exact ⟨ds ++ e, by rw [List.append_assoc, ← whole], .whole run exponent⟩
      · rw [same] at whole ⊢
        refine ⟨ds ++ '.' :: (fs ++ e), ?_, .point run run' exponent⟩
        rw [List.append_assoc, List.cons_append, List.append_assoc, ← whole]

theorem IsExponent.head {e : List Char} (h : IsExponent e) {s : List Char} (digit : NoDigit s)
    (point : s.head? ≠ Option.some '.') : NoDigit (e ++ s) ∧ (e ++ s).head? ≠ Option.some '.' := by
  cases h with
  | none => exact ⟨digit, point⟩
  | some hm hs hd =>
    refine ⟨fun c hc => ?_, fun hc => ?_⟩
    · cases hc
      rcases hm with rfl | rfl <;> rfl
    · cases hc
      rcases hm with hm | hm <;> cases hm

theorem IsExponent.length_le_fraction {e : List Char} (h : IsExponent e) (s : List Char) :
    (spanExponent (spanFraction ((e ++ s).dropWhile Char.isDigit)).2).2.length ≤ s.length := by
  have exponent := h.length_le s
  cases h with
  | none =>
    exact (spanExponent_length _).trans ((spanFraction_length _).trans (List.dropWhile_sublist _).length_le)
  | some hm hs hd =>
    rename_i mark sign ds
    have plain : mark.isDigit = false := by rcases hm with rfl | rfl <;> rfl
    have point : mark ≠ '.' := by rcases hm with rfl | rfl <;> decide
    rw [spanFraction_of_ne]
    · exact exponent
    · rw [List.cons_append, List.dropWhile_cons, plain, if_neg Bool.false_ne_true]
      exact fun same => point (Option.some.inj same)

/-- What is left after the numeral at the head of the text is no longer than after any other. -/
theorem IsNumeral.length_le {w s rest : List Char} {n : Number.Numeral} (h : IsNumeral w)
    (found : numeral? (w ++ s) = some (n, rest)) : rest.length ≤ s.length := by
  cases h with
  | @whole ds e hd he =>
    have whole := numeral?_of_run (hd.extend (e ++ s)) (noDigit_dropWhile (e ++ s))
    rw [List.append_assoc ds, List.takeWhile_append_dropWhile, ← List.append_assoc, found] at whole
    cases whole
    exact he.length_le_fraction s
  | @point ds fs e hd hf he =>
    have whole := numeral?_of_run (s := '.' :: (fs ++ (e ++ s))) hd fun c hc => by cases hc; rfl
    have fraction := spanFraction_of_point (hf.extend (e ++ s)) (noDigit_dropWhile (e ++ s))
    rw [List.append_assoc fs, List.takeWhile_append_dropWhile] at fraction
    rw [List.append_assoc, List.cons_append, List.append_assoc, whole, fraction] at found
    cases found
    exact he.length_le s
  | @fraction fs e hf he =>
    have fraction := numeral?_of_point (hf.extend (e ++ s)) (noDigit_dropWhile (e ++ s))
    rw [List.append_assoc fs, List.takeWhile_append_dropWhile, ← List.append_assoc] at fraction
    rw [List.cons_append, fraction] at found
    cases found
    exact he.length_le s

theorem IsNumeral.read {w : List Char} (h : IsNumeral w) :
    ∃ n, ∀ rest, Number.Apart rest → numeral? (w ++ rest) = some (n, rest) := by
  have ends : ∀ {rest}, Number.Apart rest → NoDigit rest ∧ rest.head? ≠ some '.' :=
    fun apart => ⟨apart.isDigit, fun head => (apart _ head).2 rfl⟩
  cases h with
  | @whole ds e hd he =>
    obtain ⟨x, read⟩ := he.read
    refine ⟨⟨ds, [], x⟩, fun rest apart => ?_⟩
    obtain ⟨digit, point⟩ := he.head (ends apart).1 (ends apart).2
    rw [List.append_assoc, numeral?_of_run hd digit, spanFraction_of_ne point, read rest apart]
  | @point ds fs e hd hf he =>
    obtain ⟨x, read⟩ := he.read
    refine ⟨⟨ds, fs, x⟩, fun rest apart => ?_⟩
    obtain ⟨digit, -⟩ := he.head (ends apart).1 (ends apart).2
    rw [List.append_assoc, List.cons_append, List.append_assoc,
      numeral?_of_run hd fun c hc => by cases hc; rfl, spanFraction_of_point hf digit, read rest apart]
  | @fraction fs e hf he =>
    obtain ⟨x, read⟩ := he.read
    refine ⟨⟨[], fs, x⟩, fun rest apart => ?_⟩
    obtain ⟨digit, -⟩ := he.head (ends apart).1 (ends apart).2
    rw [List.cons_append, List.append_assoc, numeral?_of_point hf digit, read rest apart]

theorem IsNumeral.head {w : List Char} (h : IsNumeral w) :
    ∃ c more, w = c :: more ∧ (c.isDigit || c = '.') = true := by
  have digit : ∀ {ds : List Char} (_ : Run ds) (more : List Char),
      ∃ c more', ds ++ more = c :: more' ∧ (c.isDigit || c = '.') = true := by
    intro ds run more
    obtain ⟨d, ds, rfl⟩ := List.exists_cons_of_ne_nil run.1
    exact ⟨d, _, rfl, by rw [run.2 d List.mem_cons_self, Bool.true_or]⟩
  cases h with
  | whole hd _ => exact digit hd _
  | point hd _ _ => exact digit hd _
  | fraction => exact ⟨'.', _, rfl, rfl⟩

end DerivedColumns.Formula
