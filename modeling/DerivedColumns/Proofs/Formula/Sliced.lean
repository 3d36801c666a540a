import DerivedColumns.Proofs.Formula.Layout

set_option autoImplicit false

/-!
A token is as long as it can be, so what it is depends on what follows it. It does not depend on how much of that
follows: where the text is cut behind a token, the token is the same.
-/

namespace DerivedColumns.Formula

open Number (spanDigits spanExponent exponent?)

/-- What is taken off a text is the same if the text is cut anywhere behind it. -/
def Sliced {β : Type} (f : List Char → β × List Char) : Prop :=
  ∀ s, ∃ w, s = w ++ (f s).2 ∧ ∀ v, v <+: (f s).2 → f (w ++ v) = ((f s).1, v)

theorem sliced_span (p : Char → Bool) : Sliced fun s => (s.takeWhile p, s.dropWhile p) := by
  intro s
  refine ⟨s.takeWhile p, List.takeWhile_append_dropWhile.symm, fun v ahead => ?_⟩
  dsimp only at ahead ⊢
  have all : ∀ c ∈ s.takeWhile p, p c = true := fun c hc => List.mem_takeWhile_imp hc
  have stop : ∀ c ∈ v.head?, ¬ p c = true := by
    intro c hc
    obtain ⟨more, rfl⟩ := List.head?_eq_some_iff.1 hc
    obtain ⟨rest, whole⟩ := ahead
    have stopped := List.head?_dropWhile_not p s
    rw [← whole] at stopped
    simpa using stopped
  have taken : v.takeWhile p = [] ∧ v.dropWhile p = v := by
    cases v with
    | nil => exact ⟨rfl, rfl⟩
    | cons c v =>
      have no := stop c rfl
      exact ⟨List.takeWhile_cons_of_neg no, List.dropWhile_cons_of_neg no⟩
  rw [List.takeWhile_append_of_pos all, List.dropWhile_append_of_pos all, taken.1, taken.2, List.append_nil]

theorem NoDigit.cut {s v : List Char} (h : NoDigit s) (ahead : v <+: s) : NoDigit v := by
  intro c hc
  obtain ⟨more, rfl⟩ := List.head?_eq_some_iff.1 hc
  obtain ⟨rest, rfl⟩ := ahead
  exact h c rfl

theorem noDigit_iff (s : List Char) : NoDigit s ↔ (spanDigits s).1 = [] := by
  cases s with
  | nil => exact iff_of_true (fun _ h => nomatch h) rfl
  | cons c s =>
    rw [spanDigits, List.takeWhile_cons]
    cases digit : c.isDigit with
    | true => exact iff_of_false (fun no => by rw [no c rfl] at digit; cases digit) (List.cons_ne_nil _ _)
    | false => exact iff_of_true (fun d hd => by cases hd; exact digit) rfl

theorem spanFraction_eq_nil_iff (s : List Char) : spanFraction s = ([], s) ↔ ∀ t, s = '.' :: t → NoDigit t := by
  unfold spanFraction
  split
  · rename_i t
    have point : (∀ u, '.' :: t = '.' :: u → NoDigit u) ↔ NoDigit t :=
      ⟨fun h => h t rfl, fun h u same => (List.cons.inj same).2 ▸ h⟩
    rw [point, noDigit_iff]
    split
    · rename_i digits
      rw [digits]
      exact iff_of_true rfl rfl
    · rename_i fs rest some digits
      rw [digits]
      exact iff_of_false (fun same => some (Prod.mk.inj same).1) some
  · rename_i other
    exact iff_of_true rfl fun t same => (other t same).elim

theorem sliced_spanFraction : Sliced spanFraction := by
  intro s
  rcases spanFraction_cases s with none | ⟨fs, rest, run, stop, rfl, found⟩
  · rw [none]
    refine ⟨[], rfl, fun v ahead => (spanFraction_eq_nil_iff v).2 ?_⟩
    rintro t rfl
    obtain ⟨more, rfl⟩ := ahead
    exact ((spanFraction_eq_nil_iff _).1 none (t ++ more) rfl).cut (List.prefix_append t more)
  · rw [found]
    refine ⟨'.' :: fs, rfl, fun v ahead => ?_⟩
    exact spanFraction_of_point run (stop.cut ahead)

theorem sliced_spanExponent : Sliced spanExponent := by
  intro s
  cases found : exponent? s with
  | none =>
    have same : spanExponent s = (0, s) := by rw [spanExponent, found]; rfl
    rw [same]
    refine ⟨[], rfl, fun v ahead => ?_⟩
    cases cut : exponent? v with
    | none => rw [List.nil_append, spanExponent, cut]; rfl
    | some p =>
      obtain ⟨e, rest⟩ := p
      obtain ⟨mark, sign, ds, hm, hs, run, -, rfl⟩ := exponent?_parts cut
      obtain ⟨more, rfl⟩ := ahead
      obtain ⟨e', read⟩ := exponent?_append hm hs (run.extend (rest ++ more))
      have whole := read _ (noDigit_dropWhile (rest ++ more))
      rw [List.append_assoc ds, List.takeWhile_append_dropWhile] at whole
      simp only [List.cons_append, List.append_assoc, whole] at found
      cases found
  | some p =>
    obtain ⟨e, rest⟩ := p
    have same : spanExponent s = (e, rest) := by rw [spanExponent, found]; rfl
    obtain ⟨mark, sign, ds, hm, hs, run, stop, rfl⟩ := exponent?_parts found
    obtain ⟨e', read⟩ := exponent?_append hm hs run
    rw [same]
    refine ⟨mark :: (sign ++ ds), by simp, fun v ahead => ?_⟩
    rw [read rest stop] at found
    cases found
    rw [List.cons_append, List.append_assoc, spanExponent, read v (stop.cut ahead)]
    rfl

/-- A number constant is digits, a fraction and an exponent, one behind the other; there are digits or a fraction. -/
theorem numeral?_eq (s : List Char) : numeral? s =
    let whole := spanDigits s
    let fraction := spanFraction whole.2
    let exponent := spanExponent fraction.2
    if whole.1 = [] ∧ fraction.1 = [] then none else some (⟨whole.1, fraction.1, exponent.1⟩, exponent.2) := by
  dsimp only
  cases digits : spanDigits s with
  | mk ds after =>
    by_cases begins : ds = []
    · subst begins
      have same : s = after := by
        have whole := List.takeWhile_append_dropWhile (p := Char.isDigit) (l := s)
        obtain ⟨none, left⟩ := Prod.mk.inj digits
        rwa [none, left, List.nil_append, eq_comm] at whole
      subst same
      rcases spanFraction_cases s with none | ⟨fs, rest, run, stop, rfl, found⟩
      · rw [none, if_pos ⟨rfl, rfl⟩]
        unfold numeral?
        rw [digits]
        dsimp only
        split
        · rename_i t
          have nothing := (noDigit_iff t).1 ((spanFraction_eq_nil_iff _).1 none t rfl)
          split
          · rfl
          · rename_i fs rest some digits
            rw [digits] at nothing
            exact absurd nothing some
        · rfl
      · rw [found, if_neg fun h => run.1 h.2, numeral?_of_point run stop]
    · obtain ⟨rfl, run, stop⟩ := spanDigits_run digits begins
      rw [if_neg fun h => begins h.1, numeral?_of_run run stop]

theorem numeral?_sliced {s rest : List Char} {n : Number.Numeral} (h : numeral? s = some (n, rest)) :
    ∃ w, s = w ++ rest ∧ ∀ v, v <+: rest → numeral? (w ++ v) = some (n, v) := by
  obtain ⟨ds, whole, digits⟩ : ∃ ds, s = ds ++ (spanDigits s).2 ∧
      ∀ v, v <+: (spanDigits s).2 → spanDigits (ds ++ v) = ((spanDigits s).1, v) := sliced_span Char.isDigit s
  obtain ⟨fs, more, fraction⟩ := sliced_spanFraction (spanDigits s).2
  obtain ⟨e, last, exponent⟩ := sliced_spanExponent (spanFraction (spanDigits s).2).2
  rw [numeral?_eq] at h
  dsimp only at h
  split at h
  · cases h
  rename_i some
  cases h
  refine ⟨ds ++ (fs ++ e), ?_, fun v ahead => ?_⟩
  · rw [List.append_assoc, List.append_assoc, ← last, ← more, ← whole]
  · have ahead' : e ++ v <+: (spanFraction (spanDigits s).2).2 := by
      rw [last]
      exact (List.prefix_append_right_inj e).2 ahead
    have ahead'' : fs ++ (e ++ v) <+: (spanDigits s).2 := by
      rw [more]
      exact (List.prefix_append_right_inj fs).2 ahead'
    rw [numeral?_eq, List.append_assoc, List.append_assoc, digits _ ahead'']
    dsimp only
    rw [fraction _ ahead']
    dsimp only
    rw [exponent _ ahead, if_neg some]

theorem textConstant_sliced {s rest : List Char} {t : String} (h : textConstant s = .ok t rest) :
    ∃ w, s = w ++ rest ∧ ∀ v, textConstant (w ++ v) = .ok t v := by
  obtain ⟨quote, s', cs, hq, rfl, read, rfl⟩ := textConstant_eq_ok_iff.1 h
  obtain ⟨w, rfl, inside⟩ := inside_of_content read
  obtain ⟨t, all⟩ := textConstant_inside hq inside
  have here := all rest
  rw [List.cons_append, List.append_assoc, List.singleton_append, h] at here
  cases here
  exact ⟨quote :: (w ++ [quote]), by simp, all⟩

theorem symbol?_sliced {s cs rest : List Char} (h : symbol? s = some (cs, rest)) :
    ∀ v, v <+: rest → symbol? (cs ++ v) = some (cs, v) := by
  rintro v ⟨more, rfl⟩
  unfold symbol? at h
  split at h
  case h_7 => cases h
  case h_8 c s eq ne le ge and or comment =>
    split at h
    · rename_i single
      cases h
      have longer : ∀ {d : Char} {t : List Char}, v = d :: t → v ++ more = d :: (t ++ more) := by
        rintro d t rfl
        rfl
      rw [List.singleton_append, symbol?, if_pos single]
      · exact fun t hc hv => eq _ hc (longer hv)
      · exact fun t hc hv => ne _ hc (longer hv)
      · exact fun t hc hv => le _ hc (longer hv)
      · exact fun t hc hv => ge _ hc (longer hv)
      · exact fun t hc hv => and _ hc (longer hv)
      · exact fun t hc hv => or _ hc (longer hv)
      · exact fun t hc hv => comment _ hc (longer hv)
    · cases h
  case h_9 => cases h
  all_goals
    cases h
    rfl

/-- A token that stands in the text is the same one wherever the text is cut behind it. -/
theorem token?_sliced {s rest : List Char} {t : Token} (h : token? s = some (t, rest)) (proper : t.isProper) :
    ∃ w, s = w ++ rest ∧ ∀ v, v <+: rest → token? (w ++ v) = some (t, v) := by
  have shorter := token?_length h
  cases s with
  | nil => cases h
  | cons c s =>
    have begins := begins_of_token? h
    have head : ∀ {w : List Char}, c :: s = w ++ rest → ∃ w', w = c :: w' := by
      intro w whole
      cases w with
      | nil =>
        rw [whole, List.nil_append] at shorter
        exact absurd shorter (Nat.lt_irrefl _)
      | cons d w => exact ⟨w, by rw [(List.cons.inj whole).1]⟩
    cases t with
    | number n =>
      have digit := begins.number n rfl
      rw [token?_of_digit digit] at h
      have h := Option.some.inj h
      split at h
      · rename_i read
        cases h
        obtain ⟨w, whole, cut⟩ := numeral?_sliced read
        obtain ⟨w, rfl⟩ := head whole
        refine ⟨c :: w, whole, fun v ahead => ?_⟩
        have read' := cut v ahead
        rw [List.cons_append] at read' ⊢
        rw [token?_of_digit digit, read']
      · cases h
    | text x =>
      have quote := begins.text x (.inl rfl)
      rw [token?_of_quote quote] at h
      have h := Option.some.inj h
      split at h
      · rename_i read
        cases h
        obtain ⟨w, whole, cut⟩ := textConstant_sliced read
        obtain ⟨w, rfl⟩ := head whole
        refine ⟨c :: w, whole, fun v _ => ?_⟩
        have read' := cut v
        rw [List.cons_append] at read' ⊢
        rw [token?_of_quote quote, read']
      · cases h
    | name x =>
      have start := begins.name x rfl
      rw [token?_of_isWordStart start] at h
      cases h
      obtain ⟨w, whole, cut⟩ : ∃ w, s = w ++ s.dropWhile isWordPart ∧ ∀ v, v <+: s.dropWhile isWordPart →
          ((w ++ v).takeWhile isWordPart, (w ++ v).dropWhile isWordPart) = (s.takeWhile isWordPart, v) :=
        sliced_span isWordPart s
      refine ⟨c :: w, congrArg (c :: ·) whole, fun v ahead => ?_⟩
      obtain ⟨taken, left⟩ := Prod.mk.inj (cut v ahead)
      rw [List.cons_append, token?_of_isWordStart start, taken, left]
    | symbol cs =>
      have plain := begins.symbol cs rfl
      rw [token?_of_not_word plain] at h
      have h := Option.some.inj h
      split at h
      · rename_i read
        cases h
        have cut := symbol?_sliced read
        obtain ⟨whole, -⟩ := symbol?_eq_some read
        obtain ⟨w, rfl⟩ := head whole
        refine ⟨c :: w, whole, fun v ahead => ?_⟩
        have read' := cut v ahead
        rw [List.cons_append] at read' ⊢
        rw [token?_of_not_word plain, read']
      · cases h
    | openText => cases proper
    | stray => cases proper

theorem mix_skipLayout (s : List Char) : ∃ g, s = g ++ skipLayout s ∧ (Mix g ∨ skipLayout s = []) := by
  induction length : s.length using Nat.strong_induction_on generalizing s with
  | _ n ih =>
    fun_cases skipLayout s with
    | case1 => exact ⟨[], rfl, .inl .nil⟩
    | case2 c s space =>
      obtain ⟨g, whole, mix⟩ := ih s.length (by rw [← length]; exact Nat.lt_succ_self _) s rfl
      exact ⟨c :: g, congrArg (c :: ·) whole, mix.imp_left (.space space)⟩
    | case3 more rest ended =>
      obtain ⟨body, rfl, hb, ends⟩ := lineEnd?_eq_some ended
      simp only [List.length_cons, List.length_append] at length
      rcases ends with rfl | ⟨t, rfl⟩ | ⟨t, rfl⟩
      · rw [skipLayout]
        exact ⟨'/' :: '/' :: body, by simp, .inr rfl⟩
      · obtain ⟨g, whole, mix⟩ := ih t.length (by simp only [List.length_cons] at length; omega) t rfl
        rw [skipLayout_space rfl]
        refine ⟨'/' :: '/' :: (body ++ (['\n'] ++ g)), ?_, mix.imp_left (.comment hb (.inl rfl))⟩
        simpa using whole
      · obtain ⟨g, whole, mix⟩ := ih t.length (by simp only [List.length_cons] at length; omega) t rfl
        rw [skipLayout_space rfl, skipLayout_space rfl]
        refine ⟨'/' :: '/' :: (body ++ (['\r', '\n'] ++ g)), ?_, mix.imp_left (.comment hb (.inr rfl))⟩
        simpa using whole
    | case4 => exact ⟨[], rfl, .inl .nil⟩
    | case5 => exact ⟨[], rfl, .inl .nil⟩

def Passed (ts : List Token) (s rest : List Char) : Prop :=
  ∃ w, s = w ++ rest ∧ ∀ v, v <+: rest → tokens (w ++ v) = ts ++ tokens v

namespace Passed

variable {ts us : List Token} {s mid rest : List Char}

theorem refl (s : List Char) : Passed [] s s := ⟨[], rfl, fun _ _ => rfl⟩

theorem trans (h : Passed ts s mid) (next : Passed us mid rest) : Passed (ts ++ us) s rest := by
  obtain ⟨w, rfl, first⟩ := h
  obtain ⟨w', rfl, second⟩ := next
  refine ⟨w ++ w', (List.append_assoc w w' rest).symm, fun v ahead => ?_⟩
  rw [List.append_assoc, first _ ((List.prefix_append_right_inj w').2 ahead), second v ahead, List.append_assoc]

theorem tokens_eq (h : Passed ts s rest) : tokens s = ts ++ tokens rest := by
  obtain ⟨w, rfl, all⟩ := h
  exact all rest List.prefix_rfl

theorem prefix_tokens (h : Passed ts s rest) (ahead : us <+: tokens rest) : ts ++ us <+: tokens s := by
  rw [h.tokens_eq]
  exact (List.prefix_append_right_inj ts).2 ahead

theorem skip (s : List Char) : Passed [] s (skipLayout s) := by
  obtain ⟨g, whole, mix | none⟩ := mix_skipLayout s
  · refine ⟨g, whole, fun v _ => ?_⟩
    rw [← tokens_skipLayout, mix.skip, tokens_skipLayout, List.nil_append]
  · refine ⟨g, whole, fun v ahead => ?_⟩
    rw [none, List.prefix_nil] at ahead
    rw [none, List.append_nil] at whole
    rw [ahead, List.append_nil, ← whole, tokens_of_nil none, tokens_of_nil (by rw [skipLayout]), List.nil_append]

theorem token {t : Token} (next : token? s = some (t, rest)) (proper : t.isProper) : Passed [t] s rest := by
  obtain ⟨w, whole, cut⟩ := token?_sliced next proper
  refine ⟨w, whole, fun v ahead => ?_⟩
  have here := cut v ahead
  have plain : skipLayout (w ++ v) = w ++ v :=
    skipLayout_of_token? here fun stray => by rw [stray] at proper; cases proper
  rw [tokens_of_token (by rw [plain, here]), List.singleton_append]

end Passed

end DerivedColumns.Formula
