import DerivedColumns.Proofs.Formula.Tokens

set_option autoImplicit false

namespace DerivedColumns.Formula

inductive IsToken : List Char → Prop where
  | number {w : List Char} (hw : IsNumeral w) : IsToken w
  | text {quote : Char} {s : List Char} (hq : quote = '"' ∨ quote = '\'') (hs : Inside quote s) :
      IsToken (quote :: (s ++ [quote]))
  | name {w : List Char} (hw : isWord w = true) : IsToken w
  | symbol {w : List Char} (hw : w ∈ symbols) : IsToken w

theorem symbol_cases {w : List Char} (h : w ∈ symbols) :
    (∃ c ∈ singles, w = [c]) ∨
      ∃ c d, c ∈ symbolics ∧ isSpace d = false ∧ w = [c, d] ∧ ∀ s, symbol? (w ++ s) = some (w, s) := by
  rcases List.mem_append.1 h with double | single
  · simp only [List.mem_cons, List.not_mem_nil, or_false] at double
    rcases double with rfl | rfl | rfl | rfl | rfl | rfl
    all_goals exact .inr ⟨_, _, by simp [symbolics, singles], rfl, rfl, fun _ => rfl⟩
  · obtain ⟨c, hc, rfl⟩ := List.mem_map.1 single
    exact .inl ⟨c, hc, rfl⟩

theorem symbol_head {w : List Char} (h : w ∈ symbols) : ∃ c more, w = c :: more ∧ c ∈ symbolics := by
  rcases symbol_cases h with ⟨c, hc, rfl⟩ | ⟨c, d, hc, -, rfl, -⟩
  · exact ⟨c, [], rfl, List.mem_append_left _ hc⟩
  · exact ⟨c, [d], rfl, hc⟩

theorem not_beginsWord {c : Char} (h : c ∈ symbolics) : beginsWord c = false :=
  Bool.eq_false_iff.2 fun word => not_symbolic word h

theorem IsToken.length_le {w s rest : List Char} {t : Token} (h : IsToken w)
    (next : token? (w ++ s) = some (t, rest)) : rest.length ≤ s.length := by
  cases h with
  | number hw =>
    obtain ⟨c, more, rfl, digit⟩ := hw.head
    rw [List.cons_append, token?_of_digit digit] at next
    have next := Option.some.inj next
    split at next
    · rename_i found
      cases next
      exact hw.length_le found
    · cases next
      exact Nat.zero_le _
  | @text quote w hq hs =>
    obtain ⟨x, read⟩ := textConstant_inside hq hs
    have read := read s
    rw [List.cons_append] at read next
    rw [token?_of_quote hq, read] at next
    cases next
    exact Nat.le_refl _
  | name hw =>
    obtain ⟨c, more, rfl, start⟩ := isWordStart_of_isWord hw
    have part := List.all_eq_true.1 (Bool.and_eq_true_iff.1 hw).2
    rw [List.cons_append, token?_of_isWordStart start, List.dropWhile_append_of_pos part] at next
    cases next
    exact (List.dropWhile_sublist _).length_le
  | symbol hw =>
    obtain ⟨c, more, rfl, symbolic⟩ := symbol_head hw
    rw [List.cons_append, token?_of_not_word (not_beginsWord symbolic), ← List.cons_append] at next
    have next := Option.some.inj next
    split at next
    · rename_i cs after found
      cases next
      rcases symbol_cases hw with ⟨c, -, single⟩ | ⟨c, d, -, -, -, whole⟩
      · obtain ⟨same, some⟩ := symbol?_eq_some found
        have total := congrArg List.length same
        have := List.length_pos_iff.2 some
        rw [single] at total
        simp only [List.length_cons, List.length_append, List.length_nil] at total
        omega
      · rw [whole s] at found
        cases found
        exact Nat.le_refl _
    · cases next
      exact Nat.zero_le _

def Gap (s : List Char) : Prop := ∀ c ∈ s.head?, isSpace c = true

theorem Gap.cases {s : List Char} (h : Gap s) :
    s = [] ∨ ∃ c more, s = c :: more ∧ (c = ' ' ∨ c = '\t' ∨ c = '\r' ∨ c = '\n') := by
  cases s with
  | nil => exact .inl rfl
  | cons c more =>
    have space := h c rfl
    simp only [isSpace, Bool.or_eq_true, decide_eq_true_eq] at space
    exact .inr ⟨c, more, rfl, by tauto⟩

theorem Gap.apart {s : List Char} (h : Gap s) : Number.Apart s := by
  intro c hc
  rcases h.cases with rfl | ⟨d, more, rfl, space⟩
  · cases hc
  · cases hc
    rcases space with rfl | rfl | rfl | rfl <;> decide

theorem symbol?_gap {w rest : List Char} (h : w ∈ symbols) (gap : Gap rest) :
    symbol? (w ++ rest) = some (w, rest) := by
  rcases symbol_cases h with ⟨c, single, rfl⟩ | ⟨c, d, -, -, -, whole⟩
  · cases found : symbol? ([c] ++ rest) with
    | none => cases gap '/' (symbol?_eq_none_of_single single found).2
    | some p =>
      obtain ⟨cs, after⟩ := p
      obtain ⟨same, -⟩ := symbol?_eq_some found
      rcases symbol_cases (mem_symbols_of_symbol? found) with ⟨c', -, rfl⟩ | ⟨c', d, -, plain, rfl, -⟩
      · cases same
        rfl
      · cases same
        rw [gap d rfl] at plain
        cases plain
  · exact whole rest

theorem IsToken.read {w : List Char} (h : IsToken w) :
    ∃ t, t.isProper ∧ ∀ rest, Gap rest → token? (w ++ rest) = some (t, rest) := by
  cases h with
  | number hw =>
    obtain ⟨n, read⟩ := hw.read
    obtain ⟨c, more, rfl, digit⟩ := hw.head
    refine ⟨.number n, rfl, fun rest gap => ?_⟩
    rw [List.cons_append, token?_of_digit digit, ← List.cons_append, read rest gap.apart]
  | @text quote s hq hs =>
    obtain ⟨x, read⟩ := textConstant_inside hq hs
    refine ⟨.text x, rfl, fun rest _ => ?_⟩
    have read := read rest
    rw [List.cons_append] at read ⊢
    rw [token?_of_quote hq, read]
  | name hw =>
    obtain ⟨c, more, rfl, start⟩ := isWordStart_of_isWord hw
    have part := List.all_eq_true.1 (Bool.and_eq_true_iff.1 hw).2
    refine ⟨.name (String.ofList (c :: more)), rfl, fun rest gap => ?_⟩
    obtain ⟨taken, left⟩ := takeWhile_isWordPart part gap.apart
    rw [List.cons_append, token?_of_isWordStart start, taken, left]
  | symbol hw =>
    refine ⟨.symbol w, rfl, fun rest gap => ?_⟩
    obtain ⟨c, more, rfl, symbolic⟩ := symbol_head hw
    rw [List.cons_append, token?_of_not_word (not_beginsWord symbolic), ← List.cons_append, symbol?_gap hw gap]

/-- The token is spelled so. -/
structure Stands (t : Token) (w : List Char) : Prop where
  isToken : IsToken w
  name : ∀ n, t = .name n ↔ isWord w = true ∧ n = String.ofList w
  opening : t = .symbol ['('] ↔ w = ['(']

theorem Stands.of_head {t : Token} {c : Char} {more : List Char} (isToken : IsToken (c :: more))
    (start : isWordStart c = false) (notName : ∀ n, t ≠ .name n)
    (opening : t = .symbol ['('] ↔ c :: more = ['(']) : Stands t (c :: more) where
  isToken := isToken
  name n := iff_of_false (notName n) fun h => by
    rw [isWord, start, Bool.false_and] at h
    cases h.1
  opening := opening

theorem Stands.of_constant {t : Token} {c : Char} {more : List Char} (isToken : IsToken (c :: more))
    (start : isWordStart c = false) (paren : c ≠ '(') (notName : ∀ n, t ≠ .name n)
    (notSymbol : ∀ cs, t ≠ .symbol cs) : Stands t (c :: more) :=
  .of_head isToken start notName (iff_of_false (notSymbol _) fun same => paren (List.cons.inj same).1)

/-- What is read as a token is spelled like one. -/
theorem stands_of_token? {s rest : List Char} {t : Token} (h : token? s = some (t, rest)) (proper : t.isProper) :
    ∃ w, s = w ++ rest ∧ Stands t w := by
  cases s with
  | nil => cases h
  | cons c s =>
    by_cases digit : (c.isDigit || c = '.') = true
    · rw [token?_of_digit digit] at h
      have h := Option.some.inj h
      split at h
      · rename_i found
        cases h
        obtain ⟨w, whole, numeral⟩ := isNumeral_of_numeral? found
        refine ⟨w, whole, ?_⟩
        obtain ⟨d, more, rfl, -⟩ := numeral.head
        cases whole
        refine .of_constant (.number numeral) (Bool.eq_false_iff.2 fun start => ?_) ?_ ?_ ?_
        · rw [(not_digit_of_isWordStart start).1] at digit
          cases digit
        · rintro rfl
          cases digit
        · intro n same
          cases same
        · intro cs same
          cases same
      · cases h
        cases proper
    by_cases quote : c = '"' ∨ c = '\''
    · rw [token?_of_quote quote] at h
      have h := Option.some.inj h
      split at h
      · rename_i found
        cases h
        obtain ⟨q, w, hq, whole, inside⟩ := inside_of_textConstant found
        refine ⟨q :: (w ++ [q]), whole, .of_constant (.text hq inside) ?_ ?_ ?_ ?_⟩
        · rcases hq with rfl | rfl <;> rfl
        · rintro rfl
          rcases hq with hq | hq <;> cases hq
        · intro n same
          cases same
        · intro cs same
          cases same
      · cases h
        cases proper
    by_cases start : isWordStart c
    · rw [token?_of_isWordStart start] at h
      cases h
      have word : isWord (c :: s.takeWhile isWordPart) = true := by
        rw [isWord, start, Bool.true_and]
        exact List.all_takeWhile
      refine ⟨c :: s.takeWhile isWordPart, by rw [List.cons_append, List.takeWhile_append_dropWhile], .name word, ?_, ?_⟩
      · exact fun n => ⟨fun same => ⟨word, (Token.name.inj same).symm⟩, fun same => by rw [same.2]⟩
      · refine iff_of_false (fun same => by cases same) fun same => ?_
        rw [(List.cons.inj same).1] at start
        cases start
    · have symbolic : beginsWord c = false := by simp_all [beginsWord]
      rw [token?_of_not_word symbolic] at h
      have h := Option.some.inj h
      split at h
      · rename_i cs after found
        cases h
        obtain ⟨whole, some⟩ := symbol?_eq_some found
        refine ⟨cs, whole, ?_⟩
        obtain ⟨d, more, rfl⟩ := List.exists_cons_of_ne_nil some
        cases whole
        refine .of_head (.symbol (mem_symbols_of_symbol? found)) (Bool.eq_false_iff.2 start) ?_ ?_
        · intro n same
          cases same
        · exact ⟨fun same => Token.symbol.inj same, fun same => by rw [same]⟩
      · cases h
        cases proper

def EndsLine (s : List Char) : Prop := s = [] ∨ (∃ t, s = '\n' :: t) ∨ ∃ t, s = '\r' :: '\n' :: t

/-- The text consists of these tokens, each the longest one where it stands, and of white space and comments. -/
inductive Splits : List Char → List (List Char) → Prop where
  | nil : Splits [] []
  | space {c : Char} {s : List Char} {ws : List (List Char)} (hc : isSpace c = true) (h : Splits s ws) :
      Splits (c :: s) ws
  | comment {s body rest : List Char} {ws : List (List Char)} (hs : s = '/' :: '/' :: (body ++ rest))
      (hb : ∀ c ∈ body, c ≠ '\r' ∧ c ≠ '\n') (ends : EndsLine rest) (h : Splits rest ws) : Splits s ws
  | token {s w rest : List Char} {ws : List (List Char)} (hs : s = w ++ rest) (hw : IsToken w)
      (longest : ∀ v, IsToken v → v <+: s → v.length ≤ w.length) (hc : ¬ ['/', '/'] <+: s) (h : Splits rest ws) :
      Splits s (w :: ws)

theorem lineEnd?_eq_some {s rest : List Char} (h : lineEnd? s = some rest) :
    ∃ body, s = body ++ rest ∧ (∀ c ∈ body, c ≠ '\r' ∧ c ≠ '\n') ∧ EndsLine rest := by
  have plain : ∀ c ∈ s.takeWhile fun c => c ≠ '\r' && c ≠ '\n', c ≠ '\r' ∧ c ≠ '\n' := by
    intro c hc
    simpa using List.mem_takeWhile_imp hc
  have whole := List.takeWhile_append_dropWhile (p := fun c => c ≠ '\r' && c ≠ '\n') (l := s)
  have stopped := List.head?_dropWhile_not (fun c => c ≠ '\r' && c ≠ '\n') s
  unfold lineEnd? at h
  split at h
  · rename_i more same
    cases h
    exact ⟨_, by rw [← same, whole], plain, .inr (.inr ⟨_, rfl⟩)⟩
  · cases h
  · rename_i after _ carriage
    cases h
    refine ⟨_, whole.symm, plain, ?_⟩
    cases left : s.dropWhile fun c => c ≠ '\r' && c ≠ '\n' with
    | nil => exact .inl rfl
    | cons c more =>
      rw [left] at stopped
      have line : ¬ (c ≠ '\r' ∧ c ≠ '\n') := by simpa using stopped
      by_cases return_ : c = '\r'
      · exact absurd (return_ ▸ left) (carriage more)
      · exact .inr (.inl ⟨more, by rw [not_not.1 fun other => line ⟨return_, other⟩]⟩)

theorem lineEnd?_append {body rest : List Char} (hb : ∀ c ∈ body, c ≠ '\r' ∧ c ≠ '\n') (ends : EndsLine rest) :
    lineEnd? (body ++ rest) = some rest := by
  unfold lineEnd?
  rw [List.dropWhile_append_of_pos fun c hc => by simpa using hb c hc]
  rcases ends with rfl | ⟨t, rfl⟩ | ⟨t, rfl⟩ <;> rfl

theorem Splits.of_skipLayout {s : List Char} {ws : List (List Char)} (h : Splits (skipLayout s) ws) : Splits s ws := by
  fun_induction skipLayout s with
  | case1 => exact h
  | case2 c s space ih => exact .space space (ih h)
  | case3 more rest ended _ ih =>
    obtain ⟨body, rfl, plain, ends⟩ := lineEnd?_eq_some ended
    exact .comment rfl plain ends (ih h)
  | case4 => exact h
  | case5 => exact h

theorem splits_tokens {s : List Char} (h : ∀ t ∈ tokens s, t.isProper) :
    ∃ ws, Splits s ws ∧ List.Forall₂ Stands (tokens s) ws := by
  cases next : token? (skipLayout s) with
  | none =>
    have nil := token?_eq_none next
    rw [tokens_of_nil nil]
    exact ⟨[], .of_skipLayout (nil ▸ .nil), .nil⟩
  | some found =>
    obtain ⟨t, rest⟩ := found
    rw [tokens_of_token next] at h ⊢
    obtain ⟨proper, more⟩ := List.forall_mem_cons.1 h
    obtain ⟨w, whole, stands⟩ := stands_of_token? next proper
    obtain ⟨ws, splits, all⟩ := splits_tokens more
    refine ⟨w :: ws, .of_skipLayout (.token whole stands.isToken ?_ ?_ splits), .cons stands all⟩
    · -- A longer token would leave less of the text than the one that is read.
      rintro v hv ⟨after, same⟩
      rw [← same] at next
      have le := hv.length_le next
      have total := congrArg List.length (same.trans whole)
      simp only [List.length_append] at total
      omega
    · rintro ⟨after, same⟩
      rw [← same] at next
      cases next
      cases proper
termination_by s.length
decreasing_by exact Nat.lt_of_lt_of_le (token?_length next) (skipLayout_length_le s)

theorem IsToken.head {w : List Char} (h : IsToken w) :
    ∃ c more, w = c :: more ∧ isSpace c = false := by
  cases h with
  | number hw =>
    obtain ⟨c, more, rfl, digit⟩ := hw.head
    exact ⟨c, more, rfl, (not_space (by rw [beginsWord, digit, Bool.true_or, Bool.true_or])).1⟩
  | text hq hs => exact ⟨_, _, rfl, by rcases hq with rfl | rfl <;> rfl⟩
  | name hw =>
    obtain ⟨c, more, rfl, start⟩ := isWordStart_of_isWord hw
    exact ⟨c, more, rfl, (not_space (by rw [beginsWord, start, Bool.or_true])).1⟩
  | symbol hw =>
    obtain ⟨c, more, rfl, symbolic⟩ := symbol_head hw
    exact ⟨c, more, rfl, not_space_of_symbolic symbolic⟩

theorem EndsLine.takeWhile {body rest : List Char} (hb : ∀ c ∈ body, c ≠ '\r' ∧ c ≠ '\n') (ends : EndsLine rest) :
    (body ++ rest).takeWhile (fun c => c ≠ '\r' && c ≠ '\n') = body := by
  rw [List.takeWhile_append_of_pos fun c hc => by simpa using hb c hc]
  rcases ends with rfl | ⟨t, rfl⟩ | ⟨t, rfl⟩ <;> simp

/-- A text splits in one way only. -/
theorem Splits.unique {s : List Char} {ws ws' : List (List Char)} (h : Splits s ws) (h' : Splits s ws') :
    ws = ws' := by
  induction h generalizing ws' with
  | nil =>
    cases h' with
    | nil => rfl
    | comment hs => cases hs
    | token hs hw =>
      obtain ⟨c, more, rfl, -⟩ := hw.head
      cases hs
  | space hc h ih =>
    cases h' with
    | space _ h' => exact ih h'
    | comment hs => cases hs; cases hc
    | token hs hw =>
      obtain ⟨c, more, rfl, plain⟩ := hw.head
      cases hs
      rw [hc] at plain
      cases plain
  | @comment s body rest ws hs hb ends h ih =>
    cases h' with
    | nil => cases hs
    | space hc => cases hs; cases hc
    | @comment _ body' rest' _ hs' hb' ends' h' =>
      have same : body ++ rest = body' ++ rest' := by simpa using hs.symm.trans hs'
      have line : body = body' := by
        rw [← ends.takeWhile hb, same, ends'.takeWhile hb']
      rw [line, List.append_cancel_left_eq] at same
      exact ih (same ▸ h')
    | token _ _ _ hc => exact absurd ⟨body ++ rest, hs.symm⟩ hc
  | @token s w rest ws hs hw longest hc h ih =>
    cases h' with
    | nil =>
      obtain ⟨c, more, rfl, -⟩ := hw.head
      cases hs
    | space space =>
      obtain ⟨c, more, rfl, plain⟩ := hw.head
      cases hs
      rw [space] at plain
      cases plain
    | comment hs' => exact absurd ⟨_, hs'.symm⟩ hc
    | @token _ w' rest' ws' hs' hw' longest' _ h' =>
      have length : w.length = w'.length :=
        Nat.le_antisymm (longest' w hw ⟨rest, hs.symm⟩) (longest w' hw' ⟨rest', hs'.symm⟩)
      obtain ⟨rfl, rfl⟩ := List.append_inj (hs.symm.trans hs') length
      rw [ih h']

end DerivedColumns.Formula
