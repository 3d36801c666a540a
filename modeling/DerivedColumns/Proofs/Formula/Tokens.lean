import DerivedColumns.Proofs.Formula.Numerals

set_option autoImplicit false

namespace DerivedColumns.Formula

inductive Token where
  | number (n : Number.Numeral)
  | text (s : String)
  | name (s : String)
  | symbol (s : List Char)
  | openText
  | stray

def Token.isProper : Token → Bool
  | .openText | .stray => false
  | _ => true

def singles : List Char := ['(', ')', ',', '?', ':', '^', '*', '/', '+', '-', '!', '<', '>']

/-- The symbol at the head of the text. Two slashes begin a comment. -/
def symbol? : List Char → Option (List Char × List Char)
  | '=' :: '=' :: s => some (['=', '='], s)
  | '!' :: '=' :: s => some (['!', '='], s)
  | '<' :: '=' :: s => some (['<', '='], s)
  | '>' :: '=' :: s => some (['>', '='], s)
  | '&' :: '&' :: s => some (['&', '&'], s)
  | '|' :: '|' :: s => some (['|', '|'], s)
  | '/' :: '/' :: _ => none
  | c :: s => if c ∈ singles then some ([c], s) else none
  | [] => none

def token? : List Char → Option (Token × List Char)
  | [] => none
  | c :: s =>
    some <|
      if c.isDigit || c = '.' then
        match numeral? (c :: s) with
        | some (n, rest) => (.number n, rest)
        | none => (.stray, [])
      else if c = '"' || c = '\'' then
        match textConstant (c :: s) with
        | .ok t rest => (.text t, rest)
        | _ => (.openText, [])
      else if isWordStart c then
        (.name (String.ofList (c :: s.takeWhile isWordPart)), s.dropWhile isWordPart)
      else
        match symbol? (c :: s) with
        | some (t, rest) => (.symbol t, rest)
        | none => (.stray, [])

/-! ### Every token takes something -/

theorem skipLayout_length_le (s : List Char) : (skipLayout s).length ≤ s.length := by
  fun_induction skipLayout s with
  | case1 => exact Nat.le_refl _
  | case2 c s space ih => exact Nat.le_succ_of_le ih
  | case3 more rest ended _ ih =>
    have := lineEnd?_length ended
    simp only [List.length_cons]
    omega
  | case4 => exact Nat.le_refl _
  | case5 => exact Nat.le_refl _

theorem numeral?_length {s rest : List Char} {n : Number.Numeral} (h : numeral? s = some (n, rest)) :
    rest.length < s.length := by
  obtain ⟨w, rfl, numeral⟩ := isNumeral_of_numeral? h
  obtain ⟨c, more, rfl, -⟩ := numeral.head
  simp only [List.length_append, List.length_cons]
  omega

theorem textConstant_length {s rest : List Char} {t : String} (h : textConstant s = .ok t rest) :
    rest.length < s.length := by
  obtain ⟨quote, w, -, rfl, -⟩ := inside_of_textConstant h
  simp only [List.length_append, List.length_cons]
  omega

theorem symbol?_eq_some {s t rest : List Char} (h : symbol? s = some (t, rest)) : s = t ++ rest ∧ t ≠ [] := by
  unfold symbol? at h
  split at h
  case h_8 =>
    split at h
    · cases h
      exact ⟨rfl, by simp⟩
    · cases h
  all_goals
    cases h
    try exact ⟨rfl, by simp⟩

theorem token?_length {s rest : List Char} {t : Token} (h : token? s = some (t, rest)) :
    rest.length < s.length := by
  unfold token? at h
  split at h
  · cases h
  rename_i c s
  have h := Option.some.inj h
  split at h
  · split at h
    · rename_i read
      cases h
      exact numeral?_length read
    · cases h
      exact Nat.succ_pos _
  split at h
  · split at h
    · rename_i read
      cases h
      exact textConstant_length read
    · cases h
      exact Nat.succ_pos _
  split at h
  · cases h
    exact Nat.lt_succ_of_le (List.dropWhile_sublist _).length_le
  split at h
  · rename_i read
    cases h
    obtain ⟨whole, some⟩ := symbol?_eq_some read
    rw [whole, List.length_append]
    exact Nat.lt_add_of_pos_left (List.length_pos_iff.2 some)
  · cases h
    exact Nat.succ_pos _

def tokens (s : List Char) : List Token :=
  match _read : token? (skipLayout s) with
  | some (t, rest) => t :: tokens rest
  | none => []
termination_by s.length
decreasing_by exact Nat.lt_of_lt_of_le (token?_length _read) (skipLayout_length_le s)

theorem tokens_of_token {s rest : List Char} {t : Token} (h : token? (skipLayout s) = some (t, rest)) :
    tokens s = t :: tokens rest := by
  rw [tokens]
  split
  · rename_i read
    rw [h] at read
    cases read
    rfl
  · rename_i none
    rw [h] at none
    cases none

theorem token?_eq_none {s : List Char} (h : token? s = none) : s = [] := by
  cases s with
  | nil => rfl
  | cons => cases h

theorem tokens_of_nil {s : List Char} (h : skipLayout s = []) : tokens s = [] := by
  rw [tokens]
  split
  · rename_i read
    rw [h] at read
    cases read
  · rfl

theorem tokens_eq_nil_iff (s : List Char) : tokens s = [] ↔ skipLayout s = [] := by
  refine ⟨fun none => ?_, tokens_of_nil⟩
  cases next : token? (skipLayout s) with
  | none => exact token?_eq_none next
  | some found =>
    rw [tokens_of_token next] at none
    cases none

theorem tokens_eq_cons_iff {s : List Char} {t : Token} {ts : List Token} :
    tokens s = t :: ts ↔ ∃ rest, token? (skipLayout s) = some (t, rest) ∧ tokens rest = ts := by
  refine ⟨fun first => ?_, fun ⟨rest, next, left⟩ => by rw [tokens_of_token next, left]⟩
  cases next : token? (skipLayout s) with
  | none =>
    rw [tokens_of_nil (token?_eq_none next)] at first
    cases first
  | some found =>
    rw [tokens_of_token next] at first
    obtain ⟨rfl, left⟩ := List.cons.inj first
    exact ⟨found.2, rfl, left⟩

/-! ### Characters that begin tokens -/

def symbolics : List Char := singles ++ ['=', '&', '|']

def beginsWord (c : Char) : Bool := c.isDigit || c = '.' || (c = '"' || c = '\'') || isWordStart c

theorem not_symbolic {c : Char} (h : beginsWord c) : c ∉ symbolics := by
  intro symbolic
  have no : (symbolics.all fun c => !beginsWord c) = true := by decide
  rw [Bool.eq_false_of_not_eq_true' (List.all_eq_true.1 no c symbolic)] at h
  cases h

theorem not_space {c : Char} (h : beginsWord c) :
    isSpace c = false ∧ c ≠ '/' := by
  refine ⟨Bool.eq_false_iff.2 fun space => ?_, fun slash => not_symbolic h (by rw [slash]; decide)⟩
  simp only [isSpace, Bool.or_eq_true, decide_eq_true_eq] at space
  rcases space with ((rfl | rfl) | rfl) | rfl <;> cases h

theorem not_space_of_symbolic {c : Char} (h : c ∈ symbolics) : isSpace c = false := by
  have no : (symbolics.all fun c => !isSpace c) = true := by decide
  exact Bool.eq_false_of_not_eq_true' (List.all_eq_true.1 no c h)

theorem symbolic_of_symbol? {c : Char} {s t rest : List Char} (h : symbol? (c :: s) = some (t, rest)) :
    c ∈ symbolics ∧ ¬ (c = '/' ∧ s.head? = some '/') := by
  unfold symbol? at h
  split at h
  case h_7 => cases h
  case h_8 d more _ _ _ _ _ _ comment e =>
    cases e
    split at h
    · rename_i single
      refine ⟨List.mem_append_left _ single, fun ⟨slash, next⟩ => ?_⟩
      obtain ⟨more, rfl⟩ := List.head?_eq_some_iff.1 next
      exact comment more slash rfl
    · cases h
  case h_9 e => cases e
  all_goals
    rename_i e
    cases e
    exact ⟨by decide, fun slash => by cases slash.1⟩

theorem skipLayout_skipLayout (s : List Char) : skipLayout (skipLayout s) = skipLayout s := by
  fun_induction skipLayout s with
  | case1 => rw [skipLayout]
  | case2 c s space ih => exact ih
  | case3 more rest ended _ ih => exact ih
  | case4 more ended space =>
    rw [skipLayout.eq_def]
    dsimp only
    rw [if_neg space]
    split
    · rename_i e _ _ same
      cases same
      split
      · rename_i ends
        rw [ended] at ends
        cases ends
      · rfl
    · rfl
  | case5 c s space comment => exact skipLayout_plain (Bool.eq_false_iff.2 space) comment

theorem token?_of_digit {c : Char} (h : (c.isDigit || c = '.') = true) (s : List Char) :
    token? (c :: s) = some (match numeral? (c :: s) with
      | some (n, rest) => (.number n, rest)
      | none => (.stray, [])) := by
  simp only [token?, h, if_true]

theorem token?_of_quote {c : Char} (h : c = '"' ∨ c = '\'') (s : List Char) :
    token? (c :: s) = some (match textConstant (c :: s) with
      | .ok t rest => (.text t, rest)
      | _ => (.openText, [])) := by
  rcases h with rfl | rfl <;> rfl

theorem not_digit_of_isWordStart {c : Char} (h : isWordStart c = true) :
    (c.isDigit || c = '.') = false ∧ (c = '"' || c = '\'') = false := by
  refine ⟨?_, ?_⟩
  · rw [isDigit_of_isWordStart h, Bool.false_or, decide_eq_false_iff_not]
    rintro rfl
    cases h
  · rw [Bool.or_eq_false_iff, decide_eq_false_iff_not, decide_eq_false_iff_not]
    constructor <;> rintro rfl <;> cases h

theorem token?_of_isWordStart {c : Char} (h : isWordStart c = true) (s : List Char) :
    token? (c :: s) = some (.name (String.ofList (c :: s.takeWhile isWordPart)), s.dropWhile isWordPart) := by
  obtain ⟨digit, quote⟩ := not_digit_of_isWordStart h
  simp only [token?, h, digit, quote, if_true, Bool.false_eq_true, if_false]

theorem token?_of_not_word {c : Char} (h : beginsWord c = false) (s : List Char) :
    token? (c :: s) = some (match symbol? (c :: s) with
      | some (t, rest) => (.symbol t, rest)
      | none => (.stray, [])) := by
  simp only [beginsWord, Bool.or_eq_false_iff] at h
  simp [token?, h]

structure Begins (c : Char) (t : Token) : Prop where
  number : ∀ n, t = .number n → (c.isDigit || c = '.') = true
  text : ∀ x, t = .text x ∨ t = .openText → c = '"' ∨ c = '\''
  name : ∀ n, t = .name n → isWordStart c = true
  symbol : ∀ cs, t = .symbol cs → beginsWord c = false

theorem begins_of_token? {c : Char} {s rest : List Char} {t : Token} (h : token? (c :: s) = some (t, rest)) :
    Begins c t := by
  have h := Option.some.inj h
  split at h
  · rename_i digit
    split at h <;> cases h <;> exact ⟨fun _ _ => digit, by simp, by simp, by simp⟩
  rename_i digit
  split at h
  · rename_i quote
    have quote : c = '"' ∨ c = '\'' := by simpa using quote
    split at h <;> cases h <;> exact ⟨by simp, fun _ _ => quote, by simp, by simp⟩
  rename_i quote
  split at h
  · rename_i start
    cases h
    exact ⟨by simp, by simp, fun _ _ => start, by simp⟩
  · rename_i start
    have plain : beginsWord c = false := by
      rw [beginsWord, Bool.eq_false_iff.2 digit, Bool.eq_false_iff.2 quote, Bool.eq_false_iff.2 start]
      rfl
    split at h <;> cases h <;> exact ⟨by simp, by simp, by simp, fun _ _ => plain⟩

theorem token?_symbol {s rest : List Char} {t : Token} (h : token? s = some (t, rest)) :
    (∃ cs, t = .symbol cs ∧ symbol? s = some (cs, rest)) ∨ ((∀ cs, t ≠ .symbol cs) ∧ symbol? s = none) := by
  cases s with
  | nil => cases h
  | cons c s =>
    by_cases word : beginsWord c
    · have none : symbol? (c :: s) = none := by
        by_contra found
        obtain ⟨p, found⟩ := Option.ne_none_iff_exists'.1 found
        exact not_symbolic word (symbolic_of_symbol? found).1
      refine .inr ⟨fun cs same => ?_, none⟩
      rw [(begins_of_token? h).symbol cs same] at word
      cases word
    · rw [token?_of_not_word (Bool.eq_false_iff.2 word)] at h
      have h := Option.some.inj h
      split at h
      · rename_i read
        cases h
        exact .inl ⟨_, rfl, read⟩
      · rename_i none
        cases h
        exact .inr ⟨(fun cs same => by cases same), none⟩

theorem tokens_skipLayout (s : List Char) : tokens (skipLayout s) = tokens s := by
  cases next : token? (skipLayout s) with
  | none =>
    have nil := token?_eq_none next
    rw [tokens_of_nil nil, tokens_of_nil (by rw [skipLayout_skipLayout, nil])]
  | some found => rw [tokens_of_token next, tokens_of_token (by rw [skipLayout_skipLayout, next])]

theorem skipLayout_of_token? {s rest : List Char} {t : Token} (h : token? s = some (t, rest)) (ht : t ≠ .stray) :
    skipLayout s = s := by
  cases s with
  | nil => cases h
  | cons c s =>
    by_cases plain : beginsWord c
    · exact skipLayout_cons (not_space plain).1 (not_space plain).2 s
    · have begins := h
      rw [token?_of_not_word (Bool.eq_false_iff.2 plain)] at begins
      have begins := Option.some.inj begins
      split at begins
      · rename_i read
        obtain ⟨symbolic, comment⟩ := symbolic_of_symbol? read
        refine skipLayout_plain (not_space_of_symbolic symbolic) fun more slash next => comment ⟨slash, ?_⟩
        rw [next]
        rfl
      · cases begins
        exact absurd rfl ht

/-! ### Readers that take one token -/

inductive Pick (α : Type) where
  | take (a : α)
  | pass
  | refuse

def Pick.Gives {α : Type} (rest : List Char) : Pick α → Outcome α → Prop
  | .take a, o => o = .ok a rest
  | .pass, o => o.Soft
  | .refuse, o => ∃ f, o = .hard f

theorem Pick.Gives.eq_take {α : Type} {pick : Pick α} {rest rest' : List Char} {o : Outcome α} {a : α}
    (h : pick.Gives rest o) (read : o = .ok a rest') : pick = .take a ∧ rest = rest' := by
  subst read
  cases pick with
  | take b =>
    cases h
    exact ⟨rfl, rfl⟩
  | pass =>
    obtain ⟨f, soft⟩ := h
    cases soft
  | refuse =>
    obtain ⟨f, hard⟩ := h
    cases hard

theorem Pick.Gives.soft_iff {α : Type} {pick : Pick α} {rest : List Char} {o : Outcome α}
    (h : pick.Gives rest o) : o.Soft ↔ pick = .pass := by
  cases pick with
  | take a =>
    cases h
    exact iff_of_false (fun ⟨_, soft⟩ => nomatch soft) nofun
  | pass => exact iff_of_true h rfl
  | refuse =>
    obtain ⟨f, rfl⟩ := h
    exact iff_of_false (fun ⟨_, soft⟩ => nomatch soft) nofun

def Pick.ofOption {α : Type} : Option α → Pick α
  | some a => .take a
  | none => .pass

/-- What the reader does is told by the token ahead, and it takes nothing that is no token. -/
structure Picks {α : Type} (p : Reader α) (pick : Token → Pick α) : Prop where
  nil : (p []).Soft
  token : ∀ {s rest : List Char} {t : Token}, token? s = some (t, rest) → (pick t).Gives rest (p s)
  stray : ∀ a, pick .stray ≠ .take a

namespace Picks

variable {α : Type} {p : Reader α} {pick : Token → Pick α} {s rest : List Char} {a : α}

theorem of_ok (h : Picks p pick) (read : p s = .ok a rest) :
    ∃ t, pick t = .take a ∧ token? s = some (t, rest) := by
  cases next : token? s with
  | none =>
    obtain ⟨f, soft⟩ := h.nil
    rw [token?_eq_none next, soft] at read
    cases read
  | some found =>
    obtain ⟨t, after⟩ := found
    obtain ⟨taken, rfl⟩ := (h.token next).eq_take read
    exact ⟨t, taken, rfl⟩

theorem of_symbols {result? : List Char → Option α} (none : ∀ {s}, symbol? s = none → (p s).Soft)
    (some : ∀ {s cs rest}, symbol? s = some (cs, rest) → (Pick.ofOption (result? cs)).Gives rest (p s)) :
    Picks p (fun | .symbol cs => .ofOption (result? cs) | _ => .pass) := by
  refine ⟨none rfl, fun {s rest t} next => ?_, nofun⟩
  rcases token?_symbol next with ⟨cs, rfl, found⟩ | ⟨other, found⟩
  · exact some found
  · cases t with
    | symbol cs => exact absurd rfl (other cs)
    | _ => exact none found

end Picks

/-! ### The readers of words -/

theorem picks_number : Picks number fun
    | .number n => if n.toNumber.isFinite then .take n.toNumber else .refuse
    | _ => .pass := by
  refine ⟨⟨_, rfl⟩, fun {s rest t} next => ?_, nofun⟩
  cases s with
  | nil => cases next
  | cons c s =>
    by_cases digit : (c.isDigit || c = '.') = true
    · rw [token?_of_digit digit] at next
      have next := Option.some.inj next
      split at next
      · rename_i n after read
        cases next
        rw [number, read]
        dsimp only
        split
        · rfl
        · exact ⟨_, rfl⟩
      · rename_i none
        cases next
        rw [number, none]
        exact ⟨_, rfl⟩
    · have soft : (number (c :: s)).Soft := by
        rw [Bool.or_eq_true, decide_eq_true_eq, not_or] at digit
        exact soft_number (Bool.eq_false_iff.2 digit.1) digit.2 s
      cases t with
      | number n => exact absurd ((begins_of_token? next).number n rfl) digit
      | _ => exact soft

theorem not_soft_textConstant {quote : Char} (h : quote = '"' ∨ quote = '\'') (s : List Char) :
    ¬ (textConstant (quote :: s)).Soft := by
  have opened : ∀ q, ¬ (textBetween q (q :: s)).Soft := by
    intro q soft
    rw [textBetween, Reader.bind_of_ok (Reader.char_self q s), Reader.wanting, Reader.soft_reporting_iff,
      Reader.within, Reader.soft_reporting_iff] at soft
    exact Reader.not_soft_cut s soft
  rcases h with rfl | rfl
  · exact fun soft => opened '"' (Reader.soft_of_orElse soft).1
  · exact fun soft => opened '\'' (Reader.soft_of_orElse soft).2

theorem picks_textConstant : Picks textConstant fun
    | .text s => .take s
    | .openText => .refuse
    | _ => .pass := by
  refine ⟨⟨_, rfl⟩, fun {s rest t} next => ?_, nofun⟩
  cases s with
  | nil => cases next
  | cons c s =>
    by_cases quote : c = '"' ∨ c = '\''
    · rw [token?_of_quote quote] at next
      have next := Option.some.inj next
      split at next
      · rename_i read
        cases next
        exact read
      · rename_i fails
        cases next
        cases read : textConstant (c :: s) with
        | ok t rest => exact absurd read (fails t rest)
        | soft f => exact (not_soft_textConstant quote s ⟨f, read⟩).elim
        | hard f => exact ⟨f, rfl⟩
    · have soft := soft_textConstant (fun e => quote (.inl e)) (fun e => quote (.inr e)) s
      cases t with
      | text x => exact absurd ((begins_of_token? next).text x (.inl rfl)) quote
      | openText => exact absurd ((begins_of_token? next).text "" (.inr rfl)) quote
      | _ => exact soft

theorem picks_word : Picks word fun
    | .name s => .take s
    | _ => .pass := by
  refine ⟨⟨_, rfl⟩, fun {s rest t} next => ?_, nofun⟩
  cases s with
  | nil => cases next
  | cons c s =>
    by_cases start : isWordStart c
    · rw [token?_of_isWordStart start] at next
      cases next
      show word (c :: s) = _
      rw [word, if_pos start]
    · have soft := soft_word (Bool.eq_false_iff.2 start) s
      cases t with
      | name n => exact absurd ((begins_of_token? next).name n rfl) start
      | _ => exact soft

def delimiters : List Char := ['(', ')', ',', '?', ':', '^']

theorem symbol?_delimiter {c : Char} (h : c ∈ delimiters) (s : List Char) : symbol? (c :: s) = some ([c], s) := by
  simp only [delimiters, List.mem_cons, List.not_mem_nil, or_false] at h
  rcases h with rfl | rfl | rfl | rfl | rfl | rfl <;> rfl

theorem picks_char {c : Char} (h : c ∈ delimiters) : Picks (Reader.char c) fun
    | .symbol cs => .ofOption (if cs = [c] then some () else none)
    | _ => .pass := by
  refine .of_symbols (fun {s} none => Reader.soft_char fun head => ?_) fun {s cs rest} found => ?_
  · obtain ⟨more, rfl⟩ := List.head?_eq_some_iff.1 head
    rw [symbol?_delimiter h] at none
    cases none
  · split
    · rename_i same
      obtain ⟨rfl, -⟩ := symbol?_eq_some found
      rw [same]
      exact Reader.char_self c rest
    · rename_i other
      refine Reader.soft_char fun head => ?_
      obtain ⟨more, rfl⟩ := List.head?_eq_some_iff.1 head
      rw [symbol?_delimiter h] at found
      cases found
      exact other rfl

theorem symbol?_eq_none_of_single {c : Char} {s : List Char} (h : c ∈ singles) (none : symbol? (c :: s) = none) :
    c = '/' ∧ s.head? = some '/' := by
  unfold symbol? at none
  split at none
  case h_7 e =>
    cases e
    exact ⟨rfl, rfl⟩
  case h_8 e =>
    cases e
    rw [if_pos h] at none
    cases none
  case h_9 e => cases e
  all_goals cases none

theorem symbol?_not {s : List Char} (h : s.head? ≠ some '=') : symbol? ('!' :: s) = some (['!'], s) := by
  unfold symbol?
  split
  case h_2 e =>
    cases e
    exact absurd rfl h
  case h_8 e =>
    cases e
    rfl
  all_goals
    rename_i e
    cases e

def signOf? : List Char → Option UnaryOp
  | ['-'] => some .neg
  | ['+'] => some .plus
  | ['!'] => some .not
  | _ => none

theorem picks_sign : Picks sign fun
    | .symbol cs => .ofOption (signOf? cs)
    | _ => .pass := by
  refine .of_symbols (fun {s} none => ?_) fun {s cs rest} found => ?_
  · unfold sign
    split
    · cases none
    · cases none
    · exact ⟨_, rfl⟩
    · rename_i more other
      rw [symbol?_not fun head => ?_] at none
      · cases none
      · obtain ⟨after, rfl⟩ := List.head?_eq_some_iff.1 head
        exact other after rfl
    · exact ⟨_, rfl⟩
  · unfold sign
    split
    · cases found
      rfl
    · cases found
      rfl
    · cases found
      exact ⟨_, rfl⟩
    · rename_i more other
      rw [symbol?_not fun head => ?_] at found
      · cases found
        rfl
      · obtain ⟨after, rfl⟩ := List.head?_eq_some_iff.1 head
        exact other after rfl
    · rename_i minus plus _ bang
      obtain ⟨rfl, -⟩ := symbol?_eq_some found
      unfold signOf?
      split
      · exact absurd rfl (minus rest)
      · exact absurd rfl (plus rest)
      · exact absurd rfl (bang rest)
      · exact ⟨_, rfl⟩

def symbols : List (List Char) :=
  [['=', '='], ['!', '='], ['<', '='], ['>', '='], ['&', '&'], ['|', '|']] ++ singles.map fun c => [c]

theorem mem_symbols_of_symbol? {s cs rest : List Char} (h : symbol? s = some (cs, rest)) : cs ∈ symbols := by
  unfold symbol? at h
  split at h
  case h_7 => cases h
  case h_8 =>
    split at h
    · rename_i single
      cases h
      exact List.mem_append_right _ (List.mem_map_of_mem single)
    · cases h
  case h_9 => cases h
  all_goals
    cases h
    exact List.mem_append_left _ (by simp)

theorem symbol?_operator (op : BinaryOp) : (∀ s, symbol? (op.symbol ++ s) = some (op.symbol, s)) ∨
    ∃ c ∈ singles, op.symbol = [c] ∧ (c = '/' → op = .div) := by
  cases op
  case eq | ne | le | ge | and | or => exact .inl fun _ => rfl
  all_goals exact .inr ⟨_, by simp [singles], rfl, by decide⟩

theorem isPrefixOf_symbol?_iff {s cs rest : List Char} (found : symbol? s = some (cs, rest)) (op : BinaryOp) :
    op.symbol.isPrefixOf s = op.symbol.isPrefixOf cs := by
  obtain ⟨rfl, some⟩ := symbol?_eq_some found
  rw [Bool.eq_iff_iff, List.isPrefixOf_iff_prefix, List.isPrefixOf_iff_prefix]
  refine ⟨fun ⟨more, whole⟩ => ?_, fun h => h.trans (List.prefix_append cs rest)⟩
  rcases symbol?_operator op with double | ⟨c, -, single, -⟩
  · rw [← whole, double] at found
    cases found
    exact List.prefix_rfl
  · rw [single] at whole ⊢
    obtain ⟨d, ds, rfl⟩ := List.exists_cons_of_ne_nil some
    cases whole
    exact ⟨ds, rfl⟩

/-- Of the operators of one precedence the first one that fits a symbol is all of it. -/
theorem find?_operatorsAt {cs : List Char} (h : cs ∈ symbols) (q : Nat) :
    (Grammar.operatorsAt q).find? (fun op => op.symbol.isPrefixOf cs) =
      (Grammar.operatorsAt q).find? fun op => op.symbol == cs := by
  have all : ∀ ops ∈ [[BinaryOp.or], [.and], [.eq, .ne], [.le, .ge, .lt, .gt], [.add, .sub], [.mul, .div], []],
      (symbols.all fun cs => (ops.find? fun op => op.symbol.isPrefixOf cs) == ops.find? fun op => op.symbol == cs)
        = true := by
    decide
  refine eq_of_beq (List.all_eq_true.1 (all _ ?_) cs h)
  unfold Grammar.operatorsAt
  split <;> simp

theorem picks_operator (q : Nat) : Picks (operator (Grammar.operatorsAt q)) fun
    | .symbol cs => .ofOption ((Grammar.operatorsAt q).find? fun op => op.symbol == cs)
    | _ => .pass := by
  refine .of_symbols (fun {s} none => ?_) fun {s cs rest} found => ?_
  · unfold operator
    dsimp only
    rw [List.find?_eq_none.2 fun op _ => ?_]
    · exact ⟨_, rfl⟩
    · -- An operator at the head of the text would be a symbol there, but for the slash of a comment.
      intro fits
      obtain ⟨here, comment⟩ := Bool.and_eq_true_iff.1 fits
      obtain ⟨more, rfl⟩ := List.isPrefixOf_iff_prefix.1 here
      rcases symbol?_operator op with double | ⟨c, single, symbol, div⟩
      · rw [double] at none
        cases none
      · rw [symbol] at none comment
        obtain ⟨rfl, next⟩ := symbol?_eq_none_of_single single none
        obtain ⟨after, rfl⟩ := List.head?_eq_some_iff.1 next
        rw [div rfl] at comment
        cases comment
  · have comment : ['/', '/'].isPrefixOf s = false := by
      refine Bool.eq_false_iff.2 fun slashes => ?_
      obtain ⟨more, rfl⟩ := List.isPrefixOf_iff_prefix.1 slashes
      cases found
    have first := find?_operatorsAt (mem_symbols_of_symbol? found) q
    unfold operator
    dsimp only
    simp only [comment, Bool.and_false, Bool.not_false, Bool.and_true, isPrefixOf_symbol?_iff found, first]
    cases taken : (Grammar.operatorsAt q).find? fun op => op.symbol == cs with
    | none => exact ⟨_, rfl⟩
    | some op =>
      have same : op.symbol = cs := by simpa using List.find?_some taken
      obtain ⟨rfl, -⟩ := symbol?_eq_some found
      show Outcome.ok op ((cs ++ rest).drop op.symbol.length) = _
      rw [same, List.drop_left]

end DerivedColumns.Formula
