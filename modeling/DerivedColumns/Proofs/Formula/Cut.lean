import DerivedColumns.Proofs.Formula.Left
import DerivedColumns.Proofs.Formula.Sliced

set_option autoImplicit false

namespace DerivedColumns.Formula

/-- What is read is read again from the same tokens, however many of the tokens behind them are left. -/
def Forward {α : Type} (p : Reader α) : Prop :=
  ∀ s a rest, p s = .ok a rest → ∃ ts, Passed ts s rest ∧
    ∀ s' us, tokens s' = ts ++ us → us <+: tokens rest → ∃ rest', p s' = .ok a rest' ∧ tokens rest' = us

/-- A soft failure stays one if the text is cut. -/
def Fades {α : Type} (p : Reader α) : Prop :=
  ∀ s s', (p s).Soft → tokens s' <+: tokens s → (p s').Soft

def Firm {α : Type} (p : Reader α) : Prop := ∀ s, ¬ (p s).Soft

section Combinators

variable {α β : Type} {p q : Reader α} {next : α → Reader β}

/-! ### Soft failures -/

namespace Firm

theorem pure (a : α) : Firm (Pure.pure a : Reader α) := fun _ ⟨_, h⟩ => nomatch h

theorem tooDeep : Firm (Reader.tooDeep : Reader α) := fun _ ⟨_, h⟩ => nomatch h

theorem cut (p : Reader α) : Firm p.cut := Reader.not_soft_cut

theorem reporting (h : Firm p) (change : Cause → Cause) : Firm (p.reporting change) :=
  fun s soft => h s (Reader.soft_reporting_iff.1 soft)

theorem optional (p : Reader α) : Firm p.optional := by
  rintro s ⟨f, soft⟩
  unfold Reader.optional at soft
  split at soft <;> cases soft

theorem many (p : Reader α) : Firm p.many := by
  intro s
  fun_induction Reader.many p s with
  | case2 s a mid first shorter fails ih => exact ih
  | _ =>
    rintro ⟨f, soft⟩
    cases soft

theorem bind (h : Firm p) (hnext : ∀ a, Firm (next a)) : Firm (p >>= next) := by
  rintro s ⟨f, soft⟩
  cases first : p s with
  | ok a rest =>
    rw [Reader.bind_of_ok first] at soft
    exact hnext a rest ⟨f, soft⟩
  | soft g => exact h s ⟨g, first⟩
  | hard g =>
    rw [Reader.bind_of_hard first] at soft
    cases soft

end Firm

theorem soft_of_bind {s : List Char} (soft : ((p >>= next) s).Soft) :
    (p s).Soft ∨ ∃ a rest, p s = .ok a rest ∧ (next a rest).Soft := by
  obtain ⟨f, soft⟩ := soft
  cases first : p s with
  | ok a rest =>
    rw [Reader.bind_of_ok first] at soft
    exact .inr ⟨a, rest, rfl, f, soft⟩
  | soft g => exact .inl ⟨g, rfl⟩
  | hard g =>
    rw [Reader.bind_of_hard first] at soft
    cases soft

namespace Fades

theorem of_firm (h : Firm p) : Fades p := fun s _ soft => absurd soft (h s)

theorem orElse (hp : Fades p) (hq : Fades q) : Fades (p.orElse q) := by
  intro s s' soft ahead
  obtain ⟨first, second⟩ := Reader.soft_of_orElse soft
  exact Reader.soft_orElse (hp s s' first ahead) (hq s s' second ahead)

theorem bind (h : Fades p) (firm : ∀ a, Firm (next a)) : Fades (p >>= next) := by
  intro s s' soft ahead
  rcases soft_of_bind soft with first | ⟨a, rest, -, second⟩
  · exact Reader.soft_bind (h s s' first ahead)
  · exact absurd second (firm a rest)

theorem optional_bind {next : Option α → Reader β} (h : Fades p) (some : ∀ a, Firm (next (some a)))
    (none : Fades (next none)) : Fades (p.optional >>= next) := by
  intro s s' soft ahead
  rcases soft_of_bind soft with first | ⟨o, rest, first, second⟩
  · exact absurd first (Firm.optional p s)
  · rcases Reader.optional_eq_ok_iff.1 first with ⟨a, rfl, -⟩ | ⟨rfl, rfl, absent⟩
    · exact absurd second (some a rest)
    · have left := Reader.Takes.optional_of_soft (h rest s' absent ahead)
      rw [Outcome.Soft, Reader.bind_of_ok left]
      exact none rest s' second ahead

end Fades

/-! ### Results -/

namespace Forward

theorem pure (a : α) : Forward (Pure.pure a : Reader α) := by
  intro s b rest read
  cases read
  exact ⟨[], .refl s, fun s' us same _ => ⟨s', rfl, same⟩⟩

theorem tooDeep : Forward (Reader.tooDeep : Reader α) := fun _ _ _ read => nomatch read

theorem bind (h : Forward p) (hnext : ∀ a, Forward (next a)) : Forward (p >>= next) := by
  intro s b rest read
  obtain ⟨a, mid, first, second⟩ := Reader.bind_eq_ok_iff.1 read
  obtain ⟨ts, passed, again⟩ := h s a mid first
  obtain ⟨ts', passed', again'⟩ := hnext a mid b rest second
  refine ⟨ts ++ ts', passed.trans passed', fun s' us same ahead => ?_⟩
  rw [List.append_assoc] at same
  obtain ⟨mid', first', left⟩ := again s' _ same (passed'.prefix_tokens ahead)
  obtain ⟨rest', second', left'⟩ := again' mid' us left ahead
  exact ⟨rest', Reader.bind_eq_ok_iff.2 ⟨a, mid', first', second'⟩, left'⟩

theorem congr (h : Forward p) (same : ∀ {s a rest}, q s = .ok a rest ↔ p s = .ok a rest) : Forward q := by
  intro s a rest read
  obtain ⟨ts, passed, again⟩ := h s a rest (same.1 read)
  refine ⟨ts, passed, fun s' us here ahead => ?_⟩
  obtain ⟨rest', read', left⟩ := again s' us here ahead
  exact ⟨rest', same.2 read', left⟩

theorem within (h : Forward p) (label : String) : Forward (p.within label) := h.congr Reader.reporting_eq_ok_iff

theorem wanting (h : Forward p) (e : Expected) : Forward (p.wanting e) := h.congr Reader.reporting_eq_ok_iff

theorem cut (h : Forward p) : Forward p.cut := h.congr Reader.cut_eq_ok_iff

theorem optional (h : Forward p) (fades : Fades p) : Forward p.optional := by
  intro s o rest read
  rcases Reader.optional_eq_ok_iff.1 read with ⟨a, rfl, taken⟩ | ⟨rfl, rfl, absent⟩
  · obtain ⟨ts, passed, again⟩ := h s a rest taken
    refine ⟨ts, passed, fun s' us same ahead => ?_⟩
    obtain ⟨rest', read', left⟩ := again s' us same ahead
    exact ⟨rest', Reader.optional_eq_ok_iff.2 (.inl ⟨a, rfl, read'⟩), left⟩
  · refine ⟨[], .refl rest, fun s' us same ahead => ⟨s', ?_, same⟩⟩
    exact Reader.Takes.optional_of_soft (fades rest s' absent (by rwa [same]))

theorem orElse (hp : Forward p) (fades : Fades p) (hq : Forward q) : Forward (p.orElse q) := by
  intro s a rest read
  rcases Reader.orElse_eq_ok_iff.1 read with first | ⟨soft, second⟩
  · obtain ⟨ts, passed, again⟩ := hp s a rest first
    refine ⟨ts, passed, fun s' us same ahead => ?_⟩
    obtain ⟨rest', read', left⟩ := again s' us same ahead
    exact ⟨rest', Reader.orElse_eq_ok_iff.2 (.inl read'), left⟩
  · obtain ⟨ts, passed, again⟩ := hq s a rest second
    refine ⟨ts, passed, fun s' us same ahead => ?_⟩
    obtain ⟨rest', read', left⟩ := again s' us same ahead
    have shorter : tokens s' <+: tokens s := same ▸ passed.prefix_tokens ahead
    exact ⟨rest', Reader.orElse_eq_ok_iff.2 (.inr ⟨fades s s' soft shorter, read'⟩), left⟩

theorem many (h : Forward p) (fades : Fades p) (shortens : Shortens p) : Forward p.many := by
  intro s
  fun_induction Reader.many p s with
  | case1 s a mid first shorter as rest more ih =>
    intro all rest' read
    cases read
    obtain ⟨ts, passed, again⟩ := h s a mid first
    obtain ⟨ts', passed', again'⟩ := ih as rest more
    refine ⟨ts ++ ts', passed.trans passed', fun s' us same ahead => ?_⟩
    rw [List.append_assoc] at same
    obtain ⟨mid', first', left⟩ := again s' _ same (passed'.prefix_tokens ahead)
    obtain ⟨rest', more', left'⟩ := again' mid' us left ahead
    refine ⟨rest', ?_, left'⟩
    rw [Reader.many, first']
    simp only [shortens s' a mid' first', if_true, more']
  | case2 s a mid first shorter fails ih =>
    intro as rest read
    exact (fails as rest read).elim
  | case3 s a mid first stuck => exact absurd (shortens s a mid first) stuck
  | case4 s f soft =>
    intro as rest read
    cases read
    refine ⟨[], .refl s, fun s' us same ahead => ⟨s', ?_, same⟩⟩
    exact Reader.Takes.many_of_soft (fades s s' ⟨f, soft⟩ (by rwa [same]))
  | case5 s f hard =>
    intro as rest read
    cases read

theorem separated {separator : Reader Unit} (h : Forward p) (hs : Forward (do separator; p))
    (fades : Fades (do separator; p)) (shortens : Shortens (do separator; p)) : Forward (p.separated separator) :=
  h.bind fun first => (hs.many fades shortens).bind fun rest => pure (first :: rest)

end Forward

theorem Shortens.bind_leaves (h : Shortens p) (hnext : ∀ a, Leaves (next a)) : Shortens (p >>= next) := by
  intro s b rest read
  obtain ⟨a, mid, first, second⟩ := Reader.bind_eq_ok_iff.1 read
  exact Nat.lt_of_le_of_lt ((hnext a).length_le second) (h s a mid first)

end Combinators

/-! ### Words -/

section Words

variable {α β : Type} {p : Reader α} {pick : Token → Pick α} {next : α → Reader β}

/-- Behind layout the token ahead decides, and there is the same one if any is left. -/
theorem Picks.forward (h : Picks p pick) (proper : ∀ t a, pick t = .take a → t.isProper) :
    Forward (do skip; p) := by
  intro s a rest read
  have read : p (skipLayout s) = .ok a rest := read
  obtain ⟨t, taken, ahead⟩ := h.of_ok read
  refine ⟨[t], (Passed.skip s).trans (.token ahead (proper t a taken)), fun s' us same _ => ?_⟩
  obtain ⟨rest', ahead', left⟩ := tokens_eq_cons_iff.1 same
  have gives := h.token ahead'
  rw [taken] at gives
  exact ⟨rest', gives, left⟩

theorem Picks.fades (h : Picks p pick) : Fades (do skip; p) := by
  intro s s' soft ahead
  show (p (skipLayout s')).Soft
  have soft : (p (skipLayout s)).Soft := soft
  cases left : tokens s' with
  | nil =>
    rw [(tokens_eq_nil_iff s').1 left]
    exact h.nil
  | cons t us =>
    rw [left] at ahead
    obtain ⟨more, whole⟩ := ahead
    obtain ⟨rest, next, -⟩ := tokens_eq_cons_iff.1 whole.symm
    obtain ⟨rest', next', -⟩ := tokens_eq_cons_iff.1 left
    exact (h.token next').soft_iff.2 ((h.token next).soft_iff.1 soft)

theorem Picks.fades_bind (h : Picks p pick) (hnext : ∀ a, Fades (next a)) :
    Fades ((do skip; p) >>= next) := by
  intro s s' soft ahead
  rcases soft_of_bind soft with first | ⟨a, rest, first, second⟩
  · exact Reader.soft_bind (h.fades s s' first ahead)
  · have first : p (skipLayout s) = .ok a rest := first
    obtain ⟨t, taken, next⟩ := h.of_ok first
    cases left : tokens s' with
    | nil =>
      refine Reader.soft_bind ?_
      show (p (skipLayout s')).Soft
      rw [(tokens_eq_nil_iff s').1 left]
      exact h.nil
    | cons t' us =>
      rw [left, tokens_of_token next, List.cons_prefix_cons] at ahead
      obtain ⟨rfl, ahead⟩ := ahead
      obtain ⟨rest', next', left'⟩ := tokens_eq_cons_iff.1 left
      have again : p (skipLayout s') = .ok a rest' := by
        have gives := h.token next'
        rwa [taken] at gives
      have read : (do skip; p) s' = .ok a rest' := again
      rw [Outcome.Soft, Reader.bind_of_ok read]
      exact hnext a rest rest' second (by rwa [left'])

end Words

theorem forward_char {c : Char} (h : c ∈ delimiters) : Forward (do skip; Reader.char c) :=
  (picks_char h).forward fun _ _ taken => (Pick.symbol_of_take taken).1

theorem forward_closing {c : Char} (h : c ∈ delimiters) :
    Forward (do skip; Reader.wanting (.symbol c) (Reader.char c)) := (forward_char h).wanting _

theorem forward_operator (q : Nat) : Forward (do skip; operator (Grammar.operatorsAt q)) :=
  (picks_operator q).forward fun _ _ taken => (Pick.symbol_of_take taken).1

theorem forward_sign : Forward (do skip; sign) := picks_sign.forward fun _ _ taken => (Pick.symbol_of_take taken).1

theorem forward_word : Forward (do skip; word) := by
  refine picks_word.forward fun t a taken => ?_
  cases t with
  | name s => rfl
  | _ => cases taken

theorem forward_number : Forward (do skip; number) := by
  refine picks_number.forward fun t a taken => ?_
  cases t with
  | number n => rfl
  | _ => cases taken

theorem forward_textConstant : Forward (do skip; textConstant) := by
  refine picks_textConstant.forward fun t a taken => ?_
  cases t with
  | text s => rfl
  | _ => cases taken

/-! ### The grammar -/

namespace Grammar

structure Cutting (deeper : Grammar) : Prop where
  choice : Forward deeper.choice
  fades : Fades deeper.choice
  power : Forward deeper.power
  signed : Forward deeper.signed

theorem forward_operand {p : Reader Formula} (h : Forward p) : Forward (operand p) := ((h.within _).wanting _).cut

theorem firm_operand (p : Reader Formula) : Firm (operand p) := .cut _

theorem fades_link (q : Nat) (p : Reader Formula) : Fades (do
    skip
    let op ← operator (operatorsAt q)
    let right ← operand p
    return (op, right)) :=
  (picks_operator q).fades.bind fun op => (firm_operand p).bind fun right => .pure (op, right)

theorem forward_chain (q : Nat) {p : Reader Formula} (h : Forward p) (leaves : Leaves p) :
    Forward (chain (operatorsAt q) p) := by
  have right : ∀ op : BinaryOp, Leaves (do let right ← operand p; return (op, right)) :=
    fun op => (leaves_operand leaves).bind fun right => .pure _
  refine h.bind fun first => (Forward.many ?_ (fades_link q p) ?_).bind fun more => ?_
  · exact (forward_operator q).bind fun op => (forward_operand h).bind fun right => .pure (op, right)
  · exact ((picks_operator q).shortens.bind_leaves right).skip
  · split
    · exact .tooDeep
    · exact .pure _

theorem fades_chain (q : Nat) {p : Reader Formula} (h : Fades p) : Fades (chain (operatorsAt q) p) := by
  refine h.bind fun first => (Firm.many _).bind fun more => ?_
  split
  · exact .tooDeep
  · exact .pure _

theorem forward_chains (levels : List Nat) {p : Reader Formula} (h : Forward p) (leaves : Leaves p) :
    Forward (chains levels p) := by
  induction levels with
  | nil => exact h
  | cons level tighter ih => exact forward_chain level ih (leaves_chains tighter leaves)

theorem fades_chains (levels : List Nat) {p : Reader Formula} (h : Fades p) : Fades (chains levels p) := by
  induction levels with
  | nil => exact h
  | cons level tighter ih => exact fades_chain level ih

theorem fades_parenthesized (deeper : Grammar) : Fades (do skip; parenthesized deeper) :=
  (picks_char (by decide)).fades.bind fun _ => .cut _

theorem fades_arguments (deeper : Grammar) : Fades (do skip; arguments deeper) :=
  (picks_char (by decide)).fades.bind fun _ => (Firm.cut _).reporting _

theorem fades_named (deeper : Grammar) : Fades (do skip; named deeper) := by
  refine picks_word.fades.bind fun name => (Firm.optional _).bind fun args => ?_
  cases args with
  | none => exact .pure _
  | some args => exact .pure _

theorem fades_primary (deeper : Grammar) : Fades (primary deeper) := by
  refine Fades.orElse (fades_parenthesized deeper) (.orElse ?_ (.orElse ?_ (fades_named deeper)))
  · exact picks_number.fades.bind fun x => .pure _
  · exact picks_textConstant.fades.bind fun s => .pure _

theorem fades_signedAbove (deeper : Grammar) : Fades (signedAbove deeper) :=
  picks_sign.fades.optional_bind (fun _ => (firm_operand _).bind fun _ => .pure _) (fades_primary deeper)

theorem fades_powerAbove (deeper : Grammar) : Fades (powerAbove deeper) := by
  refine (fades_signedAbove deeper).bind fun base => (Firm.optional _).bind fun exponent => ?_
  cases exponent with
  | none => exact .pure _
  | some e => exact .pure _

theorem fades_branches (deeper : Grammar) : Fades (branches deeper) :=
  (picks_char (by decide)).fades.bind fun _ => .cut _

theorem fades_choiceAbove (deeper : Grammar) : Fades (choiceAbove deeper) := by
  refine (fades_chains _ (fades_powerAbove deeper)).bind fun condition => (Firm.optional _).bind fun found => ?_
  cases found with
  | none => exact .pure _
  | some e => exact .pure _

section Above

variable {deeper : Grammar} (h : Cutting deeper) (leaving : Leaving deeper)

include h

theorem forward_parenthesized : Forward (do skip; parenthesized deeper) := by
  refine (forward_char (by decide)).bind fun _ => .cut ?_
  refine ((h.choice.within _).wanting _).bind fun f => ?_
  exact (forward_closing (by decide)).bind fun _ => .pure f

include leaving

theorem forward_arguments : Forward (do skip; arguments deeper) := by
  have comma : Forward (do skip; Reader.char ',') := forward_char (by decide)
  have shortens : Shortens (do skip; Reader.char ',') := (picks_char (by decide)).shortens.skip
  have more : Fades (do
      skip
      Reader.char ','
      deeper.choice) := (picks_char (by decide)).fades_bind fun _ => h.fades
  have fades : Fades (Reader.separated deeper.choice do skip; Reader.char ',') :=
    h.fades.bind fun first => (Firm.many _).bind fun rest => .pure _
  refine (forward_char (by decide)).bind fun _ => .within (.cut ?_) _
  refine (Forward.optional (.separated h.choice (comma.bind fun _ => h.choice) more
    (shortens.bind_leaves fun _ => leaving.choice)) fades).bind fun args => ?_
  exact (forward_closing (by decide)).bind fun _ => .pure _

theorem forward_named : Forward (do skip; named deeper) := by
  have args := (forward_arguments h leaving).optional (fades_arguments deeper)
  refine forward_word.bind fun name => args.bind fun args => ?_
  cases args with
  | none => exact .pure _
  | some args => exact .pure _

theorem forward_primary : Forward (primary deeper) := by
  have number : Forward (do
      skip
      return Formula.atom (.number (← number))) := forward_number.bind fun x => .pure _
  have text : Forward (do
      skip
      return Formula.atom (.text (← textConstant))) := forward_textConstant.bind fun s => .pure _
  exact Forward.orElse (forward_parenthesized h) (fades_parenthesized deeper) <|
    .orElse number (picks_number.fades.bind fun x => .pure _) <|
      .orElse text (picks_textConstant.fades.bind fun s => .pure _) (forward_named h leaving)

theorem forward_signedAbove : Forward (signedAbove deeper) := by
  refine (forward_sign.optional picks_sign.fades).bind fun op => ?_
  cases op with
  | none => exact forward_primary h leaving
  | some op => exact (forward_operand h.signed).bind fun x => .pure _

theorem forward_powerAbove : Forward (powerAbove deeper) := by
  have fades : Fades (do
      skip
      Reader.char '^'
      operand deeper.power) := (picks_char (by decide)).fades.bind fun _ => firm_operand _
  refine (forward_signedAbove h leaving).bind fun base => ?_
  refine (Forward.optional ((forward_char (by decide)).bind fun _ => forward_operand h.power) fades).bind
    fun exponent => ?_
  cases exponent with
  | none => exact .pure _
  | some e => exact .pure _

omit leaving in
theorem forward_branches : Forward (branches deeper) := by
  refine (forward_char (by decide)).bind fun _ => .cut ?_
  refine ((h.choice.within _).wanting _).bind fun yes => ?_
  exact (forward_closing (by decide)).bind fun _ => h.choice.bind fun no => .pure _

theorem forward_choiceAbove : Forward (choiceAbove deeper) := by
  refine (forward_chains _ (forward_powerAbove h leaving) (leaves_powerAbove leaving)).bind fun condition => ?_
  refine ((forward_branches h).optional (fades_branches deeper)).bind fun found => ?_
  cases found with
  | none => exact .pure _
  | some e => exact .pure _

end Above

theorem cutting_ofLevels (n : Nat) : Cutting (ofLevels n) := by
  induction n with
  | zero => exact ⟨.tooDeep, .of_firm .tooDeep, .tooDeep, .tooDeep⟩
  | succ n ih =>
    have leaving := leaving_ofLevels n
    exact ⟨forward_choiceAbove ih leaving, fades_choiceAbove _, forward_powerAbove ih leaving,
      forward_signedAbove ih leaving⟩

end Grammar

end DerivedColumns.Formula
