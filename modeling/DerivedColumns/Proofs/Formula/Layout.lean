import DerivedColumns.Proofs.Formula.Mentioned

set_option autoImplicit false

/-!
Readers of formulas see nothing of a text but its tokens: on two texts with the same tokens they do the same.
White space and comments between tokens therefore mean nothing.
-/

namespace DerivedColumns.Formula

inductive Outcome.Alike {α : Type} : Outcome α → Outcome α → Prop where
  | ok {a : α} {rest rest' : List Char} (h : tokens rest = tokens rest') : Alike (.ok a rest) (.ok a rest')
  | soft {f f' : Failure} : Alike (.soft f) (.soft f')
  | hard {f f' : Failure} : Alike (.hard f) (.hard f')

/-- The reader sees nothing but the tokens. -/
def Blind {α : Type} (p : Reader α) : Prop := ∀ s t, tokens s = tokens t → (p s).Alike (p t)

def Shortens {α : Type} (p : Reader α) : Prop := ∀ s a rest, p s = .ok a rest → rest.length < s.length

namespace Blind

variable {α β : Type} {p q : Reader α} {next : α → Reader β}

theorem pure (a : α) : Blind (Pure.pure a : Reader α) := fun _ _ same => .ok same

theorem bind (h : Blind p) (hnext : ∀ a, Blind (next a)) : Blind (p >>= next) := by
  intro s t same
  have first := h s t same
  simp only [Bind.bind]
  generalize p s = o at first ⊢
  generalize p t = o' at first ⊢
  cases first with
  | ok left => exact hnext _ _ _ left
  | soft => exact .soft
  | hard => exact .hard

theorem tooDeep : Blind (Reader.tooDeep : Reader α) := fun _ _ _ => .hard

theorem reporting (h : Blind p) (change : Cause → Cause) : Blind (p.reporting change) := by
  intro s t same
  have first := h s t same
  unfold Reader.reporting
  generalize p s = o at first ⊢
  generalize p t = o' at first ⊢
  cases first with
  | ok left => exact .ok left
  | soft => exact .soft
  | hard => exact .hard

theorem within (h : Blind p) (label : String) : Blind (p.within label) := h.reporting _

theorem wanting (h : Blind p) (e : Expected) : Blind (p.wanting e) := h.reporting _

theorem cut (h : Blind p) : Blind p.cut := by
  intro s t same
  have first := h s t same
  unfold Reader.cut
  generalize p s = o at first ⊢
  generalize p t = o' at first ⊢
  cases first with
  | ok left => exact .ok left
  | soft => exact .hard
  | hard => exact .hard

theorem optional (h : Blind p) : Blind p.optional := by
  intro s t same
  have first := h s t same
  unfold Reader.optional
  generalize p s = o at first ⊢
  generalize p t = o' at first ⊢
  cases first with
  | ok left => exact .ok left
  | soft => exact .ok same
  | hard => exact .hard

theorem orElse (hp : Blind p) (hq : Blind q) : Blind (p.orElse q) := by
  intro s t same
  have first := hp s t same
  have second := hq s t same
  unfold Reader.orElse
  generalize p s = o at first ⊢
  generalize p t = o' at first ⊢
  cases first with
  | ok left => exact .ok left
  | soft => exact second
  | hard => exact .hard

theorem many (h : Blind p) (shortens : Shortens p) : Blind p.many := by
  intro s t same
  -- The repetition stops where nothing was taken. The tokens do not tell the lengths, but `shortens` does.
  have first := h s t same
  have shorter := shortens s
  have shorter' := shortens t
  rw [Reader.many, Reader.many]
  cases taken : p s with
  | ok a rest =>
    rw [taken] at first
    have less := shorter a rest taken
    generalize p t = o at first shorter' ⊢
    cases first with
    | @ok _ _ rest' left =>
      have more := many h shortens rest rest' left
      simp only [less, shorter' a rest' rfl, if_true]
      generalize p.many rest = m at more ⊢
      generalize p.many rest' = m' at more ⊢
      cases more with
      | ok left => exact .ok left
      | soft => exact .soft
      | hard => exact .hard
  | soft f =>
    rw [taken] at first
    generalize p t = o at first ⊢
    cases first
    exact .ok same
  | hard f =>
    rw [taken] at first
    generalize p t = o at first ⊢
    cases first
    exact .hard
termination_by s => s.length
decreasing_by exact less

theorem separated {separator : Reader Unit} (h : Blind p) (hs : Blind (do separator; p))
    (shortens : Shortens (do separator; p)) : Blind (p.separated separator) :=
  h.bind fun first => (hs.many shortens).bind fun rest => pure (first :: rest)

end Blind

theorem Pick.Gives.alike {α : Type} {pick : Pick α} {rest rest' : List Char} {o o' : Outcome α}
    (h : pick.Gives rest o) (h' : pick.Gives rest' o') (left : tokens rest = tokens rest') : o.Alike o' := by
  cases pick with
  | take a =>
    cases h
    cases h'
    exact .ok left
  | pass =>
    obtain ⟨f, rfl⟩ := h
    obtain ⟨f', rfl⟩ := h'
    exact .soft
  | refuse =>
    obtain ⟨f, rfl⟩ := h
    obtain ⟨f', rfl⟩ := h'
    exact .hard

theorem Picks.blind {α : Type} {p : Reader α} {pick : Token → Pick α} (h : Picks p pick) :
    Blind (do skip; p) := by
  intro s t same
  show (p (skipLayout s)).Alike (p (skipLayout t))
  cases next : token? (skipLayout s) with
  | none =>
    have nil := token?_eq_none next
    rw [tokens_of_nil nil] at same
    cases next' : token? (skipLayout t) with
    | none =>
      rw [nil, token?_eq_none next']
      obtain ⟨f, soft⟩ := h.nil
      rw [soft]
      exact .soft
    | some found =>
      rw [tokens_of_token next'] at same
      cases same
  | some found =>
    obtain ⟨x, rest⟩ := found
    rw [tokens_of_token next] at same
    cases next' : token? (skipLayout t) with
    | none =>
      rw [tokens_of_nil (token?_eq_none next')] at same
      cases same
    | some found' =>
      obtain ⟨y, rest'⟩ := found'
      rw [tokens_of_token next'] at same
      obtain ⟨rfl, left⟩ := List.cons.inj same
      exact (h.token next).alike (h.token next') left

theorem Picks.shortens {α : Type} {p : Reader α} {pick : Token → Pick α} (h : Picks p pick) : Shortens p := by
  intro s a rest read
  obtain ⟨t, -, next⟩ := h.of_ok read
  exact token?_length next

theorem Shortens.bind {α β : Type} {p : Reader α} {next : α → Reader β} {W : α → β → List String → Prop}
    (h : Shortens p) (hnext : ∀ a, Tells (next a) (W a)) : Shortens (p >>= next) := by
  intro s b rest read
  obtain ⟨a, mid, first, second⟩ := Reader.bind_eq_ok_iff.1 read
  obtain ⟨names, part, -⟩ := hnext a mid b rest second
  exact Nat.lt_of_le_of_lt part.le (h s a mid first)

theorem Shortens.skip {α : Type} {p : Reader α} (h : Shortens p) : Shortens (do skip; p) :=
  fun s a rest read => Nat.lt_of_lt_of_le (h (skipLayout s) a rest read) (skipLayout_length_le s)

/-! ### The grammar -/

namespace Grammar

structure Unseeing (deeper : Grammar) : Prop where
  choice : Blind deeper.choice
  power : Blind deeper.power
  signed : Blind deeper.signed

theorem blind_operand {p : Reader Formula} (h : Blind p) : Blind (operand p) := ((h.within _).wanting _).cut

theorem blind_chain (q : Nat) {p : Reader Formula} (h : Blind p) (tells : Tells p Mentions) :
    Blind (chain (operatorsAt q) p) := by
  have right : ∀ op : BinaryOp, Tells (do let right ← operand p; return (op, right)) fun e names => Mentions e.2 names :=
    fun op => (tells_operand tells).bind fun right names reads => .pure (by rwa [List.append_nil])
  refine h.bind fun first => (Blind.many ?_ ?_).bind fun more => ?_
  · exact (picks_operator q).blind.bind fun op => (blind_operand h).bind fun right => .pure (op, right)
  · exact ((picks_operator q).shortens.bind right).skip
  · split
    · exact .tooDeep
    · exact .pure _

theorem blind_chains (levels : List Nat) {p : Reader Formula} (h : Blind p) (tells : Tells p Mentions) :
    Blind (chains levels p) := by
  induction levels with
  | nil => exact h
  | cons level tighter ih => exact blind_chain level ih (tells_chains tighter tells)

theorem blind_char {c : Char} (h : c ∈ delimiters) : Blind (do skip; Reader.char c) := (picks_char h).blind

theorem blind_closing {c : Char} (h : c ∈ delimiters) :
    Blind (do skip; Reader.wanting (.symbol c) (Reader.char c)) := (blind_char h).wanting _

section Above

variable {deeper : Grammar} (h : Unseeing deeper) (tells : Telling deeper)

include h

theorem blind_parenthesized : Blind (do skip; parenthesized deeper) := by
  refine (blind_char (by decide)).bind fun _ => .cut ?_
  refine ((h.choice.within _).wanting _).bind fun f => ?_
  exact (blind_closing (by decide)).bind fun _ => .pure f

include tells

theorem blind_arguments : Blind (do skip; arguments deeper) := by
  have comma : Blind (do skip; Reader.char ',') := blind_char (by decide)
  have shortens : Shortens (do skip; Reader.char ',') := (picks_char (by decide)).shortens.skip
  refine (blind_char (by decide)).bind fun _ => .within (.cut ?_) _
  refine (Blind.optional (.separated h.choice (comma.bind fun _ => h.choice)
    (shortens.bind fun _ => tells.choice))).bind fun args => ?_
  exact (blind_closing (by decide)).bind fun _ => .pure _

theorem blind_named : Blind (do skip; named deeper) := by
  refine picks_word.blind.bind fun name => (blind_arguments h tells).optional.bind fun args => ?_
  cases args with
  | none => exact .pure _
  | some args => exact .pure _

theorem blind_primary : Blind (primary deeper) := by
  refine Blind.orElse (blind_parenthesized h) (.orElse ?_ (.orElse ?_ (blind_named h tells)))
  · exact picks_number.blind.bind fun x => .pure _
  · exact picks_textConstant.blind.bind fun s => .pure _

theorem blind_signedAbove : Blind (signedAbove deeper) := by
  refine picks_sign.blind.optional.bind fun op => ?_
  cases op with
  | none => exact blind_primary h tells
  | some op => exact (blind_operand h.signed).bind fun x => .pure _

theorem blind_powerAbove : Blind (powerAbove deeper) := by
  refine (blind_signedAbove h tells).bind fun base => ?_
  refine (Blind.optional ((blind_char (by decide)).bind fun _ => blind_operand h.power)).bind fun exponent => ?_
  cases exponent with
  | none => exact .pure _
  | some e => exact .pure _

omit tells in
theorem blind_branches : Blind (branches deeper) := by
  refine (blind_char (by decide)).bind fun _ => .cut ?_
  refine ((h.choice.within _).wanting _).bind fun yes => ?_
  exact (blind_closing (by decide)).bind fun _ => h.choice.bind fun no => .pure _

theorem blind_choiceAbove : Blind (choiceAbove deeper) := by
  refine (blind_chains _ (blind_powerAbove h tells) (tells_powerAbove tells)).bind fun condition => ?_
  refine (blind_branches h).optional.bind fun found => ?_
  cases found with
  | none => exact .pure _
  | some e => exact .pure _

end Above

theorem unseeing_ofLevels (n : Nat) : Unseeing (ofLevels n) := by
  induction n with
  | zero => exact ⟨.tooDeep, .tooDeep, .tooDeep⟩
  | succ n ih =>
    have tells := telling_ofLevels n
    exact ⟨blind_choiceAbove ih tells, blind_powerAbove ih tells, blind_signedAbove ih tells⟩

end Grammar

/-- Texts with the same tokens are read as the same formula, or as none. -/
theorem toOption_parse_congr {s t : String} (same : tokens s.toList = tokens t.toList) :
    (parse s).toOption = (parse t).toOption := by
  have empty : (skipLayout s.toList).isEmpty = (skipLayout t.toList).isEmpty := by
    rw [Bool.eq_iff_iff, List.isEmpty_iff, List.isEmpty_iff, ← tokens_eq_nil_iff, same, tokens_eq_nil_iff]
  have alike := (Grammar.unseeing_ofLevels maxNesting).choice s.toList t.toList same
  unfold parse parseChars
  rw [empty]
  split
  · rfl
  generalize (Grammar.ofLevels maxNesting).choice s.toList = o at alike ⊢
  generalize (Grammar.ofLevels maxNesting).choice t.toList = o' at alike ⊢
  cases alike with
  | @ok f rest rest' left =>
    by_cases done : skipLayout rest = []
    · have done' : skipLayout rest' = [] := by rwa [← tokens_eq_nil_iff, ← left, tokens_eq_nil_iff]
      simp only [done, done']
    · have done' : skipLayout rest' ≠ [] := by rwa [ne_eq, ← tokens_eq_nil_iff, ← left, tokens_eq_nil_iff]
      obtain ⟨c, more, trailing⟩ := List.exists_cons_of_ne_nil done
      obtain ⟨c', more', trailing'⟩ := List.exists_cons_of_ne_nil done'
      simp only [trailing, trailing']
      rfl
  | soft => rfl
  | hard => rfl

/-! ### Layout -/

inductive Mix : List Char → Prop where
  | nil : Mix []
  | space {c : Char} {s : List Char} (hc : isSpace c = true) (h : Mix s) : Mix (c :: s)
  | comment {body ending s : List Char} (hb : ∀ c ∈ body, c ≠ '\r' ∧ c ≠ '\n')
      (he : ending = ['\n'] ∨ ending = ['\r', '\n']) (h : Mix s) : Mix ('/' :: '/' :: (body ++ (ending ++ s)))

/-- What may stand between two tokens: at least one white space first. -/
inductive IsLayout : List Char → Prop where
  | mk {c : Char} {s : List Char} (hc : isSpace c = true) (h : Mix s) : IsLayout (c :: s)

/-- The text has these words, with layout before and after each. -/
inductive Filled : List (List Char) → List Char → Prop where
  | nil {g : List Char} (hg : IsLayout g) : Filled [] g
  | cons {g w s : List Char} {ws : List (List Char)} (hg : IsLayout g) (h : Filled ws s) :
      Filled (w :: ws) (g ++ (w ++ s))

theorem skipLayout_space {c : Char} (hc : isSpace c = true) (s : List Char) : skipLayout (c :: s) = skipLayout s :=
  skipLayout_blank (.cons hc blank_nil) s

theorem skipLayout_comment {body rest : List Char} (hb : ∀ c ∈ body, c ≠ '\r' ∧ c ≠ '\n') (ends : EndsLine rest) :
    skipLayout ('/' :: '/' :: (body ++ rest)) = skipLayout rest := by
  rw [skipLayout.eq_def]
  dsimp only
  rw [if_neg (by decide)]
  split
  · rename_i more _ same
    cases same
    split
    · rename_i found
      rw [lineEnd?_append hb ends] at found
      cases found
      rfl
    · rename_i found
      rw [lineEnd?_append hb ends] at found
      cases found
  · rename_i other
    exact (other _ rfl rfl).elim

theorem Mix.skip {g : List Char} (h : Mix g) (s : List Char) : skipLayout (g ++ s) = skipLayout s := by
  induction h with
  | nil => rfl
  | space hc _ ih => rw [List.cons_append, skipLayout_space hc, ih]
  | @comment body ending g hb he _ ih =>
    rw [List.cons_append, List.cons_append, List.append_assoc, List.append_assoc]
    rcases he with rfl | rfl
    · rw [List.singleton_append, skipLayout_comment hb (.inr (.inl ⟨_, rfl⟩)), skipLayout_space rfl, ih]
    · rw [List.cons_append, List.singleton_append, skipLayout_comment hb (.inr (.inr ⟨_, rfl⟩)),
        skipLayout_space rfl, skipLayout_space rfl, ih]

theorem IsLayout.skip {g : List Char} (h : IsLayout g) (s : List Char) : skipLayout (g ++ s) = skipLayout s := by
  cases h with
  | mk hc h => rw [List.cons_append, skipLayout_space hc, h.skip]

theorem Filled.gap {ws : List (List Char)} {s : List Char} (h : Filled ws s) : Gap s := by
  intro c hc
  cases h with
  | nil hg =>
    cases hg
    cases hc
    assumption
  | cons hg _ =>
    cases hg
    cases hc
    assumption

theorem tokens_filled {ws : List (List Char)} (hw : ∀ w ∈ ws, IsToken w) :
    ∃ ts, ∀ s, Filled ws s → tokens s = ts := by
  induction ws with
  | nil =>
    refine ⟨[], fun s filled => tokens_of_nil ?_⟩
    cases filled with
    | nil hg => rw [← List.append_nil s, hg.skip, skipLayout]
  | cons w ws ih =>
    obtain ⟨ts, all⟩ := ih fun v hv => hw v (List.mem_cons_of_mem w hv)
    obtain ⟨t, proper, read⟩ := (hw w List.mem_cons_self).read
    refine ⟨t :: ts, fun s filled => ?_⟩
    cases filled with
    | @cons g _ rest _ hg more =>
      have next := read rest more.gap
      have here : skipLayout (w ++ rest) = w ++ rest :=
        skipLayout_of_token? next fun stray => by rw [stray] at proper; cases proper
      rw [tokens_of_token (by rw [hg.skip, here, next]), all rest more]

/-- However the gaps between the words of a text are filled, the text is read as the same formula, or as none. -/
theorem parse_filled {ws : List (List Char)} {s t : String} (hw : ∀ w ∈ ws, IsToken w) (hs : Filled ws s.toList)
    (ht : Filled ws t.toList) : (parse s).toOption = (parse t).toOption := by
  obtain ⟨ts, all⟩ := tokens_filled hw
  exact toOption_parse_congr (by rw [all _ hs, all _ ht])

theorem parse_filled_comment :
    (∀ w ∈ [['a'], ['/'], ['1', 'e', '5'], ['!', '='], ['\'', '/', '/', '\'']], IsToken w) ∧
      Filled [['a'], ['/'], ['1', 'e', '5'], ['!', '='], ['\'', '/', '/', '\'']] " a / 1e5 != '//' ".toList ∧
      Filled [['a'], ['/'], ['1', 'e', '5'], ['!', '='], ['\'', '/', '/', '\'']]
        "\ta //b\n/\r\n1e5 //\r\n!=  '//'\n".toList ∧
      (parse " a / 1e5 != '//' ").toOption.isSome = true ∧
      (parse " a / 1e5 != '//' ").toOption = (parse "\ta //b\n/\r\n1e5 //\r\n!=  '//'\n").toOption := by
  have words : ∀ w ∈ [['a'], ['/'], ['1', 'e', '5'], ['!', '='], ['\'', '/', '/', '\'']], IsToken w := by
    have digit : ∀ c ∈ ['1', '5'], Run [c] := by
      intro c hc
      refine ⟨List.cons_ne_nil c [], fun d hd => ?_⟩
      rw [List.mem_singleton.1 hd]
      simp only [List.mem_cons, List.not_mem_nil, or_false] at hc
      rcases hc with rfl | rfl <;> rfl
    have power : IsExponent ['e', '5'] := .some (.inl rfl) (.inl rfl) (digit '5' (by simp))
    have slashes : Inside '\'' ['/', '/'] := .plain (by decide) (by decide) (.plain (by decide) (by decide) .nil)
    simp only [List.forall_mem_cons]
    exact ⟨.name rfl, .symbol (by simp [symbols, singles]), .number (.whole (digit '1' (by simp)) power),
      .symbol (by simp [symbols]), .text (.inr rfl) slashes, List.forall_mem_nil _⟩
  have spaces : Filled [['a'], ['/'], ['1', 'e', '5'], ['!', '='], ['\'', '/', '/', '\'']]
      " a / 1e5 != '//' ".toList := by
    have space : IsLayout [' '] := .mk rfl .nil
    exact .cons space (.cons space (.cons space (.cons space (.cons space (.nil space)))))
  have comments : Filled [['a'], ['/'], ['1', 'e', '5'], ['!', '='], ['\'', '/', '/', '\'']]
      "\ta //b\n/\r\n1e5 //\r\n!=  '//'\n".toList := by
    have tab : IsLayout ['\t'] := .mk rfl .nil
    have line : IsLayout [' ', '/', '/', 'b', '\n'] :=
      .mk rfl (@Mix.comment ['b'] _ _ (by simp) (.inl rfl) .nil)
    have newline : IsLayout ['\r', '\n'] := .mk rfl (.space rfl .nil)
    have empty : IsLayout [' ', '/', '/', '\r', '\n'] := .mk rfl (@Mix.comment [] _ _ (List.forall_mem_nil _) (.inr rfl) .nil)
    have two : IsLayout [' ', ' '] := .mk rfl (.space rfl .nil)
    exact .cons tab (.cons line (.cons newline (.cons empty (.cons two (.nil (.mk rfl .nil))))))
  exact ⟨words, spaces, comments, by decide +kernel, parse_filled words spaces comments⟩

end DerivedColumns.Formula
