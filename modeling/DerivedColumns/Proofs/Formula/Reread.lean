import DerivedColumns.Proofs.Formula.Depth
import DerivedColumns.Proofs.Formula.Primary

set_option autoImplicit false

namespace DerivedColumns.Formula

open Reader (Takes)
open Grammar

variable {n p q : Nat} {g s t rest : List Char} {f : Formula} {P Q : Prop}

/-! ### What is shown of every formula -/

def ReadsOwn (f : Formula) : Prop :=
  ∀ ⦃n : Nat⦄ ⦃g s rest : List Char⦄, Blank g → Spells f s → Stops f.precedence rest →
    Takes (level (n + 1) f.precedence) (g ++ (s ++ rest)) f rest (f.nesting ≤ n + 1 ∧ f.Low)

def ReadsHead (q : Nat) (f : Formula) : Prop :=
  ∀ ⦃n : Nat⦄ ⦃g s tail rest : List Char⦄ ⦃more : List (BinaryOp × Formula)⦄ ⦃Q : Prop⦄,
    Blank g → Spells f s → Stops (q + 1) tail → Takes (Reader.many (link n q)) tail more rest Q →
    Takes (chain (operatorsAt q) (level (n + 1) (q + 1))) (g ++ (enclose (f.precedence < q) s ++ tail))
      (foldLeft (spine q f).1 ((spine q f).2 ++ more)) rest
      (Linked (n + 1) q f ∧ Q ∧ chainHeight (spine q f).1 ((spine q f).2 ++ more) ≤ maxHeight)

structure Rereads (f : Formula) : Prop where
  own : ReadsOwn f
  head : ∀ q, 2 ≤ q → q ≤ 7 → ReadsHead q f

theorem soft_sign_of_precedence (built : f.BuiltFrom Atom.Literal) (h : f.precedence = 10) (blank : Blank g)
    (spells : Spells f s) : (sign (skipLayout (g ++ (s ++ rest)))).Soft := by
  rw [(starts_of_spells f built spells).skip blank]
  have opens : ∃ c more, s = c :: more ∧ Opens c := by
    cases f with
    | atom a =>
      rw [Spells] at spells
      obtain ⟨c, more, e, opens⟩ := opens_atom built
      exact ⟨c, more, spells.trans e, opens⟩
    | call name args =>
      obtain ⟨c, more, e, opens⟩ := opens_word built.1
      cases args with
      | nil =>
        rw [Spells] at spells
        obtain ⟨_, -, rfl⟩ := spells
        exact ⟨c, _, by rw [e]; rfl, opens⟩
      | cons f fs =>
        rw [Spells] at spells
        obtain ⟨_, _, _, _, -, -, -, -, rfl⟩ := spells
        exact ⟨c, _, by rw [e]; rfl, opens⟩
    | binary op l r => cases op <;> simp [precedence, BinaryOp.precedence] at h
    | unary op x => simp [precedence, unaryPrecedence] at h
    | choice c t f => simp [precedence, choicePrecedence] at h
    | group | rank | analysis => exact built.elim
  obtain ⟨c, more, rfl, opens⟩ := opens
  exact soft_sign opens.unsigned _

/-- Read without parentheses. -/
theorem ReadsOwn.looser (own : ReadsOwn f) (built : f.BuiltFrom Atom.Literal) (pos : 1 ≤ p)
    (le : p ≤ f.precedence) (blank : Blank g) (spells : Spells f s) (stops : Stops p rest) :
    Takes (level n p) (g ++ (s ++ rest)) f rest (Fits n p f) := by
  have loose : f.enclosing p = 0 := if_neg (by omega)
  cases n with
  | zero => exact Reader.takes_tooDeep not_fits_zero _ _ _
  | succ n =>
    have ownHeight : f.precedence ≤ 7 → 2 ≤ f.precedence → f.Low → f.height ≤ maxHeight := by
      intro tight isChain low
      obtain ⟨op, l, r, rfl⟩ := binary_of_precedence isChain tight rfl
      rw [Low, if_neg (precedence_pow.1 tight)] at low
      exact Nat.le_trans (height_le_reach _ _) low.2.2
    have here := own (n := n) blank spells (stops.mono le)
    by_cases isChoice : f.precedence = choicePrecedence
    · obtain rfl : p = f.precedence := by
        rw [isChoice] at le ⊢
        exact Nat.le_antisymm le pos
      refine here.congr ⟨fun can => ?_, fun fits => ⟨?_, fits.low⟩⟩
      · exact ⟨by rw [loose]; exact can.1, can.2, fun _ => .inl isChoice,
          fun _ => .inl ⟨Nat.le_of_eq isChoice, isChoice⟩⟩
      · have nesting := fits.nesting
        rwa [loose] at nesting
    · have tight : 2 ≤ f.precedence := by
        have := f.precedence_pos
        have : choicePrecedence = 1 := rfl
        omega
      have down := takes_looser here stops pos le f.precedence_le
        (fun primary => soft_sign_of_precedence built primary blank spells)
        (fun chain can => ownHeight chain tight can.2)
      refine down.congr ⟨fun can => ?_, fun fits => ⟨⟨?_, fits.low⟩, fun chain => ?_⟩⟩
      · exact ⟨by rw [loose]; exact can.1.1, can.1.2, fun no => absurd no (by omega),
          fun chain => .inr (can.2 chain)⟩
      · have nesting := fits.nesting
        rwa [loose] at nesting
      · exact (fits.height chain).resolve_left fun choice => isChoice choice.2

theorem ReadsOwn.at (own : ReadsOwn f) (built : f.BuiltFrom Atom.Literal) (pos : 1 ≤ p) (le : p ≤ 10)
    (blank : Blank g) (spells : Spells f s) (stops : Stops p rest) :
    Takes (level n p) (g ++ (enclose (f.precedence < p) s ++ rest)) f rest (Fits n p f) := by
  by_cases bare : p ≤ f.precedence
  · rw [decide_eq_false (by omega)]
    exact own.looser built pos bare blank spells stops
  · have parenthesized : f.enclosing p = 1 := if_pos (by omega)
    rw [decide_eq_true (by omega)]
    cases n with
    | zero => exact Reader.takes_tooDeep not_fits_zero _ _ _
    | succ n =>
      have inner := own.looser (n := n) built (Nat.le_refl 1) f.precedence_pos blank_nil spells
        ((Ends.close rest).stops blank_nil)
      have text : g ++ (enclose true s ++ rest) = g ++ '(' :: (s ++ ')' :: rest) := by
        simp only [enclose, if_true, List.cons_append, List.append_assoc, List.nil_append]
      have whole := takes_parentheses blank inner
      rw [text]
      have unsigned : (sign (skipLayout (g ++ '(' :: (s ++ ')' :: rest)))).Soft := by
        rw [skipLayout_blank blank, skipLayout_cons rfl (by decide)]
        exact soft_sign rfl _
      refine (takes_looser whole stops pos le (Nat.le_refl 10) (fun _ => unsigned)
        (fun no => absurd no (by decide))).congr ?_
      rw [fits_one]
      constructor
      · rintro ⟨⟨nesting, low, settled⟩, height⟩
        exact ⟨by omega, low, fun _ => settled, fun chain => .inr (height chain)⟩
      · intro fits
        have nesting := fits.nesting
        refine ⟨⟨by omega, fits.low, fits.enclosed (by omega)⟩, fun chain => ?_⟩
        exact (fits.height chain).resolve_left fun choice => by
          have := f.precedence_pos
          omega

theorem ReadsOwn.operand (own : ReadsOwn f) (built : f.BuiltFrom Atom.Literal) (pos : 1 ≤ p) (le : p ≤ 10)
    (blank : Blank g) (spells : Spells f s) (stops : Stops p rest) :
    Takes (operand (level n p)) (g ++ (enclose (f.precedence < p) s ++ rest)) f rest (Fits n p f) :=
  (((own.at built pos le blank spells stops).within _).wanting _).cut

theorem ReadsOwn.head (own : ReadsOwn f) (built : f.BuiltFrom Atom.Literal) (low : 2 ≤ q) (high : q ≤ 7)
    (other : f.precedence ≠ q) : ReadsHead q f := by
  intro n g s tail rest more Q blank spells stops links
  have alone : spine q f = (f, []) := by
    cases f with
    | binary op l r => exact if_neg other
    | _ => rfl
  have place : decide (f.precedence < q) = decide (f.precedence < q + 1) := decide_eq_decide.2 (by omega)
  rw [alone, place, linked_of_ne other]
  exact (own.at built (by omega) (by omega) blank spells stops).bind fun _ =>
    links.bind fun _ => takes_check f more rest

/-! ### One way of building after the other -/

theorem rereads_of_own (own : ReadsOwn f) (built : f.BuiltFrom Atom.Literal)
    (other : ∀ q, 2 ≤ q → q ≤ 7 → f.precedence ≠ q) : Rereads f :=
  ⟨own, fun q low high => own.head built low high (other q low high)⟩

theorem takes_link {op : BinaryOp} {r : Formula} (notPow : op ≠ .pow) (built : r.BuiltFrom Atom.Literal)
    (own : ReadsOwn r) (spells : Spells r s) (stops : Stops (op.precedence + 1) rest) :
    Takes (link n op.precedence)
      (' ' :: (op.symbol ++ ' ' :: (enclose (r.precedence < op.precedence + 1) s ++ rest))) (op, r) rest
      (Fits (n + 1) (op.precedence + 1) r) := by
  have bound := precedence_pow.2 notPow
  have operand := own.operand (n := n + 1) built (Nat.le_add_left 1 _) (by omega) blank_space spells stops
  have symbol : skip (' ' :: (op.symbol ++ ' ' ::
      (enclose (r.precedence < op.precedence + 1) s ++ rest))) =
      .ok () (op.symbol ++ ' ' :: (enclose (r.precedence < op.precedence + 1) s ++ rest)) := by
    rw [skip, ← List.singleton_append, skipLayout_blank blank_space,
      (Ends.symbol op (Nat.lt_succ_self _) _).skip]
  exact .after symbol (.after (operator_symbol notPow _) (operand.map fun right => (op, right)))

theorem takes_noLink (stops : Stops q rest) : Takes (Reader.many (link n q)) rest [] rest True :=
  .of_eq (Takes.many_of_soft (soft_skip (Reader.soft_bind (stops.skip.soft_operator (Nat.le_refl _)))))

/-- The left operand of a chain is its head, and the operator with the right operand one more link. -/
theorem readsHead_chain {op : BinaryOp} {l r : Formula} (notPow : op ≠ .pow)
    (built : (Formula.binary op l r).BuiltFrom Atom.Literal) (left : ReadsHead op.precedence l)
    (right : ReadsOwn r) : ReadsHead op.precedence (.binary op l r) := by
  intro n g s tail rest more Q blank spells stops links
  rw [Spells, leftContext_of_ne notPow, rightContext_of_ne notPow] at spells
  obtain ⟨sl, sr, spellsLeft, spellsRight, rfl⟩ := spells
  have next : Takes (Reader.many (link n op.precedence)) (' ' :: (op.symbol ++ ' ' ::
      (enclose (r.precedence < op.precedence + 1) sr ++ tail))) ((op, r) :: more) rest
      (Fits (n + 1) (op.precedence + 1) r ∧ Q) := by
    refine Takes.many_cons (takes_link notPow built.2 right spellsRight stops) ?_ fun _ => links
    simp only [List.length_cons, List.length_append]
    omega
  -- The head takes the links as they come, so the one for `op` is put before those that follow.
  have whole := left blank spellsLeft
    ((Ends.symbol op (Nat.lt_succ_self _) _).stops blank_space) next
  have bare : decide ((Formula.binary op l r).precedence < op.precedence) = false :=
    decide_eq_false (Nat.lt_irrefl op.precedence)
  have chain : spine op.precedence (.binary op l r) =
      ((spine op.precedence l).1, (spine op.precedence l).2 ++ [(op, r)]) := if_pos rfl
  have linked : Linked (n + 1) op.precedence (.binary op l r) =
      (Linked (n + 1) op.precedence l ∧ Fits (n + 1) (op.precedence + 1) r) := if_pos rfl
  rw [bare, chain, linked]
  simp only [enclose, Bool.false_eq_true, if_false, List.append_assoc, List.cons_append,
    List.nil_append] at whole ⊢
  refine whole.congr ?_
  simp only [and_assoc]

theorem readsOwn_chain {op : BinaryOp} {l r : Formula} (notPow : op ≠ .pow)
    (head : ReadsHead op.precedence (.binary op l r)) : ReadsOwn (.binary op l r) := by
  intro n g s rest blank spells stops
  have high := precedence_pow.2 notPow
  have low : 2 ≤ op.precedence := by cases op <;> decide
  have whole := head blank spells (stops.mono (Nat.le_succ _)) (takes_noLink (n := n) stops)
  have bare : decide ((Formula.binary op l r).precedence < op.precedence) = false :=
    decide_eq_false (Nat.lt_irrefl op.precedence)
  have place : enclosing (.binary op l r) op.precedence = 0 := if_neg (Nat.lt_irrefl op.precedence)
  rw [List.append_nil, foldLeft_spine, bare] at whole
  change Takes (level (n + 1) op.precedence) _ _ _ _
  rw [level_chain low high]
  refine whole.congr ⟨fun can => ?_, fun can => ?_⟩
  · have levels := (linked_iff low high _ can.2.2).1 can.1
    rw [place] at levels
    exact levels
  · have reached := can.2
    rw [Low, if_neg notPow] at reached
    refine ⟨(linked_iff low high _ reached.2.2).2 ?_, trivial, reached.2.2⟩
    rwa [place]

theorem readsOwn_power {l r : Formula} (built : (Formula.binary .pow l r).BuiltFrom Atom.Literal)
    (left : ReadsOwn l) (right : ReadsOwn r) : ReadsOwn (.binary .pow l r) := by
  intro n g s rest blank spells stops
  rw [Spells] at spells
  obtain ⟨sl, sr, spellsLeft, spellsRight, rfl⟩ := spells
  have base := left.at (n := n + 1) built.1 (p := 9) (by decide) (by decide) blank spellsLeft
    ((Ends.symbol .pow (by decide) (enclose (r.precedence < BinaryOp.rightContext .pow) sr ++ rest)).stops
      blank_space)
  have exponent := right.operand (n := n) built.2 (p := 8) (by decide) (by decide) blank_space spellsRight
    stops
  have text : g ++ (enclose (l.precedence < BinaryOp.leftContext .pow) sl ++
      ' ' :: (BinaryOp.symbol .pow ++ ' ' :: enclose (r.precedence < BinaryOp.rightContext .pow) sr) ++ rest) =
      g ++ (enclose (l.precedence < 9) sl ++ ([' '] ++ (BinaryOp.symbol .pow ++
        ' ' :: (enclose (r.precedence < BinaryOp.rightContext .pow) sr ++ rest)))) := by
    simp only [List.append_assoc, List.cons_append, List.nil_append]
    rfl
  rw [text]
  refine Takes.congr (P := Fits (n + 1) 9 l ∧ Fits n 8 r) ?_ ?_
  · refine base.bind fun _ => ?_
    rw [power_ofLevels]
    have raised : Takes (do skip; Reader.char '^'; operand (level n 8))
        (' ' :: '^' :: ' ' :: (enclose (r.precedence < BinaryOp.rightContext .pow) sr ++ rest)) r rest
        (Fits n 8 r) :=
      .after (skip_to blank_space rfl (by decide) _) (.after (Reader.char_self '^' _) exponent)
    refine (raised.optional.bind fun _ => ?_).congr (iff_of_eq (and_true _))
    exact .pure _ rest
  rw [fits_tight (by decide), fits_tight (by decide), nesting, Low, if_pos rfl, if_pos rfl]
  simp only [BinaryOp.leftContext, BinaryOp.rightContext]
  constructor
  · rintro ⟨⟨nestingLeft, lowLeft, settledLeft⟩, nestingRight, lowRight, settledRight⟩
    exact ⟨by omega, lowLeft, lowRight, settledLeft, settledRight⟩
  · rintro ⟨levels, lowLeft, lowRight, settledLeft, settledRight⟩
    exact ⟨⟨by omega, lowLeft, settledLeft⟩, by omega, lowRight, settledRight⟩

theorem readsOwn_unary {op : UnaryOp} {x : Formula} (built : (Formula.unary op x).BuiltFrom Atom.Literal)
    (own : ReadsOwn x) : ReadsOwn (.unary op x) := by
  intro n g s rest blank spells stops
  have starts := starts_of_spells _ built spells
  rw [Spells] at spells
  obtain ⟨sx, spellsOperand, rfl⟩ := spells
  have skipped : skip (g ++ (op.symbol :: enclose (x.precedence < unaryPrecedence) sx ++ rest)) =
      .ok () (op.symbol :: (enclose (x.precedence < unaryPrecedence) sx ++ rest)) := by
    rw [skip, starts.skip blank, List.cons_append]
  have inner : Starts (enclose (x.precedence < unaryPrecedence) sx ++ rest) :=
    (starts_enclose (starts_of_spells x built spellsOperand)).append rest
  have operand := own.operand (n := n) built (p := 9) (by decide) (by decide) blank_nil spellsOperand stops
  have whole : Takes (signedAbove (ofLevels n)) (g ++ (op.symbol ::
      enclose (x.precedence < unaryPrecedence) sx ++ rest)) (Formula.unary op x) rest (Fits n 9 x) := by
    refine .after (Takes.optional (.after skipped (.of_eq (sign_symbol op inner))) |>.ok trivial) ?_
    rw [signed_ofLevels]
    exact operand.map fun x => Formula.unary op x
  refine whole.congr ?_
  rw [fits_tight (by decide), nesting, Low]
  exact and_congr_left fun _ => Nat.add_le_add_iff_right.symm

theorem readsOwn_choice {c t f : Formula} (built : (Formula.choice c t f).BuiltFrom Atom.Literal)
    (condition : ReadsOwn c) (yes : ReadsOwn t) (no : ReadsOwn f) : ReadsOwn (.choice c t f) := by
  intro n g s rest blank spells stops
  rw [Spells] at spells
  obtain ⟨gap, gap', sc, st, sf, blankGap, blankGap', spellsCondition, spellsYes, spellsNo, rfl⟩ := spells
  have first := condition.at (n := n + 1) built.1 (p := choicePrecedence + 1) (by decide) (by decide) blank
    spellsCondition ((Ends.question (by decide) (' ' :: (st ++ (gap' ++ ':' :: ' ' :: (sf ++ rest))))).stops
      blankGap)
  have second := yes.looser (n := n) built.2.1 (Nat.le_refl 1) t.precedence_pos blank_space spellsYes
    ((Ends.colon (' ' :: (sf ++ rest))).stops blankGap')
  have third := no.looser (n := n) built.2.2 (Nat.le_refl 1) f.precedence_pos blank_space spellsNo stops
  have text : g ++ (enclose (c.precedence < choicePrecedence + 1) sc ++
      (gap ++ '?' :: ' ' :: (st ++ (gap' ++ ':' :: ' ' :: sf))) ++ rest) =
      g ++ (enclose (c.precedence < choicePrecedence + 1) sc ++
        (gap ++ '?' :: ' ' :: (st ++ (gap' ++ ':' :: ' ' :: (sf ++ rest))))) := by
    simp only [List.append_assoc, List.cons_append]
  rw [text]
  refine Takes.congr (P := Fits (n + 1) (choicePrecedence + 1) c ∧ Fits n 1 t ∧ Fits n 1 f) ?_ ?_
  · refine first.bind fun _ => ?_
    have branches : Takes (branches (ofLevels n))
        (gap ++ '?' :: ' ' :: (st ++ (gap' ++ ':' :: ' ' :: (sf ++ rest)))) (t, f) rest
        (Fits n 1 t ∧ Fits n 1 f) := by
      refine .after (skip_to blankGap rfl (by decide) _) (.after (Reader.char_self '?' _) (.cut ?_))
      rw [choice_ofLevels]
      refine ((second.within _).wanting _).bind fun _ => .after (skip_to blankGap' rfl (by decide) _) ?_
      exact .after ((Takes.of_eq (Reader.char_self ':' _)).wanting _ |>.ok trivial)
        (third.map fun no => (t, no))
    refine (branches.optional.bind fun _ => ?_).congr (iff_of_eq (and_true _))
    exact .pure _ rest
  · rw [fits_condition, fits_one, fits_one, nesting, Low]
    constructor
    · rintro ⟨⟨levels, lowCondition, height⟩, ⟨nestingYes, lowYes, settledYes⟩, nestingNo, lowNo, settledNo⟩
      exact ⟨by omega, lowCondition, height, lowYes, settledYes, lowNo, settledNo⟩
    · rintro ⟨levels, lowCondition, height, lowYes, settledYes, lowNo, settledNo⟩
      exact ⟨⟨by omega, lowCondition, height⟩, ⟨by omega, lowYes, settledYes⟩, by omega, lowNo, settledNo⟩

/-! ### Calls -/

def argument (n : Nat) : Reader Formula := do
  (do skip; Reader.char ',')
  level n 1

def ReadsMore (fs : List Formula) : Prop :=
  ∀ ⦃n : Nat⦄ ⦃t gap rest : List Char⦄, 1 ≤ n → SpellsMore fs t → Blank gap →
    Takes (Reader.many (argument n)) (t ++ (gap ++ ')' :: rest)) fs (gap ++ ')' :: rest)
      (nestingAll fs ≤ n ∧ LowAll fs)

theorem readsMore_nil : ReadsMore [] := by
  intro n t gap rest levels spells blank
  rw [SpellsMore] at spells
  subst spells
  have noComma : (argument n (gap ++ ')' :: rest)).Soft := by
    refine Reader.soft_bind ?_
    rw [Outcome.Soft, Reader.bind_of_ok (skip_to blank rfl (by decide) rest)]
    exact Reader.soft_char fun e => by cases e
  rw [List.nil_append]
  refine (Takes.of_eq (Takes.many_of_soft noComma)).congr (iff_of_true trivial ⟨levels, ?_⟩)
  rw [LowAll]
  trivial

theorem SpellsMore.ends {fs : List Formula} (h : SpellsMore fs t) {gap : List Char} (blank : Blank gap)
    (rest : List Char) : Stops 1 (t ++ (gap ++ ')' :: rest)) := by
  cases fs with
  | nil =>
    rw [SpellsMore] at h
    subst h
    exact (Ends.close rest).stops blank
  | cons f fs =>
    rw [SpellsMore] at h
    obtain ⟨g, sf, t, -, -, -, rfl⟩ := h
    exact (Ends.comma _).stops blank_nil

theorem readsMore_cons {fs : List Formula} (built : f.BuiltFrom Atom.Literal) (own : ReadsOwn f)
    (more : ReadsMore fs) : ReadsMore (f :: fs) := by
  intro n t gap rest levels spells blank
  rw [SpellsMore] at spells
  obtain ⟨g, sf, t, blankBefore, spellsFirst, spellsMore, rfl⟩ := spells
  have first := own.looser (n := n) built (Nat.le_refl 1) f.precedence_pos blankBefore spellsFirst
    (spellsMore.ends blank rest)
  have text : ',' :: (g ++ (sf ++ t)) ++ (gap ++ ')' :: rest) =
      ',' :: (g ++ (sf ++ (t ++ (gap ++ ')' :: rest)))) := by
    simp only [List.append_assoc, List.cons_append]
  have comma : (do skip; Reader.char ',') (',' :: (g ++ (sf ++ (t ++ (gap ++ ')' :: rest))))) =
      .ok () (g ++ (sf ++ (t ++ (gap ++ ')' :: rest)))) :=
    (Reader.bind_of_ok (skip_to blank_nil rfl (by decide) _)).trans (Reader.char_self ',' _)
  rw [text]
  have item : Takes (argument n) (',' :: (g ++ (sf ++ (t ++ (gap ++ ')' :: rest))))) f
      (t ++ (gap ++ ')' :: rest)) (Fits n 1 f) := .after comma first
  refine (Takes.many_cons item ?_ fun _ => more levels spellsMore blank).congr ?_
  · simp only [List.length_cons, List.length_append]
    omega
  · rw [fits_one, nestingAll, LowAll]
    constructor
    · rintro ⟨⟨nestingFirst, lowFirst, settled⟩, nestingMore, lowMore⟩
      exact ⟨by omega, lowFirst, settled, lowMore⟩
    · rintro ⟨levels, lowFirst, settled, lowMore⟩
      exact ⟨⟨by omega, lowFirst, settled⟩, by omega, lowMore⟩

theorem readsOwn_call_nil {name : String} (isName : isWord name.toList = true) :
    ReadsOwn (.call name []) := by
  intro n g s rest blank spells stops
  rw [Spells] at spells
  obtain ⟨gap, blankGap, rfl⟩ := spells
  have none : Takes (Reader.optional (Reader.separated (level n 1) (do skip; Reader.char ',')))
      (gap ++ ')' :: rest) none (gap ++ ')' :: rest) (1 ≤ n) := by
    cases n with
    | zero => exact ⟨fun no => absurd no (by decide), fun _ => ⟨_, rfl⟩⟩
    | succ n =>
      refine (Takes.of_eq (Takes.optional_of_soft (Reader.soft_bind ?_))).congr
        (iff_of_true trivial (Nat.le_add_left 1 n))
      exact soft_level blankGap rest
  have text : name.toList ++ '(' :: (gap ++ [')']) ++ rest = name.toList ++ '(' :: (gap ++ ')' :: rest) := by
    simp only [List.append_assoc, List.cons_append, List.nil_append]
  rw [text]
  refine (takes_call isName blank (takes_arguments blankGap rfl none)).congr ?_
  rw [nesting, nestingAll, Low, LowAll]
  exact ⟨fun levels => ⟨Nat.succ_le_succ levels, trivial⟩, fun can => Nat.le_of_succ_le_succ can.1⟩

theorem readsOwn_call_cons {name : String} {fs : List Formula} (isName : isWord name.toList = true)
    (built : f.BuiltFrom Atom.Literal) (own : ReadsOwn f) (more : ReadsMore fs) :
    ReadsOwn (.call name (f :: fs)) := by
  intro n g s rest blank spells stops
  rw [Spells] at spells
  obtain ⟨gap, gap', sf, t, blankGap, blankGap', spellsFirst, spellsMore, rfl⟩ := spells
  have first := own.looser (n := n) built (Nat.le_refl 1) f.precedence_pos blankGap spellsFirst
    (spellsMore.ends blankGap' rest)
  have text : name.toList ++ '(' :: (gap ++ (sf ++ (t ++ (gap' ++ [')'])))) ++ rest =
      name.toList ++ '(' :: (gap ++ (sf ++ (t ++ (gap' ++ ')' :: rest)))) := by
    simp only [List.append_assoc, List.cons_append, List.nil_append]
  have all : Takes (Reader.separated (level n 1) (do skip; Reader.char ','))
      (gap ++ (sf ++ (t ++ (gap' ++ ')' :: rest)))) (f :: fs) (gap' ++ ')' :: rest)
      (Fits n 1 f ∧ nestingAll fs ≤ n ∧ LowAll fs) :=
    first.bind fun fits => (more (Nat.le_trans f.nesting_pos (fits_one.1 fits).1) spellsMore blankGap').map
      fun rest => f :: rest
  rw [text]
  refine (takes_call isName blank (takes_arguments blankGap' rfl all.optional)).congr ?_
  rw [fits_one, nesting, nestingAll, Low, LowAll]
  constructor
  · rintro ⟨⟨nestingFirst, lowFirst, settled⟩, nestingMore, lowMore⟩
    exact ⟨by omega, lowFirst, settled, lowMore⟩
  · rintro ⟨levels, lowFirst, settled, lowMore⟩
    exact ⟨⟨by omega, lowFirst, settled⟩, by omega, lowMore⟩

/-! ### All formulas -/

theorem precedence_atom {a : Atom} (literal : a.Literal) : precedence (.atom a) = 10 := by
  cases a with
  | number x =>
    rw [precedence, literal.2]
    rfl
  | _ => rfl

theorem readsOwn_atom {a : Atom} (literal : a.Literal) : ReadsOwn (.atom a) := by
  intro n g s rest blank spells stops
  rw [Spells] at spells
  subst spells
  rw [precedence_atom literal]
  refine (takes_atom literal blank stops).congr (iff_of_true trivial ⟨Nat.le_add_left 1 n, ?_⟩)
  unfold Low
  trivial

mutual

theorem rereads : (f : Formula) → f.BuiltFrom Atom.Literal → Rereads f
  -- A chain must be read as the head of a longer chain too: the left operand of its own precedence has no
  -- parentheses, and the reader goes on with the links after it.
  | .atom a, built =>
    rereads_of_own (readsOwn_atom built) built
      fun q _ high => Nat.ne_of_gt (by rw [precedence_atom built]; omega)
  | .binary op l r, built => by
    have left := rereads l built.1
    have right := rereads r built.2
    by_cases pow : op = .pow
    · subst pow
      refine rereads_of_own (readsOwn_power built left.own right.own) built fun q _ high => ?_
      exact Nat.ne_of_gt (Nat.lt_succ_of_le high)
    · have low : 2 ≤ op.precedence := by cases op <;> decide
      have chain := readsHead_chain pow built (left.head _ low (precedence_pow.2 pow)) right.own
      have own := readsOwn_chain pow chain
      refine ⟨own, fun q low high => ?_⟩
      by_cases same : op.precedence = q
      · subst same
        exact chain
      · exact own.head built low high same
  | .unary op x, built =>
    rereads_of_own (readsOwn_unary built (rereads x built).own) built
      fun q _ high => Nat.ne_of_gt (by simp only [precedence, unaryPrecedence]; omega)
  | .choice c t f, built =>
    rereads_of_own (readsOwn_choice built (rereads c built.1).own (rereads t built.2.1).own
      (rereads f built.2.2).own) built fun q low _ => Nat.ne_of_lt low
  | .call name [], built =>
    rereads_of_own (readsOwn_call_nil built.1) built
      fun q _ high => Nat.ne_of_gt (by simp only [precedence, primaryPrecedence]; omega)
  | .call name (f :: fs), built =>
    rereads_of_own (readsOwn_call_cons built.1 built.2.1 (rereads f built.2.1).own
      (rereadsMore fs built.2.2)) built
      fun q _ high => Nat.ne_of_gt (by simp only [precedence, primaryPrecedence]; omega)
  | .group .., built => built.elim
  | .rank .., built => built.elim
  | .analysis .., built => built.elim

theorem rereadsMore : (fs : List Formula) → BuiltFromAll Atom.Literal fs → ReadsMore fs
  | [], _ => readsMore_nil
  | f :: fs, built => readsMore_cons built.1 (rereads f built.1).own (rereadsMore fs built.2)

end

/-- A written formula is the whole of what is read, exactly if it fits the levels. -/
theorem takes_spelled (built : f.BuiltFrom Atom.Literal) (spells : Spells f s) :
    Takes (level n 1) s f [] (Fits n 1 f) := by
  have whole := (rereads f built).own.looser (n := n) built (Nat.le_refl 1) f.precedence_pos blank_nil spells
    (Ends.text.stops blank_nil)
  rwa [List.nil_append, List.append_nil, List.append_nil] at whole

end DerivedColumns.Formula
