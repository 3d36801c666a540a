import DerivedColumns.Proofs.Formula.Canonical
import DerivedColumns.Proofs.Formula.Gauge

set_option autoImplicit false

namespace DerivedColumns.Formula

theorem mild_skip : Mild skip := fun s => mild_ok () (skipLayout s)

theorem mild_char (c : Char) : Mild (Reader.char c) := by
  intro s
  unfold Reader.char
  split
  · split
    · exact mild_ok _ _
    · exact mild_soft _ _ _
  · exact mild_soft _ _ _

theorem mild_word : Mild word := by
  intro s
  unfold word
  split
  · split
    · exact mild_ok _ _
    · exact mild_soft _ _ _
  · exact mild_soft _ _ _

theorem mild_number : Mild number := by
  intro s
  unfold number
  split
  · exact mild_soft _ _ _
  · dsimp only
    split
    · exact mild_ok _ _
    · exact mild_hard _ _ _

theorem mild_content (quote : Char) : Mild (content quote) := by
  intro s
  fun_induction content quote s with
  | case1 => exact mild_soft _ _ _
  | case2 => exact mild_ok _ _
  | case3 => exact mild_soft _ _ _
  | case4 => exact mild_ok _ _
  | case5 => assumption
  | case6 => exact mild_ok _ _
  | case7 => assumption

theorem mild_textBetween (quote : Char) : Mild (textBetween quote) := by
  refine (mild_char quote).bind fun _ => ?_
  refine .through (.wanting _) (.through (.within _) (.through .cut ?_))
  exact (mild_content quote).bind fun cs => (mild_char quote).bind fun _ => .pure _

theorem mild_textConstant : Mild textConstant := (mild_textBetween '"').orElse (mild_textBetween '\'')

theorem mild_operator (ops : List BinaryOp) : Mild (operator ops) := by
  intro s
  unfold operator
  dsimp only
  split
  · exact mild_ok _ _
  · exact mild_soft _ _ _

theorem mild_sign : Mild sign := by
  intro s
  unfold sign
  split
  · exact mild_ok _ _
  · exact mild_ok _ _
  · exact mild_soft _ _ _
  · exact mild_ok _ _
  · exact mild_soft _ _ _

namespace GaugedGrammar

open Grammar (exhausted ofLevels)

variable {n : Nat}

structure Keeping (n : Nat) (calls : GaugedGrammar) (deeper : Grammar) : Prop where
  choice : Keeps n calls.choice deeper.choice
  power : Keeps n calls.power deeper.power
  signed : Keeps n calls.signed deeper.signed

theorem keeps_skip : Keeps n (.flat skip) skip := .flat mild_skip

theorem keeps_char (c : Char) : Keeps n (.flat (Reader.char c)) (Reader.char c) := .flat (mild_char c)

theorem keeps_closing (c : Char) : Keeps n (.flat (Reader.wanting (.symbol c) (Reader.char c)))
    (Reader.wanting (.symbol c) (Reader.char c)) :=
  .flat (.through (.wanting _) (mild_char c))

theorem keeps_operand {p : Gauged Formula} {q : Reader Formula} (h : Keeps n p q) :
    Keeps n (operand p) (Grammar.operand q) :=
  h.through (Transparent.cut.comp ((Transparent.wanting _).comp (.within _)))

theorem keeps_chain (ops : List BinaryOp) {p : Gauged Formula} {q : Reader Formula} (h : Keeps n p q) :
    Keeps n (chain ops p) (Grammar.chain ops q) := by
  refine h.bind fun first => ?_
  refine (Keeps.many (keeps_skip.bind fun _ => ?_)).bind fun more => ?_
  · exact (Keeps.flat (mild_operator ops)).bind fun op => (keeps_operand h).bind fun right => .pure (op, right)
  · split
    · exact .tooDeep
    · exact .pure _

theorem keeps_chains (levels : List Nat) {p : Gauged Formula} {q : Reader Formula} (h : Keeps n p q) :
    Keeps n (chains levels p) (Grammar.chains levels q) := by
  induction levels with
  | nil => exact h
  | cons level tighter ih => exact keeps_chain _ ih

section Above

variable {calls : GaugedGrammar} {deeper : Grammar} (h : Keeping n calls deeper)

include h

theorem keeps_parenthesized : Keeps n (parenthesized calls) (Grammar.parenthesized deeper) := by
  refine (keeps_char '(').bind fun _ => .through .cut ?_
  refine ((h.choice.through (.within _)).through (.wanting _)).bind fun f => ?_
  exact keeps_skip.bind fun _ => (keeps_closing ')').bind fun _ => .pure f

theorem keeps_arguments : Keeps n (arguments calls) (Grammar.arguments deeper) := by
  refine (keeps_char '(').bind fun _ => .through (.within _) (.through .cut ?_)
  refine ((h.choice.separated (keeps_skip.bind fun _ => keeps_char ',')).through .optional).bind fun args => ?_
  exact keeps_skip.bind fun _ => (keeps_closing ')').bind fun _ => .pure _

theorem keeps_named : Keeps n (named calls) (Grammar.named deeper) := by
  refine (Keeps.flat mild_word).bind fun name => ?_
  refine ((keeps_skip.bind fun _ => keeps_arguments h).through .optional).bind fun args => ?_
  cases args with
  | none => exact .pure _
  | some args => exact .pure _

theorem keeps_primary : Keeps n (primary calls) (Grammar.primary deeper) := by
  refine keeps_skip.bind fun _ => (keeps_parenthesized h).orElse (.orElse ?_ (.orElse ?_ (keeps_named h)))
  · exact (Keeps.flat mild_number).bind fun x => .pure _
  · exact (Keeps.flat mild_textConstant).bind fun s => .pure _

theorem keeps_signedAbove : Keeps n (signedAbove calls) (Grammar.signedAbove deeper) := by
  refine ((keeps_skip.bind fun _ => .flat mild_sign).through .optional).bind fun op => ?_
  cases op with
  | none => exact keeps_primary h
  | some op => exact (keeps_operand h.signed).bind fun x => .pure _

theorem keeps_powerAbove : Keeps n (powerAbove calls) (Grammar.powerAbove deeper) := by
  refine (keeps_signedAbove h).bind fun base => ?_
  refine ((keeps_skip.bind fun _ => (keeps_char '^').bind fun _ => keeps_operand h.power).through
    .optional).bind fun exponent => ?_
  cases exponent with
  | none => exact .pure _
  | some e => exact .pure _

theorem keeps_branches : Keeps n (branches calls) (Grammar.branches deeper) := by
  refine keeps_skip.bind fun _ => (keeps_char '?').bind fun _ => .through .cut ?_
  refine ((h.choice.through (.within _)).through (.wanting _)).bind fun yes => ?_
  exact keeps_skip.bind fun _ => (keeps_closing ':').bind fun _ => h.choice.bind fun no => .pure _

theorem keeps_choiceAbove : Keeps n (choiceAbove calls) (Grammar.choiceAbove deeper) := by
  refine (keeps_chains _ (keeps_powerAbove h)).bind fun condition => ?_
  refine ((keeps_branches h).through .optional).bind fun branches => ?_
  cases branches with
  | none => exact .pure _
  | some branches => exact .pure _

end Above

/-- Readers that call each other without end are those by levels: the calls that are cut off are never
made. -/
theorem keeping_calling (last : GaugedGrammar) {calls : Nat} (enough : n < calls) :
    Keeping n (calling last calls) (ofLevels n) := by
  induction n generalizing calls with
  | zero =>
    obtain ⟨calls, rfl⟩ := Nat.exists_eq_add_of_lt enough
    exact ⟨.nested_zero _, .nested_zero _, .nested_zero _⟩
  | succ n ih =>
    obtain ⟨calls, rfl⟩ : ∃ k, calls = k + 1 := ⟨calls - 1, by omega⟩
    have deeper : Keeping n (calling last calls) (ofLevels n) := ih (by omega)
    exact ⟨(keeps_choiceAbove deeper).nested, (keeps_powerAbove deeper).nested,
      (keeps_signedAbove deeper).nested⟩

end GaugedGrammar

end DerivedColumns.Formula
