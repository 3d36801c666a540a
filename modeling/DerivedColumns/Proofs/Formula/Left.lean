import DerivedColumns.Formula.Parse
import DerivedColumns.Proofs.Formula.Spelled

set_option autoImplicit false

namespace DerivedColumns.Formula

def Outcome.left {α : Type} : Outcome α → List Char
  | .ok _ rest => rest
  | .soft f | .hard f => f.rest

def Leaves {α : Type} (p : Reader α) : Prop := ∀ s, (p s).left <:+ s

namespace Leaves

variable {α β : Type} {p q : Reader α} {next : α → Reader β}

theorem length_le (h : Leaves p) {s rest : List Char} {a : α} (read : p s = .ok a rest) : rest.length ≤ s.length := by
  have left := (h s).length_le
  rwa [read] at left

theorem pure (a : α) : Leaves (Pure.pure a : Reader α) := List.suffix_refl

theorem bind (h : Leaves p) (hnext : ∀ a, Leaves (next a)) : Leaves (p >>= next) := by
  intro s
  have first := h s
  simp only [Bind.bind]
  cases read : p s with
  | ok a rest =>
    rw [read] at first
    exact (hnext a rest).trans first
  | soft f => rwa [read] at first
  | hard f => rwa [read] at first

theorem tooDeep : Leaves (Reader.tooDeep : Reader α) := List.suffix_refl

theorem reporting (h : Leaves p) (change : Cause → Cause) : Leaves (p.reporting change) := by
  intro s
  have left := h s
  unfold Reader.reporting
  cases read : p s with
  | ok a rest => rwa [read] at left
  | soft f => rwa [read] at left
  | hard f => rwa [read] at left

theorem within (h : Leaves p) (label : String) : Leaves (p.within label) := h.reporting _

theorem wanting (h : Leaves p) (e : Expected) : Leaves (p.wanting e) := h.reporting _

theorem cut (h : Leaves p) : Leaves p.cut := by
  intro s
  have left := h s
  unfold Reader.cut
  cases read : p s with
  | ok a rest => rwa [read] at left
  | soft f => rwa [read] at left
  | hard f => rwa [read] at left

theorem optional (h : Leaves p) : Leaves p.optional := by
  intro s
  have left := h s
  unfold Reader.optional
  cases read : p s with
  | ok a rest => rwa [read] at left
  | soft f => exact List.suffix_refl s
  | hard f => rwa [read] at left

theorem orElse (hp : Leaves p) (hq : Leaves q) : Leaves (p.orElse q) := by
  intro s
  have left := hp s
  unfold Reader.orElse
  cases read : p s with
  | ok a rest => rwa [read] at left
  | soft f => exact hq s
  | hard f => rwa [read] at left

theorem many (h : Leaves p) : Leaves p.many := by
  intro s
  fun_induction Reader.many p s with
  | case1 s a mid first shorter as rest more ih =>
    have left := h s
    rw [first] at left
    rw [more] at ih
    exact ih.trans left
  | case2 s a mid first shorter fails ih =>
    have left := h s
    rw [first] at left
    exact ih.trans left
  | case3 s => exact List.suffix_refl s
  | case4 s => exact List.suffix_refl s
  | case5 s f hard =>
    have left := h s
    rwa [hard] at left

theorem separated {separator : Reader Unit} (h : Leaves p) (hs : Leaves separator) : Leaves (p.separated separator) :=
  h.bind fun first => (hs.bind fun _ => h).many.bind fun rest => pure (first :: rest)

end Leaves

theorem skipLayout_suffix (s : List Char) : skipLayout s <:+ s := by
  fun_induction skipLayout s with
  | case1 => exact List.suffix_refl _
  | case2 c s space ih => exact ih.trans (List.suffix_cons c s)
  | case3 more rest ended _ ih =>
    obtain ⟨body, rfl, -⟩ := lineEnd?_eq_some ended
    exact ih.trans ⟨'/' :: '/' :: body, rfl⟩
  | case4 => exact List.suffix_refl _
  | case5 => exact List.suffix_refl _

theorem leaves_skip : Leaves skip := skipLayout_suffix

theorem leaves_char (c : Char) : Leaves (Reader.char c) := by
  intro s
  unfold Reader.char
  split
  · split
    · exact List.suffix_cons _ _
    · exact List.suffix_refl _
  · exact List.suffix_refl _

theorem leaves_word : Leaves word := by
  intro s
  unfold word
  split
  · split
    · exact (List.dropWhile_suffix _).trans (List.suffix_cons _ _)
    · exact List.suffix_refl _
  · exact List.suffix_refl _

theorem leaves_number : Leaves number := by
  intro s
  unfold number
  split
  · exact List.suffix_refl _
  · rename_i n rest read
    obtain ⟨w, rfl, -⟩ := isNumeral_of_numeral? read
    dsimp only
    split
    · exact List.suffix_append w rest
    · exact List.suffix_append w rest

theorem leaves_content (quote : Char) : Leaves (content quote : Reader (List Char)) := by
  intro s
  fun_induction content quote s with
  | case1 => exact List.suffix_refl _
  | case2 => exact List.suffix_refl _
  | case3 => exact List.suffix_refl _
  | case4 e s cs rest more _ ih =>
    rw [more] at ih
    exact ih.trans (List.suffix_append ['\\', e] s)
  | case5 e s _ _ ih => exact ih.trans (List.suffix_append ['\\', e] s)
  | case6 c s _ _ cs rest more ih =>
    rw [more] at ih
    exact ih.trans (List.suffix_cons c s)
  | case7 c s _ _ _ ih => exact ih.trans (List.suffix_cons c s)

theorem leaves_textBetween (quote : Char) : Leaves (textBetween quote) := by
  refine (leaves_char quote).bind fun _ => .wanting (.within (.cut ?_) _) _
  exact (leaves_content quote).bind fun cs => (leaves_char quote).bind fun _ => .pure _

theorem leaves_textConstant : Leaves textConstant := (leaves_textBetween '"').orElse (leaves_textBetween '\'')

theorem leaves_operator (ops : List BinaryOp) : Leaves (operator ops) := by
  intro s
  unfold operator
  dsimp only
  split
  · exact List.drop_suffix _ s
  · exact List.suffix_refl s

theorem leaves_sign : Leaves sign := by
  intro s
  unfold sign
  split
  · exact List.suffix_cons _ _
  · exact List.suffix_cons _ _
  · exact List.suffix_refl _
  · exact List.suffix_cons _ _
  · exact List.suffix_refl _

namespace Grammar

structure Leaving (deeper : Grammar) : Prop where
  choice : Leaves deeper.choice
  power : Leaves deeper.power
  signed : Leaves deeper.signed

theorem leaves_operand {p : Reader Formula} (h : Leaves p) : Leaves (operand p) := ((h.within _).wanting _).cut

theorem leaves_chain (ops : List BinaryOp) {p : Reader Formula} (h : Leaves p) : Leaves (chain ops p) := by
  refine h.bind fun first => (Leaves.many (leaves_skip.bind fun _ => ?_)).bind fun more => ?_
  · exact (leaves_operator ops).bind fun op => (leaves_operand h).bind fun right => .pure (op, right)
  · split
    · exact .tooDeep
    · exact .pure _

theorem leaves_chains (levels : List Nat) {p : Reader Formula} (h : Leaves p) : Leaves (chains levels p) := by
  induction levels with
  | nil => exact h
  | cons level tighter ih => exact leaves_chain _ ih

theorem leaves_closing (c : Char) : Leaves (do skip; Reader.wanting (.symbol c) (Reader.char c)) :=
  leaves_skip.bind fun _ => (leaves_char c).wanting _

section Above

variable {deeper : Grammar} (h : Leaving deeper)

include h

theorem leaves_parenthesized : Leaves (parenthesized deeper) := by
  refine (leaves_char '(').bind fun _ => .cut ?_
  refine ((h.choice.within _).wanting _).bind fun f => ?_
  exact (leaves_closing ')').bind fun _ => .pure f

theorem leaves_arguments : Leaves (arguments deeper) := by
  refine (leaves_char '(').bind fun _ => .within (.cut ?_) _
  refine (h.choice.separated (leaves_skip.bind fun _ => leaves_char ',')).optional.bind fun args => ?_
  exact (leaves_closing ')').bind fun _ => .pure _

theorem leaves_named : Leaves (named deeper) := by
  refine leaves_word.bind fun name => (leaves_skip.bind fun _ => leaves_arguments h).optional.bind fun args => ?_
  cases args with
  | none => exact .pure _
  | some args => exact .pure _

theorem leaves_primary : Leaves (primary deeper) := by
  refine leaves_skip.bind fun _ => (leaves_parenthesized h).orElse (.orElse ?_ (.orElse ?_ (leaves_named h)))
  · exact leaves_number.bind fun x => .pure _
  · exact leaves_textConstant.bind fun s => .pure _

theorem leaves_signedAbove : Leaves (signedAbove deeper) := by
  refine (leaves_skip.bind fun _ => leaves_sign).optional.bind fun op => ?_
  cases op with
  | none => exact leaves_primary h
  | some op => exact (leaves_operand h.signed).bind fun x => .pure _

theorem leaves_powerAbove : Leaves (powerAbove deeper) := by
  refine (leaves_signedAbove h).bind fun base => ?_
  refine (leaves_skip.bind fun _ => (leaves_char '^').bind fun _ => leaves_operand h.power).optional.bind fun e => ?_
  cases e with
  | none => exact .pure _
  | some e => exact .pure _

theorem leaves_branches : Leaves (branches deeper) := by
  refine leaves_skip.bind fun _ => (leaves_char '?').bind fun _ => .cut ?_
  refine ((h.choice.within _).wanting _).bind fun yes => ?_
  exact (leaves_closing ':').bind fun _ => h.choice.bind fun no => .pure _

theorem leaves_choiceAbove : Leaves (choiceAbove deeper) := by
  refine (leaves_chains _ (leaves_powerAbove h)).bind fun condition => ?_
  refine (leaves_branches h).optional.bind fun found => ?_
  cases found with
  | none => exact .pure _
  | some e => exact .pure _

end Above

theorem leaving_ofLevels (n : Nat) : Leaving (ofLevels n) := by
  induction n with
  | zero => exact ⟨.tooDeep, .tooDeep, .tooDeep⟩
  | succ n ih => exact ⟨leaves_choiceAbove ih, leaves_powerAbove ih, leaves_signedAbove ih⟩

end Grammar

end DerivedColumns.Formula
