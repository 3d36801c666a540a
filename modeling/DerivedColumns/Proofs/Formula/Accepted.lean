import DerivedColumns.Proofs.Formula.Depth
import DerivedColumns.Proofs.Formula.Levels
import DerivedColumns.Proofs.Number.Sign

set_option autoImplicit false

namespace DerivedColumns

namespace Formula

open Reader (Yields)
open Grammar

variable {n p q : Nat} {f : Formula}

/-- A formula that the reader of formulas that bind at least at `p` may yield with `n` levels left. -/
structure Accepted (n p : Nat) (f : Formula) : Prop where
  built : f.BuiltFrom Atom.Literal
  nesting : f.nesting + f.enclosing p ≤ n
  bounded : p ≤ 1 → f.Bounded
  height : 2 ≤ p → p ≤ 7 → f.height ≤ maxHeight

theorem enclosing_mono (f : Formula) (le : p ≤ q) : f.enclosing p ≤ f.enclosing q := by
  unfold enclosing
  by_cases below : f.precedence < p
  · exact Nat.le_of_eq (by rw [if_pos below, if_pos (Nat.lt_of_lt_of_le below le)])
  · rw [if_neg below]
    exact Nat.zero_le _

theorem enclosing_le_one (f : Formula) (p : Nat) : f.enclosing p ≤ 1 := by
  unfold enclosing
  split <;> decide

/-- Where something binds at least as tightly as a sign, heights are not checked. -/
theorem Accepted.looser (h : Accepted n q f) (le : p ≤ q) (tight : 8 ≤ p) : Accepted n p f where
  built := h.built
  nesting := Nat.le_trans (Nat.add_le_add_left (f.enclosing_mono le) _) h.nesting
  bounded := fun no => absurd no (by omega)
  height := fun _ no => absurd no (by omega)

theorem Accepted.nesting_le (h : Accepted n 1 f) : f.nesting ≤ n := by
  have nesting := h.nesting
  rwa [enclosing_one] at nesting

theorem yields_number : Yields number fun x => x.isFinite = true ∧ x.isNegative = false := by
  intro s x rest hs
  unfold number at hs
  split at hs
  · cases hs
  · dsimp only at hs
    split at hs
    · rename_i finite
      cases hs
      exact ⟨finite, Number.isNegative_nearest _ _⟩
    · cases hs

theorem literal_named {name : String} (isName : isWord name.toList = true) :
    ((keyword? name).getD (.field name)).Literal := by
  cases known : keyword? name with
  | none => exact ⟨isName, known⟩
  | some a =>
    unfold keyword? at known
    split at known <;> cases known <;> trivial

theorem accepted_atom {a : Atom} (literal : a.Literal) : Accepted (n + 1) 10 (.atom a) := by
  have bare : (Formula.atom a).enclosing 10 = 0 := by
    refine if_neg (Nat.not_lt.2 (Nat.le_of_eq ?_))
    cases a with
    | number x =>
      rw [precedence, literal.2]
      rfl
    | _ => rfl
  refine ⟨literal, ?_, fun no => absurd no (by decide), fun _ no => absurd no (by decide)⟩
  rw [bare]
  exact Nat.le_add_left 1 n

theorem yields_parenthesized (choice : Yields (level n 1) (Accepted n 1)) :
    Yields (parenthesized (ofLevels n)) (Accepted (n + 1) 10) := by
  refine (Yields.any _).bind fun _ _ => .cut ?_
  rw [choice_ofLevels]
  refine ((choice.within _).wanting _).bind fun f hf => ?_
  refine (Yields.any _).bind fun _ _ => (Yields.any _).bind fun _ _ => .pure ?_
  have nesting := hf.nesting_le
  have := f.enclosing_le_one 10
  exact ⟨hf.built, by omega, fun no => absurd no (by decide), fun _ no => absurd no (by decide)⟩

theorem nestingAll_le {fs : List Formula} (pos : 1 ≤ n) (h : ∀ f ∈ fs, Accepted n 1 f) :
    nestingAll fs ≤ n ∧ BuiltFromAll Atom.Literal fs := by
  induction fs with
  | nil => exact ⟨pos, trivial⟩
  | cons f fs ih =>
    rw [List.forall_mem_cons] at h
    obtain ⟨nesting, built⟩ := ih h.2
    exact ⟨Nat.max_le.2 ⟨h.1.nesting_le, nesting⟩, h.1.built, built⟩

theorem yields_arguments (choice : Yields (level n 1) (Accepted n 1)) :
    Yields (arguments (ofLevels n)) fun args => nestingAll args ≤ n ∧ BuiltFromAll Atom.Literal args := by
  have list : Yields (Reader.optional (Reader.separated (level n 1) (do skip; Reader.char ',')))
      fun args => 1 ≤ n ∧ ∀ fs ∈ args, ∀ f ∈ fs, Accepted n 1 f := by
    cases n with
    | zero =>
      intro s args rest hs
      cases hs
    | succ n => exact (choice.separated _).optional.mono fun args h => ⟨Nat.le_add_left 1 n, h⟩
  refine (Yields.any _).bind fun _ _ => .within (.cut ?_) _
  rw [choice_ofLevels]
  refine list.bind fun args hargs => ?_
  refine (Yields.any _).bind fun _ _ => (Yields.any _).bind fun _ _ => .pure ?_
  refine nestingAll_le hargs.1 ?_
  cases args with
  | none => exact fun _ no => absurd no List.not_mem_nil
  | some fs => exact hargs.2 fs rfl

theorem yields_named (choice : Yields (level n 1) (Accepted n 1)) :
    Yields (named (ofLevels n)) (Accepted (n + 1) 10) := by
  have names : Yields word fun name => isWord name.toList = true := fun _ _ _ hs => isWord_of_word hs
  refine names.bind fun name isName => ?_
  refine ((Yields.any skip).bind fun _ _ => yields_arguments choice).optional.bind fun args hargs => ?_
  cases args with
  | none => exact .pure (accepted_atom (literal_named isName))
  | some args =>
    obtain ⟨nesting, built⟩ := hargs args rfl
    refine .pure ⟨⟨isName, built⟩, ?_, fun no => absurd no (by decide), fun _ no => absurd no (by decide)⟩
    exact Nat.succ_le_succ nesting

theorem yields_primary (choice : Yields (level n 1) (Accepted n 1)) :
    Yields (primary (ofLevels n)) (Accepted (n + 1) 10) := by
  refine (Yields.any skip).bind fun _ _ => .orElse (yields_parenthesized choice) (.orElse ?_ (.orElse ?_ ?_))
  · exact yields_number.bind fun x hx => .pure (accepted_atom hx)
  · exact (Yields.any _).bind fun s _ => .pure (accepted_atom (a := .text s) trivial)
  · exact yields_named choice

theorem Accepted.operand {p : Nat} (h : Yields (level n p) (Accepted n p)) :
    Yields (operand (level n p)) (Accepted n p) :=
  ((h.within _).wanting _).cut

theorem yields_signed (primary : Yields (level (n + 1) 10) (Accepted (n + 1) 10))
    (signed : Yields (level n 9) (Accepted n 9)) : Yields (level (n + 1) 9) (Accepted (n + 1) 9) := by
  refine (Yields.any _).bind fun op _ => ?_
  cases op with
  | none => exact primary.mono fun f hf => hf.looser (by decide) (by decide)
  | some op =>
    dsimp only
    rw [signed_ofLevels]
    refine (Accepted.operand signed).bind fun x hx => .pure ?_
    refine ⟨hx.built, ?_, fun no => absurd no (by decide), fun _ no => absurd no (by decide)⟩
    exact Nat.succ_le_succ hx.nesting

theorem yields_power (signed : Yields (level (n + 1) 9) (Accepted (n + 1) 9))
    (power : Yields (level n 8) (Accepted n 8)) : Yields (level (n + 1) 8) (Accepted (n + 1) 8) := by
  refine signed.bind fun base hbase => ?_
  rw [power_ofLevels]
  refine ((Yields.any skip).bind fun _ _ => (Yields.any (Reader.char '^')).bind fun _ _ =>
    Accepted.operand power).optional.bind fun exponent hexponent => ?_
  cases exponent with
  | none => exact .pure (hbase.looser (by decide) (by decide))
  | some e =>
    have he := hexponent e rfl
    refine .pure ⟨⟨hbase.built, he.built⟩, ?_, fun no => absurd no (by decide),
      fun _ no => absurd no (by decide)⟩
    exact Nat.max_le.2 ⟨hbase.nesting, Nat.succ_le_succ he.nesting⟩

theorem mem_of_operator {ops : List BinaryOp} : Yields (operator ops) fun op => op ∈ ops := by
  intro s op rest hs
  unfold operator at hs
  dsimp only at hs
  split at hs
  · rename_i found
    cases hs
    exact List.mem_of_find?_eq_some found
  · cases hs

/-- Grouping a chain makes nothing higher than was counted. -/
theorem height_foldLeft (first : Formula) (more : List (BinaryOp × Formula)) :
    (foldLeft first more).height ≤ chainHeight first more := by
  induction more using List.reverseRecOn with
  | nil => exact Nat.le_refl _
  | append_singleton more link ih =>
    obtain ⟨op, r⟩ := link
    have grouped : foldLeft first (more ++ [(op, r)]) = .binary op (foldLeft first more) r := by
      rw [foldLeft, List.foldl_append]
      rfl
    rw [grouped, chainHeight_append, Formula.height]
    omega

/-- Grouping a chain takes no more nesting than its operands. -/
theorem accepted_foldLeft (high : q ≤ 7) {first : Formula} {more : List (BinaryOp × Formula)}
    (built : first.BuiltFrom Atom.Literal) (levels : first.nesting + first.enclosing q ≤ n)
    (links : ∀ link ∈ more, link.1.precedence = q ∧ Accepted n (q + 1) link.2) :
    (foldLeft first more).BuiltFrom Atom.Literal ∧
      (foldLeft first more).nesting + (foldLeft first more).enclosing q ≤ n := by
  induction more generalizing first with
  | nil => exact ⟨built, levels⟩
  | cons link more ih =>
    obtain ⟨⟨rfl, right⟩, links⟩ := List.forall_mem_cons.1 links
    have notPow := precedence_pow.1 high
    have bare : enclosing (.binary link.1 first link.2) link.1.precedence = 0 :=
      if_neg (Nat.lt_irrefl link.1.precedence)
    refine ih ⟨built, right.built⟩ ?_ links
    have nesting := right.nesting
    rw [bare, Formula.nesting, leftContext_of_ne notPow, rightContext_of_ne notPow, if_neg notPow]
    omega

theorem yields_chain (low : 2 ≤ q) (high : q ≤ 7)
    (tighter : Yields (level (n + 1) (q + 1)) (Accepted (n + 1) (q + 1))) :
    Yields (level (n + 1) q) (Accepted (n + 1) q) := by
  rw [level_chain low high]
  refine tighter.bind fun first hfirst => ?_
  have links : Yields (Reader.many (link n q)) fun more =>
      ∀ link ∈ more, link.1.precedence = q ∧ Accepted (n + 1) (q + 1) link.2 :=
    ((Yields.any skip).bind fun _ _ => mem_of_operator.bind fun op hop =>
      (Accepted.operand tighter).bind fun right hright =>
        .pure ⟨precedence_of_mem_operatorsAt hop, hright⟩).many
  refine links.bind fun more hmore => ?_
  split
  · exact .tooDeep _
  · have height := height_foldLeft first more
    have nesting := hfirst.nesting
    have := first.enclosing_mono (p := q) (q := q + 1) (Nat.le_succ q)
    obtain ⟨built, levels⟩ := accepted_foldLeft high hfirst.built (by omega) hmore
    exact .pure ⟨built, levels, fun no => absurd no (by omega), fun _ _ => by omega⟩

theorem yields_choice (condition : Yields (level (n + 1) 2) (Accepted (n + 1) 2))
    (choice : Yields (level n 1) (Accepted n 1)) : Yields (level (n + 1) 1) (Accepted (n + 1) 1) := by
  refine condition.bind fun c hc => ?_
  have branches : Yields (branches (ofLevels n)) fun b => Accepted n 1 b.1 ∧ Accepted n 1 b.2 := by
    refine (Yields.any _).bind fun _ _ => (Yields.any _).bind fun _ _ => .cut ?_
    rw [choice_ofLevels]
    refine ((choice.within _).wanting _).bind fun yes hyes => ?_
    refine (Yields.any _).bind fun _ _ => (Yields.any _).bind fun _ _ => ?_
    exact choice.bind fun no hno => .pure ⟨hyes, hno⟩
  refine branches.optional.bind fun b hb => ?_
  have height := hc.height (by decide) (by decide)
  have nesting := hc.nesting
  cases b with
  | none =>
    have := c.enclosing_mono (p := 1) (q := 2) (by decide)
    exact .pure ⟨hc.built, by omega, fun _ => bounded_of_height height, fun no => absurd no (by decide)⟩
  | some b =>
    obtain ⟨yes, no⟩ := hb b rfl
    refine .pure ⟨⟨hc.built, yes.built, no.built⟩, ?_, fun _ => ⟨height, yes.bounded (by decide),
      no.bounded (by decide)⟩, fun no => absurd no (by decide)⟩
    rw [enclosing_one]
    exact Nat.max_le.2 ⟨hc.nesting, Nat.succ_le_succ (Nat.max_le.2 ⟨yes.nesting_le, no.nesting_le⟩)⟩

theorem yields_succ (deeper : ∀ p, 1 ≤ p → p ≤ 10 → Yields (level n p) (Accepted n p)) :
    ∀ p, 1 ≤ p → p ≤ 10 → Yields (level (n + 1) p) (Accepted (n + 1) p) := by
  have choice := deeper 1 (by decide) (by decide)
  have primary : Yields (level (n + 1) 10) (Accepted (n + 1) 10) := yields_primary choice
  have signed := yields_signed primary (deeper 9 (by decide) (by decide))
  have power := yields_power signed (deeper 8 (by decide) (by decide))
  have chains : ∀ j q, q + j = 8 → 2 ≤ q → Yields (level (n + 1) q) (Accepted (n + 1) q) := by
    intro j
    induction j with
    | zero =>
      intro q reached _
      obtain rfl : q = 8 := reached
      exact power
    | succ j ih =>
      intro q reached low
      exact yields_chain low (by omega) (ih (q + 1) (by omega) (by omega))
  intro p pos le
  by_cases tight : 9 ≤ p
  · rcases Nat.eq_or_lt_of_le tight with rfl | tight
    · exact signed
    · obtain rfl : p = 10 := by omega
      exact primary
  · by_cases loose : 2 ≤ p
    · exact chains (8 - p) p (by omega) loose
    · obtain rfl : p = 1 := by omega
      exact yields_choice (chains 6 2 rfl (by decide)) choice

theorem yields_level (n : Nat) : ∀ p, 1 ≤ p → p ≤ 10 → Yields (level n p) (Accepted n p) := by
  induction n with
  | zero => exact fun p _ _ => .tooDeep _
  | succ n ih => exact yields_succ ih

end Formula

end DerivedColumns
