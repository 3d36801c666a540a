import DerivedColumns.Proofs.Formula.Levels
import DerivedColumns.Proofs.Formula.Written
import DerivedColumns.Proofs.Number.RoundTrip

set_option autoImplicit false

namespace DerivedColumns.Formula

open Reader (Takes)
open Number (Apart)
open Grammar

variable {n p : Nat} {g s rest : List Char} {f : Formula} {P : Prop}

theorem soft_parenthesized {c : Char} (h : c ≠ '(') (deeper : Grammar) (s : List Char) :
    (parenthesized deeper (c :: s)).Soft :=
  Reader.soft_bind (Reader.soft_char fun e => h (Option.some.inj e))

theorem takes_named {c : Char} (start : isWordStart c = true) (blank : Blank g)
    (h : Takes (named (ofLevels n)) (c :: s) f rest P) :
    Takes (level (n + 1) 10) (g ++ c :: s) f rest P := by
  have opens : Opens c := .inr (.inl start)
  have skipped := skip_to blank opens.starts.1 opens.starts.2.1 s
  have other : ∀ d, isWordStart d = false → c ≠ d := by
    rintro d no rfl
    exact Bool.false_ne_true (no.symm.trans start)
  refine .after skipped (.orElse_of_soft (soft_parenthesized opens.ne_paren _ _) ?_)
  refine .orElse_of_soft (Reader.soft_bind (soft_number (isDigit_of_isWordStart start) (other '.' rfl) s)) ?_
  exact .orElse_of_soft (Reader.soft_bind (soft_textConstant (other '"' rfl) (other '\'' rfl) s)) h

theorem takes_name {name : List Char} (isName : isWord name = true) (stops : Stops p rest) :
    Takes (named (ofLevels n)) (name ++ rest)
      (.atom ((keyword? (String.ofList name)).getD (.field (String.ofList name)))) rest True := by
  refine .after (word_append isName stops.apart) ?_
  have none : ((do skip; arguments (ofLevels n)) rest).Soft :=
    soft_skip (Reader.soft_bind (Reader.soft_char stops.skip.ne_open))
  exact .after (Takes.optional_of_soft none) (.pure _ rest)

theorem takes_arguments {args : List Formula} {inside gap : List Char} (blank : Blank gap)
    {read : Option (List Formula)} (value : read.getD [] = args)
    (h : Takes (Reader.optional (Reader.separated (level n 1) (do skip; Reader.char ','))) inside read
      (gap ++ ')' :: rest) P) : Takes (arguments (ofLevels n)) ('(' :: inside) args rest P := by
  refine .after (Reader.char_self '(' _) (.within (.cut ?_) _)
  rw [choice_ofLevels]
  refine (h.bind fun _ => .after (skip_to blank rfl (by decide) rest) ?_).congr (iff_of_eq (and_true _))
  subst value
  exact .after ((Takes.of_eq (Reader.char_self ')' rest)).wanting _ |>.ok trivial) (.pure _ rest)

theorem takes_call {name : String} {args : List Formula} {inside : List Char}
    (isName : isWord name.toList = true) (blank : Blank g)
    (h : Takes (arguments (ofLevels n)) ('(' :: inside) args rest P) :
    Takes (level (n + 1) 10) (g ++ (name.toList ++ '(' :: inside)) (.call name args) rest P := by
  obtain ⟨c, more, e, start⟩ := isWordStart_of_isWord isName
  have apart : Apart ('(' :: inside) := by
    intro d hd
    cases hd
    exact ⟨rfl, by decide⟩
  have call : Takes (named (ofLevels n)) (name.toList ++ '(' :: inside) (.call name args) rest P := by
    refine .after (word_append isName apart) ?_
    have opening := skip_to (c := '(') blank_nil rfl (by decide) inside
    refine ((Takes.after opening h).optional.bind fun _ => ?_).congr (iff_of_eq (and_true _))
    rw [String.ofList_toList]
    exact .pure _ rest
  rw [e] at call ⊢
  exact takes_named start blank call

theorem takes_atom {a : Atom} (literal : a.Literal) (blank : Blank g) (stops : Stops p rest) :
    Takes (level (n + 1) 10) (g ++ (a.chars ++ rest)) (.atom a) rest True := by
  have word : ∀ name : List Char, isWord name = true →
      (keyword? (String.ofList name)).getD (.field (String.ofList name)) = a →
      Takes (level (n + 1) 10) (g ++ (name ++ rest)) (.atom a) rest True := by
    intro name isName means
    obtain ⟨c, more, rfl, start⟩ := isWordStart_of_isWord isName
    have named := takes_name (n := n) isName stops
    rw [means] at named
    exact takes_named start blank named
  obtain ⟨c, more, e, opens⟩ := opens_atom literal
  have skipped : skip (g ++ (a.chars ++ rest)) = .ok () (a.chars ++ rest) := by
    rw [e]
    exact skip_to blank opens.starts.1 opens.starts.2.1 _
  have noParentheses : (parenthesized (ofLevels n) (a.chars ++ rest)).Soft := by
    rw [e]
    exact soft_parenthesized opens.ne_paren _ _
  cases a with
  | number x =>
    obtain ⟨finite, positive⟩ := literal
    refine .after skipped (.orElse_of_soft noParentheses (.orElse ?_))
    exact (Takes.of_eq (number_chars finite positive stops.apart)).map fun x => Formula.atom (.number x)
  | text s =>
    refine .after skipped (.orElse_of_soft noParentheses (.orElse_of_soft ?_ (.orElse ?_)))
    · exact Reader.soft_bind (soft_number rfl (by decide) _)
    · exact (Takes.of_eq (textConstant_quoted s rest)).map fun s => Formula.atom (.text s)
  | bool b => cases b <;> exact word _ rfl rfl
  | null => exact word _ rfl rfl
  | field name =>
    refine word name.toList literal.1 ?_
    rw [String.ofList_toList, literal.2]
    rfl

theorem soft_level (blank : Blank g) (s : List Char) : (level (n + 1) 1 (g ++ ')' :: s)).Soft := by
  have skipped : skipLayout (g ++ ')' :: s) = ')' :: s := by
    rw [skipLayout_blank blank, skipLayout_cons rfl (by decide)]
  have noPrimary : (primary (ofLevels n) (g ++ ')' :: s)).Soft := by
    refine soft_skip ?_
    rw [skipped]
    refine Reader.soft_orElse (soft_parenthesized (by decide) _ _) (Reader.soft_orElse ?_ ?_)
    · exact Reader.soft_bind (soft_number rfl (by decide) s)
    · exact Reader.soft_orElse (Reader.soft_bind (soft_textConstant (by decide) (by decide) s))
        (Reader.soft_bind (soft_word rfl s))
  have noSigned : (signedAbove (ofLevels n) (g ++ ')' :: s)).Soft := by
    have unsigned : ((do skip; sign) (g ++ ')' :: s)).Soft := by
      refine soft_skip ?_
      rw [skipped]
      exact soft_sign rfl s
    have first := Takes.optional_of_soft unsigned
    rw [signedAbove, Outcome.Soft, Reader.bind_of_ok first]
    exact noPrimary
  have noChain : ∀ levels, (chains levels (powerAbove (ofLevels n)) (g ++ ')' :: s)).Soft := by
    intro levels
    induction levels with
    | nil => exact Reader.soft_bind noSigned
    | cons q levels ih => exact Reader.soft_bind ih
  exact Reader.soft_bind (noChain [2, 3, 4, 5, 6, 7])

end DerivedColumns.Formula
