import DerivedColumns.Proofs.Formula.Words

set_option autoImplicit false

/-!
The readers of the grammar as one family: what is read at a level of nesting and binds at least at a
precedence. A formula that binds tighter than its place demands is handed down from precedence to
precedence, as long as nothing follows it that a looser reader would go on with.
-/

namespace DerivedColumns.Formula

open Reader (Takes)
open Number (Apart)

namespace Grammar

def level : Nat → Nat → Reader Formula
  | 0, _ => Reader.tooDeep
  | n + 1, p =>
    if p ≤ 1 then choiceAbove (ofLevels n)
    else if p ≤ 8 then chains (List.range' p (8 - p)) (powerAbove (ofLevels n))
    else if p = 9 then signedAbove (ofLevels n)
    else primary (ofLevels n)

theorem choice_ofLevels (n : Nat) : (ofLevels n).choice = level n 1 := by
  cases n <;> rfl

theorem power_ofLevels (n : Nat) : (ofLevels n).power = level n 8 := by
  cases n <;> rfl

theorem signed_ofLevels (n : Nat) : (ofLevels n).signed = level n 9 := by
  cases n <;> rfl

/-- Between choices and powers each precedence is a chain of what binds tighter. -/
theorem level_chain {q : Nat} (low : 2 ≤ q) (high : q ≤ 7) (n : Nat) :
    level (n + 1) q = chain (operatorsAt q) (level (n + 1) (q + 1)) := by
  have split : List.range' q (8 - q) = q :: List.range' (q + 1) (8 - (q + 1)) := by
    rw [show 8 - q = (8 - (q + 1)) + 1 by omega, List.range'_succ]
  rw [level, level, if_neg (by omega), if_pos (by omega), if_neg (by omega), if_pos (by omega), split]
  rfl

def link (n q : Nat) : Reader (BinaryOp × Formula) := do
  skip
  let op ← operator (operatorsAt q)
  let right ← operand (level (n + 1) (q + 1))
  return (op, right)

end Grammar

open Grammar

/-- The text, from its first word on, goes on with nothing that binds as tightly as `p`. -/
inductive Ends (p : Nat) : List Char → Prop
  | text : Ends p []
  | close (more : List Char) : Ends p (')' :: more)
  | comma (more : List Char) : Ends p (',' :: more)
  | colon (more : List Char) : Ends p (':' :: more)
  | question (loose : 1 < p) (more : List Char) : Ends p ('?' :: more)
  | symbol (op : BinaryOp) (loose : op.precedence < p) (more : List Char) :
    Ends p (op.symbol ++ ' ' :: more)

def Stops (p : Nat) (rest : List Char) : Prop := ∃ g next, Blank g ∧ Ends p next ∧ rest = g ++ next

namespace Ends

variable {p : Nat} {next : List Char}

theorem mono {q : Nat} (h : Ends p next) (le : p ≤ q) : Ends q next := by
  cases h with
  | text => exact .text
  | close more => exact .close more
  | comma more => exact .comma more
  | colon more => exact .colon more
  | question loose more => exact .question (by omega) more
  | symbol op loose more => exact .symbol op (by omega) more

theorem stops (h : Ends p next) {g : List Char} (blank : Blank g) : Stops p (g ++ next) :=
  ⟨g, next, blank, h, rfl⟩

theorem skip (h : Ends p next) : skipLayout next = next := by
  cases h with
  | text => rw [skipLayout]
  | close more => exact skipLayout_cons rfl (by decide) more
  | comma more => exact skipLayout_cons rfl (by decide) more
  | colon more => exact skipLayout_cons rfl (by decide) more
  | question _ more => exact skipLayout_cons rfl (by decide) more
  | symbol op _ more =>
    cases op with
    | div => exact skipLayout_slash more
    | _ => exact skipLayout_cons rfl (by decide) _

theorem apart (h : Ends p next) : Apart next := by
  intro c hc
  cases h with
  | text => cases hc
  | close more => cases hc; exact ⟨rfl, by decide⟩
  | comma more => cases hc; exact ⟨rfl, by decide⟩
  | colon more => cases hc; exact ⟨rfl, by decide⟩
  | question _ more => cases hc; exact ⟨rfl, by decide⟩
  | symbol op _ more => cases op <;> (cases hc; exact ⟨rfl, by decide⟩)

theorem ne_open (h : Ends p next) : next.head? ≠ some '(' := by
  cases h with
  | symbol op _ more => cases op <;> (intro e; cases e)
  | _ => intro e; cases e

theorem ne_question (h : Ends p next) (tight : p ≤ 1) : next.head? ≠ some '?' := by
  cases h with
  | question loose _ => omega
  | symbol op loose more => cases op <;> (intro e; cases e)
  | _ => intro e; cases e

theorem ne_caret (h : Ends p next) (tight : p ≤ 8) : next.head? ≠ some '^' := by
  cases h with
  | symbol op loose more =>
    cases op with
    | pow => simp only [BinaryOp.precedence] at loose; omega
    | _ => intro e; cases e
  | _ => intro e; cases e

theorem soft_operator (h : Ends p next) {q : Nat} (tight : p ≤ q) :
    (operator (operatorsAt q) next).Soft := by
  cases h with
  | symbol op loose more => exact Formula.soft_operator (by omega) more
  | _ =>
    refine soft_operator_of fun op _ => ?_
    cases op <;> rfl

end Ends

namespace Stops

variable {p : Nat} {rest : List Char}

theorem mono {q : Nat} (h : Stops p rest) (le : p ≤ q) : Stops q rest := by
  obtain ⟨g, next, blank, ends, rfl⟩ := h
  exact (ends.mono le).stops blank

theorem skip (h : Stops p rest) : Ends p (skipLayout rest) := by
  obtain ⟨g, next, blank, ends, rfl⟩ := h
  rw [skipLayout_blank blank, ends.skip]
  exact ends

theorem apart (h : Stops p rest) : Apart rest := by
  obtain ⟨g, next, blank, ends, rfl⟩ := h
  cases g with
  | nil => exact ends.apart
  | cons c g =>
    intro d hd
    cases hd
    have space := (List.forall_mem_cons.1 blank).1
    simp only [isSpace, Bool.or_eq_true, decide_eq_true_eq] at space
    rcases space with ((rfl | rfl) | rfl) | rfl <;> exact ⟨rfl, by decide⟩

end Stops

/-- What follows the layout is read next. -/
theorem soft_skip {α : Type} {p : Reader α} {s : List Char} (h : (p (skipLayout s)).Soft) :
    ((do skip; p) s).Soft :=
  h

variable {n p : Nat} {s rest : List Char} {f : Formula} {P : Prop}

theorem takes_signed (h : Takes (level (n + 1) 10) s f rest P) (unsigned : (sign (skipLayout s)).Soft) :
    Takes (level (n + 1) 9) s f rest P :=
  .after (Takes.optional_of_soft (soft_skip unsigned)) h

theorem takes_power (h : Takes (level (n + 1) 9) s f rest P) (stops : Stops p rest) (tight : p ≤ 8) :
    Takes (level (n + 1) 8) s f rest P := by
  refine (h.bind fun _ => ?_).congr (iff_of_eq (and_true P))
  have none : ((do skip; Reader.char '^'; operand (ofLevels n).power) rest).Soft :=
    soft_skip (Reader.soft_bind (Reader.soft_char (stops.skip.ne_caret tight)))
  exact .after (Takes.optional_of_soft none) (.pure f rest)

theorem takes_check (first : Formula) (more : List (BinaryOp × Formula)) (rest : List Char) :
    Takes (if maxHeight < chainHeight first more then Reader.tooDeep else return foldLeft first more)
      rest (foldLeft first more) rest (chainHeight first more ≤ maxHeight) := by
  split
  · exact Reader.takes_tooDeep (by omega) _ _ _
  · exact (Takes.pure _ _).congr (iff_of_true trivial (by omega))

theorem takes_chain {q : Nat} (low : 2 ≤ q) (high : q ≤ 7)
    (h : Takes (level (n + 1) (q + 1)) s f rest P) (stops : Stops p rest) (tight : p ≤ q) :
    Takes (level (n + 1) q) s f rest (P ∧ f.height ≤ maxHeight) := by
  rw [level_chain low high]
  refine h.bind fun _ => .after (Takes.many_of_soft ?_) (takes_check f [] rest)
  exact soft_skip (Reader.soft_bind (stops.skip.soft_operator tight))

theorem takes_choice (h : Takes (level (n + 1) 2) s f rest P) (stops : Stops p rest) (tight : p ≤ 1) :
    Takes (level (n + 1) 1) s f rest P := by
  refine (h.bind fun _ => ?_).congr (iff_of_eq (and_true P))
  have none : (branches (ofLevels n) rest).Soft :=
    soft_skip (Reader.soft_bind (Reader.soft_char (stops.skip.ne_question tight)))
  exact .after (Takes.optional_of_soft none) (.pure f rest)

/-- What is read at a precedence is read at each looser one, if it is not too high. -/
theorem takes_looser {r : Nat} (h : Takes (level (n + 1) r) s f rest P) (stops : Stops p rest)
    (pos : 1 ≤ p) (le : p ≤ r) (bound : r ≤ 10) (unsigned : r = 10 → (sign (skipLayout s)).Soft)
    (height : r ≤ 7 → P → f.height ≤ maxHeight) :
    Takes (level (n + 1) p) s f rest (P ∧ (p ≤ 7 → f.height ≤ maxHeight)) := by
  obtain ⟨k, rfl⟩ := Nat.exists_eq_add_of_le le
  clear le
  -- From the tightest place to the loosest; `q` is the place that has been reached.
  suffices ∀ q j, q + j = p + k → p ≤ q →
      Takes (level (n + 1) q) s f rest (P ∧ (q ≤ 7 → f.height ≤ maxHeight)) from
    this p k rfl (Nat.le_refl p)
  intro q j
  induction j generalizing q with
  | zero =>
    intro reached _
    rw [Nat.add_zero] at reached
    subst reached
    exact h.congr ⟨fun can => ⟨can, fun le => height le can⟩, And.left⟩
  | succ j ih =>
    intro reached le
    have tighter := ih (q + 1) (by omega) (by omega)
    by_cases chainOrChoice : q ≤ 7
    · by_cases isChain : 2 ≤ q
      · refine (takes_chain isChain chainOrChoice tighter stops le).congr ?_
        constructor
        · exact fun can => ⟨can.1.1, fun _ => can.2⟩
        · exact fun can => ⟨⟨can.1, fun _ => can.2 chainOrChoice⟩, can.2 chainOrChoice⟩
      · obtain rfl : q = 1 := by omega
        refine (takes_choice tighter stops le).congr ?_
        exact and_congr_right fun _ => ⟨fun can _ => can (by omega), fun can _ => can (by omega)⟩
    · have free : ∀ q', 7 < q' → ((P ∧ (q' ≤ 7 → f.height ≤ maxHeight)) ↔ P) :=
        fun q' high => ⟨And.left, fun can => ⟨can, fun low => absurd low (by omega)⟩⟩
      refine Takes.congr ?_ (free q (by omega)).symm
      replace tighter := tighter.congr (free (q + 1) (by omega))
      by_cases isPower : q = 8
      · subst isPower
        exact takes_power tighter stops le
      · obtain rfl : q = 9 := by omega
        exact takes_signed tighter (unsigned (by omega))

theorem takes_parentheses {g : List Char} (blank : Blank g)
    (h : Takes (level n 1) (s ++ ')' :: rest) f (')' :: rest) P) :
    Takes (level (n + 1) 10) (g ++ '(' :: (s ++ ')' :: rest)) f rest P := by
  refine .after (skip_to blank rfl (by decide) _) (.orElse (.after (Reader.char_self '(' _) (.cut ?_)))
  rw [choice_ofLevels]
  refine (((h.within _).wanting _).bind fun _ => .after (skip_to blank_nil rfl (by decide) rest) ?_).congr
    (iff_of_eq (and_true P))
  exact .after (((Takes.of_eq (Reader.char_self ')' rest)).wanting _).ok trivial) (.pure f rest)

end DerivedColumns.Formula
