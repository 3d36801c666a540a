import DerivedColumns.Formula.Parse
import DerivedColumns.Proofs.Formula.Reading

set_option autoImplicit false

/-!
The same grammar, read by readers that call each other without end and count how deep they are. The count
goes up before a nested reader is called and down again whatever comes of it, and a call that would go below
the deepest level is refused. Failures do not undo the count.
-/

namespace DerivedColumns.Formula

/-- How deep the reading is, how deep it has been, and whether it was refused for that. -/
structure Gauge where
  depth : Nat
  deepest : Nat
  exceeded : Bool

def Gauge.start : Gauge := ⟨0, 0, false⟩

def Gauge.deeper (g : Gauge) : Gauge := ⟨g.depth + 1, max g.deepest (g.depth + 1), g.exceeded⟩

def Gauge.back (g : Gauge) : Gauge := { g with depth := g.depth - 1 }

def Gauged (α : Type) : Type := Gauge → List Char → Outcome α × Gauge

namespace Gauged

variable {α β : Type}

instance : Monad Gauged where
  pure a := fun g s => (.ok a s, g)
  bind p next := fun g s =>
    match p g s with
    | (.ok a rest, g) => next a g rest
    | (.soft f, g) => (.soft f, g)
    | (.hard f, g) => (.hard f, g)

def flat (p : Reader α) : Gauged α := fun g s => (p s, g)

def through (change : Reader α → Reader β) (p : Gauged α) : Gauged β := fun g s =>
  (change (fun _ => (p g s).1) s, (p g s).2)

def orElse (p q : Gauged α) : Gauged α := fun g s =>
  match p g s with
  | (.soft _, g) => q g s
  | r => r

def many (p : Gauged α) : Gauged (List α) := fun g s =>
  match p g s with
  | (.ok a rest, g) =>
    if rest.length < s.length then
      match many p g rest with
      | (.ok as rest, g) => (.ok (a :: as) rest, g)
      | r => r
    else (.ok [] s, g)
  | (.soft _, g) => (.ok [] s, g)
  | (.hard f, g) => (.hard f, g)
termination_by _ s => s.length

def separated (p : Gauged α) (separator : Gauged Unit) : Gauged (List α) := do
  let first ← p
  let rest ← many (do separator; p)
  return first :: rest

def tooDeep : Gauged α := fun g s => (Reader.tooDeep s, { g with exceeded := true })

def nested (p : Gauged α) : Gauged α := fun g s =>
  if maxNesting ≤ g.depth then tooDeep g s
  else ((p g.deeper s).1, (p g.deeper s).2.back)

end Gauged

structure GaugedGrammar where
  choice : Gauged Formula
  power : Gauged Formula
  signed : Gauged Formula

namespace GaugedGrammar

open Gauged
open Grammar (operatorsAt chainHeight foldLeft keyword?)

def operand (p : Gauged Formula) : Gauged Formula := through Grammar.operand p

def chain (ops : List BinaryOp) (p : Gauged Formula) : Gauged Formula := do
  let first ← p
  let more ← many do
    flat skip
    let op ← flat (operator ops)
    let right ← operand p
    return (op, right)
  if maxHeight < chainHeight first more then tooDeep else return foldLeft first more

def chains : List Nat → Gauged Formula → Gauged Formula
  | [], p => p
  | level :: tighter, p => chain (operatorsAt level) (chains tighter p)

def parenthesized (calls : GaugedGrammar) : Gauged Formula := do
  flat (Reader.char '(')
  through Reader.cut do
    let f ← through (Reader.wanting (.phrase "expression")) <|
      through (Reader.within "parenthesized expression") calls.choice
    flat skip
    flat (Reader.wanting (.symbol ')') (Reader.char ')'))
    return f

def arguments (calls : GaugedGrammar) : Gauged (List Formula) := do
  flat (Reader.char '(')
  through (Reader.within "argument list") <| through Reader.cut do
    let args ← through Reader.optional <| separated calls.choice do
      flat skip
      flat (Reader.char ',')
    flat skip
    flat (Reader.wanting (.symbol ')') (Reader.char ')'))
    return args.getD []

def named (calls : GaugedGrammar) : Gauged Formula := do
  let name ← flat word
  let args ← through Reader.optional do
    flat skip
    arguments calls
  match args with
  | some args => return .call name args
  | none => return .atom ((keyword? name).getD (.field name))

def primary (calls : GaugedGrammar) : Gauged Formula := do
  flat skip
  orElse (parenthesized calls) <|
    orElse (do return .atom (.number (← flat number))) <|
      orElse (do return .atom (.text (← flat textConstant))) (named calls)

def signedAbove (calls : GaugedGrammar) : Gauged Formula := do
  let op ← through Reader.optional do
    flat skip
    flat sign
  match op with
  | some op => return .unary op (← operand calls.signed)
  | none => primary calls

def powerAbove (calls : GaugedGrammar) : Gauged Formula := do
  let base ← signedAbove calls
  let exponent ← through Reader.optional do
    flat skip
    flat (Reader.char '^')
    operand calls.power
  match exponent with
  | some e => return .binary .pow base e
  | none => return base

def operation (calls : GaugedGrammar) : Gauged Formula := chains [2, 3, 4, 5, 6, 7] (powerAbove calls)

def branches (calls : GaugedGrammar) : Gauged (Formula × Formula) := do
  flat skip
  flat (Reader.char '?')
  through Reader.cut do
    let yes ← through (Reader.wanting (.phrase "expression")) <| through (Reader.within "ternary") calls.choice
    flat skip
    flat (Reader.wanting (.symbol ':') (Reader.char ':'))
    let no ← calls.choice
    return (yes, no)

def choiceAbove (calls : GaugedGrammar) : Gauged Formula := do
  let condition ← operation calls
  match ← through Reader.optional (branches calls) with
  | some (yes, no) => return .choice condition yes no
  | none => return condition

/-- The readers that call each other, some calls deep, and `last` in place of what would be called then. -/
def calling (last : GaugedGrammar) : Nat → GaugedGrammar
  | 0 => last
  | calls + 1 =>
    let deeper := calling last calls
    ⟨nested (choiceAbove deeper), nested (powerAbove deeper), nested (signedAbove deeper)⟩

def parse (g : GaugedGrammar) (text : String) : Except ParseError Formula × Gauge :=
  let s := text.toList
  if (skipLayout s).isEmpty then (.error (errorAt s [] .empty), .start)
  else
    match g.choice .start s with
    | (.ok f rest, gauge) =>
      (match skipLayout rest with
        | [] => .ok f
        | rest => .error (errorAt s rest .trailing), gauge)
    | (.soft failure, gauge) | (.hard failure, gauge) =>
      (.error (errorAt s failure.rest (if gauge.exceeded then .tooDeep else failure.cause.fault)), gauge)

end GaugedGrammar

/-! ### Counting changes nothing -/

def Outcome.Orderly {α : Type} (o : Outcome α) : Prop := ∀ f, o = .soft f → f.cause ≠ .tooDeep

/-- What a reader that counts has made of a text, with the gauge at `g` before: the outcome is `o`, the depth
is what it was, and the gauge is exceeded if it was before or if the reading ended at the deepest level. -/
structure Kept {α : Type} (g : Gauge) (o : Outcome α) (r : Outcome α × Gauge) : Prop where
  outcome : r.1 = o
  depth : r.2.depth = g.depth
  deepest : r.2.deepest ≤ maxNesting
  exceeded : r.2.exceeded = true ↔ g.exceeded = true ∨ o.TooDeep
  orderly : o.Orderly

def Keeps {α : Type} (n : Nat) (p : Gauged α) (q : Reader α) : Prop :=
  ∀ g s, g.depth + n = maxNesting → g.deepest ≤ maxNesting → Kept g (q s) (p g s)

section Outcomes

variable {α β : Type}

theorem orderly_ok (a : α) (rest : List Char) : (Outcome.ok a rest).Orderly := by
  intro f h
  cases h

theorem orderly_soft_iff (f : Failure) : (Outcome.soft f : Outcome α).Orderly ↔ f.cause ≠ .tooDeep := by
  refine ⟨fun h => h f rfl, fun ne f' h => ?_⟩
  cases h
  exact ne

theorem orderly_hard (f : Failure) : (Outcome.hard f : Outcome α).Orderly := by
  intro _ h
  cases h

theorem not_tooDeep_ok (a : α) (rest : List Char) : ¬ (Outcome.ok a rest).TooDeep := by
  rintro ⟨_, h⟩
  cases h

theorem not_tooDeep_soft (f : Failure) : ¬ (Outcome.soft f : Outcome α).TooDeep := by
  rintro ⟨_, h⟩
  cases h

theorem tooDeep_hard_iff (f : Failure) : (Outcome.hard f : Outcome α).TooDeep ↔ f.cause = .tooDeep := by
  constructor
  · rintro ⟨_, h⟩
    cases h
    rfl
  · intro h
    exact ⟨f.rest, by rw [← h]⟩

variable {g : Gauge} {r : Outcome α × Gauge} {o : Outcome α}

theorem Kept.and {o' : Outcome β} {r' : Outcome β × Gauge} (h : Kept g o r) (free : ¬ o.TooDeep)
    (h' : Kept r.2 o' r') : Kept g o' r' where
  outcome := h'.outcome
  depth := h'.depth.trans h.depth
  deepest := h'.deepest
  exceeded := by rw [h'.exceeded, h.exceeded, or_iff_left free]
  orderly := h'.orderly

theorem Kept.alike {o' : Outcome β} (h : Kept g o r) (orderly : o'.Orderly) (same : o'.TooDeep ↔ o.TooDeep) :
    Kept g o' (o', r.2) where
  outcome := rfl
  depth := h.depth
  deepest := h.deepest
  exceeded := by rw [h.exceeded, same]
  orderly := orderly

end Outcomes

/-- Of a reader only the outcome on the text is used, and no failure becomes one for the depth, nor ceases to
be one. -/
structure Transparent {α β : Type} (change : Reader α → Reader β) : Prop where
  local_ : ∀ q s, change (fun _ => q s) s = change q s
  orderly : ∀ q s, (q s).Orderly → (change q s).Orderly
  tooDeep : ∀ q s, (q s).Orderly → ((change q s).TooDeep ↔ (q s).TooDeep)

namespace Transparent

variable {α β γ : Type}

theorem comp {change : Reader β → Reader γ} {change' : Reader α → Reader β} (h : Transparent change)
    (h' : Transparent change') : Transparent fun q => change (change' q) where
  local_ q s := by
    have inner := h.local_ (change' fun _ => q s) s
    rw [h'.local_ q s] at inner
    exact inner.symm.trans (h.local_ (change' q) s)
  orderly q s ho := h.orderly _ s (h'.orderly q s ho)
  tooDeep q s ho := (h.tooDeep _ s (h'.orderly q s ho)).trans (h'.tooDeep q s ho)

theorem cut : Transparent (Reader.cut : Reader α → Reader α) where
  local_ q s := rfl
  orderly q s ho := by
    unfold Reader.cut
    cases h : q s with
    | ok a rest => exact orderly_ok a rest
    | soft f => exact orderly_hard f
    | hard f => exact orderly_hard f
  tooDeep q s ho := by
    unfold Reader.cut
    cases h : q s with
    | soft f =>
      rw [h] at ho
      exact iff_of_false (fun no => ho f rfl ((tooDeep_hard_iff f).1 no)) (not_tooDeep_soft f)
    | _ => exact Iff.rfl

theorem optional : Transparent (Reader.optional : Reader α → Reader (Option α)) where
  local_ q s := rfl
  orderly q s ho := by
    unfold Reader.optional
    cases h : q s with
    | ok a rest => exact orderly_ok _ rest
    | soft f => exact orderly_ok _ s
    | hard f => exact orderly_hard f
  tooDeep q s ho := by
    unfold Reader.optional
    cases h : q s with
    | ok a rest => exact iff_of_false (not_tooDeep_ok _ rest) (not_tooDeep_ok a rest)
    | soft f => exact iff_of_false (not_tooDeep_ok _ s) (not_tooDeep_soft f)
    | hard f => rw [tooDeep_hard_iff, tooDeep_hard_iff]

theorem reporting {change : Cause → Cause} (keeps : ∀ c, change c = .tooDeep ↔ c = .tooDeep) :
    Transparent (Reader.reporting change : Reader α → Reader α) where
  local_ q s := rfl
  orderly q s ho := by
    unfold Reader.reporting
    cases h : q s with
    | ok a rest => exact orderly_ok a rest
    | soft f =>
      intro f' hf'
      cases hf'
      exact fun no => ho f h ((keeps f.cause).1 no)
    | hard f => exact orderly_hard _
  tooDeep q s ho := by
    unfold Reader.reporting
    cases h : q s with
    | ok a rest => exact Iff.rfl
    | soft f => exact iff_of_false (not_tooDeep_soft _) (not_tooDeep_soft f)
    | hard f =>
      rw [tooDeep_hard_iff, tooDeep_hard_iff]
      exact keeps f.cause

theorem within (label : String) : Transparent (Reader.within label : Reader α → Reader α) := by
  delta Reader.within
  refine reporting fun c => ?_
  cases c with
  | tooDeep => exact Iff.rfl
  | missing label expected => cases label <;> exact iff_of_false nofun nofun

theorem wanting (e : Expected) : Transparent (Reader.wanting e : Reader α → Reader α) := by
  delta Reader.wanting
  refine reporting fun c => ?_
  cases c with
  | tooDeep => exact Iff.rfl
  | missing label expected => exact iff_of_false nofun nofun

end Transparent

def Outcome.Mild {α : Type} (o : Outcome α) : Prop := o.Orderly ∧ ¬ o.TooDeep

def Mild {α : Type} (q : Reader α) : Prop := ∀ s, (q s).Mild

section Outcomes

variable {α : Type}

theorem mild_ok (a : α) (rest : List Char) : (Outcome.ok a rest).Mild :=
  ⟨orderly_ok a rest, not_tooDeep_ok a rest⟩

theorem mild_soft (label : Option String) (expected : List Expected) (rest : List Char) :
    (Outcome.soft ⟨.missing label expected, rest⟩ : Outcome α).Mild :=
  ⟨(orderly_soft_iff _).2 nofun, not_tooDeep_soft _⟩

theorem mild_hard (label : Option String) (expected : List Expected) (rest : List Char) :
    (Outcome.hard ⟨.missing label expected, rest⟩ : Outcome α).Mild :=
  ⟨orderly_hard _, fun no => nomatch (tooDeep_hard_iff _).1 no⟩

end Outcomes

namespace Mild

variable {α β : Type} {p q : Reader α}

theorem pure (a : α) : Mild (Pure.pure a) := fun s => mild_ok a s

theorem bind {next : α → Reader β} (h : Mild q) (hnext : ∀ a, Mild (next a)) : Mild (q >>= next) := by
  intro s
  have first := h s
  simp only [Bind.bind]
  cases hq : q s with
  | ok a rest => exact hnext a rest
  | soft f =>
    rw [hq] at first
    exact ⟨(orderly_soft_iff f).2 ((orderly_soft_iff f).1 first.1), not_tooDeep_soft f⟩
  | hard f =>
    rw [hq] at first
    exact ⟨orderly_hard f, fun no => first.2 ((tooDeep_hard_iff f).2 ((tooDeep_hard_iff f).1 no))⟩

theorem orElse (hp : Mild p) (hq : Mild q) : Mild (p.orElse q) := by
  intro s
  have first := hp s
  unfold Reader.orElse
  cases hs : p s with
  | soft f => exact hq s
  | ok a rest =>
    rw [hs] at first
    exact first
  | hard f =>
    rw [hs] at first
    exact first

theorem through {change : Reader α → Reader β} (transparent : Transparent change) (h : Mild q) :
    Mild (change q) := fun s =>
  ⟨transparent.orderly q s (h s).1, fun no => (h s).2 ((transparent.tooDeep q s (h s).1).1 no)⟩

end Mild

namespace Keeps

variable {α β : Type} {n : Nat} {p : Gauged α} {q : Reader α}

theorem flat (mild : Mild q) : Keeps n (.flat q) q := fun _ s _ bound => {
  outcome := rfl
  depth := rfl
  deepest := bound
  exceeded := (or_iff_left (mild s).2).symm
  orderly := (mild s).1 }

theorem pure (a : α) : Keeps n (Pure.pure a) (Pure.pure a) := by
  refine flat fun s => ⟨orderly_ok a s, not_tooDeep_ok a s⟩

theorem bind {next : α → Gauged β} {next' : α → Reader β} (h : Keeps n p q)
    (hnext : ∀ a, Keeps n (next a) (next' a)) : Keeps n (p >>= next) (q >>= next') := by
  intro g s left bound
  have first := h g s left bound
  have levels : (p g s).2.depth + n = maxNesting := by rw [first.depth, left]
  simp only [Bind.bind]
  generalize p g s = r at first levels
  obtain ⟨o, g'⟩ := r
  obtain rfl : o = q s := first.outcome
  cases hq : q s with
  | ok a rest =>
    rw [hq] at first
    exact first.and (not_tooDeep_ok a rest) (hnext a g' rest levels first.deepest)
  | soft f =>
    rw [hq] at first
    have orderly := (orderly_soft_iff f).1 first.orderly
    exact first.alike ((orderly_soft_iff f).2 orderly) (iff_of_false (not_tooDeep_soft f) (not_tooDeep_soft f))
  | hard f =>
    rw [hq] at first
    exact first.alike (orderly_hard f) (by rw [tooDeep_hard_iff, tooDeep_hard_iff])

theorem through {change : Reader α → Reader β} (transparent : Transparent change) (h : Keeps n p q) :
    Keeps n (p.through change) (change q) := by
  intro g s left bound
  have first := h g s left bound
  have whole : p.through change g s = (change q s, (p g s).2) := by
    rw [Gauged.through, first.outcome, transparent.local_ q s]
  rw [whole]
  exact first.alike (transparent.orderly q s first.orderly) (transparent.tooDeep q s first.orderly)

theorem orElse {p' : Gauged α} {q' : Reader α} (h : Keeps n p q) (h' : Keeps n p' q') :
    Keeps n (p.orElse p') (q.orElse q') := by
  intro g s left bound
  have first := h g s left bound
  have levels : (p g s).2.depth + n = maxNesting := by rw [first.depth, left]
  unfold Gauged.orElse Reader.orElse
  generalize p g s = r at first levels
  obtain ⟨o, g'⟩ := r
  obtain rfl : o = q s := first.outcome
  cases hq : q s with
  | ok a rest =>
    rw [hq] at first
    exact first
  | soft f =>
    rw [hq] at first
    exact first.and (not_tooDeep_soft f) (h' g' s levels first.deepest)
  | hard f =>
    rw [hq] at first
    exact first

theorem many (h : Keeps n p q) : Keeps n p.many q.many := by
  intro g s
  induction hs : s.length using Nat.strongRecOn generalizing g s with
  | _ length ih =>
    subst hs
    intro left bound
    have first := h g s left bound
    have levels : (p g s).2.depth + n = maxNesting := by rw [first.depth, left]
    rw [Gauged.many, Reader.many]
    generalize p g s = r at first levels
    obtain ⟨o, g'⟩ := r
    obtain rfl : o = q s := first.outcome
    cases hq : q s with
    | ok a rest =>
      rw [hq] at first
      dsimp only
      split
      · rename_i shorter
        have more := ih rest.length shorter g' rest rfl levels first.deepest
        generalize p.many g' rest = r at more
        obtain ⟨o, g''⟩ := r
        obtain rfl : o = q.many rest := more.outcome
        refine first.and (not_tooDeep_ok a rest) ?_
        cases hmore : q.many rest with
        | ok as rest' =>
          rw [hmore] at more
          exact more.alike (orderly_ok _ rest') (iff_of_false (not_tooDeep_ok _ rest') (not_tooDeep_ok as rest'))
        | soft f =>
          rw [hmore] at more
          exact more
        | hard f =>
          rw [hmore] at more
          exact more
      · exact first.alike (orderly_ok _ s) (iff_of_false (not_tooDeep_ok _ s) (not_tooDeep_ok a rest))
    | soft f =>
      rw [hq] at first
      exact first.alike (orderly_ok _ s) (iff_of_false (not_tooDeep_ok _ s) (not_tooDeep_soft f))
    | hard f =>
      rw [hq] at first
      exact first.alike (orderly_hard f) (by rw [tooDeep_hard_iff, tooDeep_hard_iff])

theorem separated (h : Keeps n p q) {separator : Gauged Unit} {separator' : Reader Unit}
    (hs : Keeps n separator separator') : Keeps n (p.separated separator) (q.separated separator') :=
  h.bind fun _ => (hs.bind fun _ => h).many.bind fun _ => pure _

theorem tooDeep : Keeps n (Gauged.tooDeep : Gauged α) Reader.tooDeep := fun _ s _ bound => {
  outcome := rfl
  depth := rfl
  deepest := bound
  exceeded := iff_of_true rfl (.inr ⟨s, rfl⟩)
  orderly := orderly_hard _ }

theorem nested_zero (p : Gauged α) : Keeps 0 p.nested Reader.tooDeep := by
  intro g s left bound
  have full : maxNesting ≤ g.depth := by omega
  rw [Gauged.nested, if_pos full]
  exact tooDeep g s left bound

theorem nested (h : Keeps n p q) : Keeps (n + 1) p.nested q := by
  intro g s left bound
  have free : ¬ maxNesting ≤ g.depth := by omega
  have deeper : g.deeper.depth + n = maxNesting := by
    change g.depth + 1 + n = maxNesting
    omega
  have inside := h g.deeper s deeper (Nat.max_le.2 ⟨bound, by omega⟩)
  rw [Gauged.nested, if_neg free]
  exact {
    outcome := inside.outcome
    depth := by
      change (p g.deeper s).2.depth - 1 = g.depth
      rw [inside.depth]
      rfl
    deepest := inside.deepest
    exceeded := inside.exceeded
    orderly := inside.orderly }

end Keeps

end DerivedColumns.Formula
