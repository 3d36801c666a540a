import DerivedColumns.Proofs.Evaluation.Groups
import DerivedColumns.Proofs.Formula.Legible
import DerivedColumns.Proofs.Function.Finite

set_option autoImplicit false

/-!
Arithmetic operators check their results. Signs and aggregates do not: a sign hands on the number that a
text is read as, and an aggregate may overflow. There is no other way to a result that is infinite or NaN,
for a row with finite numbers.
-/

namespace DerivedColumns

def Fields.Finite (fields : Fields) : Prop := ∀ name v, fields.get? name = some v → v.Finite

namespace Evaluation

open Builtin (aggregation? given)

variable {fields : Fields}

theorem bounded_binary (op : BinaryOp) (left right : Value) : ¬ NotFinite (binary op left right) := by
  have arithmetic : ∀ op, ¬ NotFinite (arithmetic op left right) := by
    intro op h
    obtain ⟨a, -, h⟩ := notFinite_bind.1 h
    obtain ⟨b, -, h⟩ := notFinite_bind.1 h
    split at h
    · exact notFinite_error h
    · dsimp only at h
      split at h
      · rename_i finite
        exact notFinite_ok.1 h finite
      · exact notFinite_error h
  cases op with
  | add | sub | mul | div | pow => exact arithmetic _
  | _ => exact fun h => notFinite_ok.1 h trivial

/-- A sign hands on the number that its operand is read as. -/
theorem notFinite_unary (op : UnaryOp) (v : Value) : NotFinite (unary op v) ↔
    op ≠ .not ∧ ∃ x, v.toNumber? = some x ∧ x.isFinite = false := by
  have signed : ∀ (op : UnaryOp) (g : Number → Number), (∀ x, (g x).isFinite = x.isFinite) →
      (NotFinite ((numberOperand op.text v).map fun x => .number (g x)) ↔
        ∃ x, v.toNumber? = some x ∧ x.isFinite = false) := by
    intro op g same
    unfold numberOperand
    cases v.toNumber? with
    | none => exact iff_of_false notFinite_error nofun
    | some x =>
      change NotFinite (.ok (.number (g x))) ↔ _
      rw [notFinite_number, same]
      simp only [Option.some_inj, exists_eq_left']
  cases op with
  | neg => exact (signed .neg _ Number.isFinite_neg).trans (and_iff_right nofun).symm
  | plus => exact (signed .plus id fun _ => rfl).trans (and_iff_right nofun).symm
  | not => exact iff_of_false (fun h => notFinite_ok.1 h trivial) fun h => h.1 rfl

theorem bounded_atom (finite : fields.Finite) {a : Atom} (plain : a.Plain) : ¬ NotFinite (atom fields a) := by
  cases a with
  | field name =>
    unfold atom
    dsimp only
    split
    · rename_i v found
      exact fun h => notFinite_ok.1 h (finite name v found)
    · exact notFinite_error
  | number x => exact fun h => notFinite_ok.1 h plain.1
  | _ => exact fun h => notFinite_ok.1 h trivial

/-- The result of the formula is infinite or NaN, for one of these reasons. -/
inductive Escapes (fields : Fields) : Formula → Prop
  | text {op : UnaryOp} {x : Formula} {s : String} {y : Number} (signed : op ≠ .not)
    (value : ofFormula x fields = .ok (.text s)) (read : Number.read? (Text.trim s.toList) = some y)
    (infinite : y.isFinite = false) : Escapes fields (.unary op x)
  | sign {op : UnaryOp} {x : Formula} (signed : op ≠ .not) (operand : Escapes fields x) :
    Escapes fields (.unary op x)
  | yes {c t f : Formula} {v : Value} (condition : ofFormula c fields = .ok v) (holds : v.isTruthy = true)
    (branch : Escapes fields t) : Escapes fields (.choice c t f)
  | no {c t f : Formula} {v : Value} (condition : ofFormula c fields = .ok v) (fails : v.isTruthy = false)
    (branch : Escapes fields f) : Escapes fields (.choice c t f)
  | aggregate {name : String} {args : List Formula} {a : Aggregation} {values : List Value}
    (known : aggregation? (Text.lowercase name) = some a)
    (evaluated : scalars ⟨Library.standard, fields⟩ args = .ok values)
    (overflows : Overflows a (given values).length (given values)) : Escapes fields (.call name args)

theorem notFinite_sign (op : UnaryOp) (x : Formula)
    (operand : NotFinite (ofFormula x fields) ↔ Escapes fields x) :
    NotFinite (ofFormula (.unary op x) fields) ↔ Escapes fields (.unary op x) := by
  have handed : NotFinite (ofFormula (.unary op x) fields) ↔ ∃ v, ofFormula x fields = .ok v ∧
      op ≠ .not ∧ ∃ y, v.toNumber? = some y ∧ y.isFinite = false := by
    rw [ofFormula, scalar]
    simp only [notFinite_bind, notFinite_unary]
    rfl
  rw [handed]
  constructor
  · rintro ⟨v, value, signed, y, read, infinite⟩
    by_cases bounded : v.Finite
    · rcases v.toNumber?_finite bounded read with no | ⟨s, rfl⟩
      · rw [no] at infinite
        cases infinite
      · exact .text signed value read infinite
    · exact .sign signed (operand.1 ⟨v, value, bounded⟩)
  · intro escapes
    cases escapes with
    | text signed value read infinite => exact ⟨_, value, signed, _, read, infinite⟩
    | sign signed escapes =>
      obtain ⟨v, value, unbounded⟩ := operand.2 escapes
      cases v with
      | number y => exact ⟨_, value, signed, y, rfl, Bool.not_eq_true _ ▸ unbounded⟩
      | _ => exact absurd trivial unbounded

theorem notFinite_choice (c t f : Formula) (yes : NotFinite (ofFormula t fields) ↔ Escapes fields t)
    (no : NotFinite (ofFormula f fields) ↔ Escapes fields f) :
    NotFinite (ofFormula (.choice c t f) fields) ↔ Escapes fields (.choice c t f) := by
  have chosen : NotFinite (ofFormula (.choice c t f) fields) ↔ ∃ v, ofFormula c fields = .ok v ∧
      NotFinite (if v.isTruthy then ofFormula t fields else ofFormula f fields) := by
    rw [ofFormula, scalar, notFinite_bind]
    rfl
  rw [chosen]
  constructor
  · rintro ⟨v, condition, h⟩
    split at h
    · rename_i holds
      exact .yes condition holds (yes.1 h)
    · rename_i fails
      exact .no condition (Bool.not_eq_true _ ▸ fails) (no.1 h)
  · intro escapes
    cases escapes with
    | @yes _ _ _ v condition holds branch =>
      exact ⟨v, condition, by rw [if_pos holds]; exact yes.2 branch⟩
    | @no _ _ _ v condition fails branch =>
      exact ⟨v, condition, by rw [if_neg (by rw [fails]; decide)]; exact no.2 branch⟩

theorem arguments_of_tallies (scope : Scope) {f : Function} {a : Aggregation} (h : f.Tallies a)
    (values : List Value) : arguments scope f values = .ok values := by
  cases values with
  | nil => rfl
  | cons v more => rw [arguments, h.1, if_neg Bool.false_ne_true]

theorem notFinite_call (name : String) (args : List Formula) :
    NotFinite (ofFormula (.call name args) fields) ↔ Escapes fields (.call name args) := by
  have called : ∀ f, Library.standard.get? name = some f →
      (NotFinite (ofFormula (.call name args) fields) ↔
        ∃ values, scalars ⟨Library.standard, fields⟩ args = .ok values ∧
          ∃ given, arguments ⟨Library.standard, fields⟩ f values = .ok given ∧
            NotFinite (Library.call name f given)) := by
    intro f found
    rw [ofFormula, scalar]
    simp only [found, notFinite_bind]
  constructor
  · intro h
    cases found : Library.standard.get? name with
    | none =>
      rw [ofFormula, scalar] at h
      simp only [found] at h
      exact absurd h notFinite_error
    | some f =>
      obtain ⟨values, evaluated, given, prepared, h⟩ := (called f found).1 h
      have behaves := Library.behaved_standard _ f found
      cases known : aggregation? (Text.lowercase name) with
      | none => exact absurd h (behaves.bounded known name given)
      | some a =>
        have tallies := behaves.tallies a known
        rw [arguments_of_tallies _ tallies] at prepared
        cases prepared
        exact .aggregate known evaluated ((tallies.2 name _).1 h)
  · intro escapes
    cases escapes with
    | @aggregate _ _ a values known evaluated overflows =>
      obtain ⟨f, found⟩ := Option.isSome_iff_exists.1 (Library.isSome_get?_standard known)
      have tallies := (Library.behaved_standard _ f found).tallies a known
      exact (called f found).2
        ⟨values, evaluated, values, arguments_of_tallies _ tallies values, (tallies.2 name values).2 overflows⟩

theorem notFinite_ofFormula (finite : fields.Finite) : (f : Formula) → f.BuiltFrom Atom.Plain →
    (NotFinite (ofFormula f fields) ↔ Escapes fields f)
  | .atom a, plain => by
    rw [ofFormula, scalar]
    exact iff_of_false (bounded_atom finite plain) fun escapes => by cases escapes
  | .binary op l r, _ => by
    refine iff_of_false (fun h => ?_) fun escapes => by cases escapes
    rw [ofFormula, scalar] at h
    obtain ⟨left, -, h⟩ := notFinite_bind.1 h
    obtain ⟨right, -, h⟩ := notFinite_bind.1 h
    exact bounded_binary op left right h
  | .unary op x, plain => notFinite_sign op x (notFinite_ofFormula finite x plain)
  | .choice c t f, plain =>
    notFinite_choice c t f (notFinite_ofFormula finite t plain.2.1) (notFinite_ofFormula finite f plain.2.2)
  | .call name args, _ => notFinite_call name args
  | .group .., plain | .rank .., plain | .analysis .., plain => plain.elim

/-- The result of a formula for a row with finite numbers is infinite or NaN only if it comes from a sign
before a text that is read so, or from an aggregate that overflows; and of the groups of any rows, those that
overflow are. As long as all values are read as finite numbers, only sums and averages overflow. -/
theorem not_finite_iff_escapes {text : String} {f : Formula} (read : Formula.parse text = .ok f)
    {fields : Fields} (finite : fields.Finite) (keys : List String) (aggregation : Aggregation)
    (field : Option String) (rows : List Row) :
    ((∃ v, ofFormula f fields = .ok v ∧ ¬ v.Finite) ↔ Escapes fields f) ∧
    (∀ groups, group keys aggregation field rows = .ok groups → ∀ key,
      ((∃ v, groups.get? key = some v ∧ ¬ v.Finite) ↔ part keys rows key ≠ [] ∧
        Overflows aggregation (part keys rows key).length (aggregated field (part keys rows key)))) ∧
    (∀ (count : Nat) (values : List Value), count < 2 ^ 53 ∧ values.length < 2 ^ 53 →
      (∀ v ∈ values, ∀ x, v.toNumber? = some x → x.isFinite = true) →
      Overflows aggregation count values → aggregation = .sum ∨ aggregation = .average) := by
  refine ⟨?_, fun groups grouped key => ?_, fun count values => additive_of_overflows⟩
  · exact notFinite_ofFormula finite f (Formula.plain_of_parse read)
  · simp only [get?_group grouped]
    rw [← notFinite_aggregate]
    simp only [and_assoc, exists_and_left, NotFinite]

def large : Number := ⟨0x7FE1CCF385EBC8A0⟩

def huge : List Row := [⟨1, .ofList [("x", .number large)]⟩, ⟨2, .ofList [("x", .number large)]⟩]

theorem finite_empty : Fields.Finite .empty := fun _ _ none => by cases none

theorem signed_text : ∃ f v, Formula.parse "+'inf'" = .ok f ∧ ofFormula f .empty = .ok v ∧ ¬ v.Finite := by
  have infinite : ((Formula.parse "+'inf'").toOption.bind fun f => (ofFormula f .empty).toOption).any
      (fun v => !decide v.Finite) = true := by decide +kernel
  cases read : Formula.parse "+'inf'" with
  | error e =>
    rw [read] at infinite
    cases infinite
  | ok f =>
    rw [read] at infinite
    change (ofFormula f .empty).toOption.any _ = true at infinite
    cases value : ofFormula f .empty with
    | error e =>
      rw [value] at infinite
      cases infinite
    | ok v =>
      rw [value] at infinite
      have infinite : (!decide v.Finite) = true := infinite
      exact ⟨f, v, rfl, value, by simpa using infinite⟩

theorem not_finite_iff_escapes_huge :
    (∃ f, Formula.parse "+'inf'" = .ok f ∧ Fields.Finite .empty ∧ Escapes .empty f) ∧
    (∃ groups, group [] .sum (some "x") huge = .ok groups ∧ ∃ v, groups.get? "" = some v ∧ ¬ v.Finite) ∧
    ¬ Overflows .max 2 (aggregated (some "x") huge) := by
  obtain ⟨f, v, read, value, infinite⟩ := signed_text
  obtain ⟨escapes, overflow, -⟩ := not_finite_iff_escapes read finite_empty [] .sum (some "x") huge
  obtain ⟨-, -, additive⟩ := not_finite_iff_escapes read finite_empty [] .max (some "x") huge
  refine ⟨⟨f, read, finite_empty, escapes.1 ⟨v, value, infinite⟩⟩, ?_, fun overflows => ?_⟩
  · have overflows : Overflows .sum 2 (aggregated (some "x") huge) :=
      ⟨[large, large], .cons rfl (.cons rfl .nil), by decide +kernel⟩
    have summed : (group [] .sum (some "x") huge).isOk = true := by decide +kernel
    cases grouped : group [] .sum (some "x") huge with
    | error e =>
      rw [grouped] at summed
      cases summed
    | ok groups =>
      have all : part [] huge "" = huge := List.filter_eq_self.2 fun row _ => beq_iff_eq.2 rfl
      refine ⟨groups, rfl, (overflow groups grouped "").2 ?_⟩
      rw [all]
      exact ⟨List.cons_ne_nil _ _, overflows⟩
  · have finite : ∀ v ∈ aggregated (some "x") huge, ∀ x, v.toNumber? = some x → x.isFinite = true := by
      intro v hv x read
      have values : aggregated (some "x") huge = List.replicate 2 (.number large) := rfl
      rw [values] at hv
      cases List.eq_of_mem_replicate hv
      cases read
      decide
    rcases additive 2 _ (by decide) finite overflows with no | no
    · cases no
    · cases no

theorem not_finite_signed_text : ¬ ∀ (text : String) (f : Formula) (fields : Fields),
    Formula.parse text = .ok f → fields.Finite → ∀ v, ofFormula f fields = .ok v → v.Finite := by
  intro always
  obtain ⟨f, v, read, value, infinite⟩ := signed_text
  exact infinite (always _ f .empty read finite_empty v value)

end Evaluation

end DerivedColumns
