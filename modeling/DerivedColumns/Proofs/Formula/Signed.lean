import DerivedColumns.Proofs.Formula.Accepted

set_option autoImplicit false

namespace DerivedColumns

def Atom.Spelled : Atom → Prop
  | .number x => x.isFinite = true
  | .field name => Formula.isWord name.toList = true ∧ Formula.Grammar.keyword? name = none
  | _ => True

/-- What is read of the written form: below zero and for the negative zero a sign and a constant. -/
def Atom.unsigned : Atom → Formula
  | .number x => if x.isNegative then .unary .neg (.atom (.number (-x))) else .atom (.number x)
  | a => .atom a

namespace Formula

mutual

/-- The formula with a minus sign before every constant that has one. -/
def unsigned : Formula → Formula
  | .atom a => a.unsigned
  | .binary op l r => .binary op l.unsigned r.unsigned
  | .unary op x => .unary op x.unsigned
  | .choice c t f => .choice c.unsigned t.unsigned f.unsigned
  | .call name args => .call name (unsignedAll args)
  | .group keys aggregation field => .group keys aggregation field
  | .rank keys normalized cumulative => .rank keys normalized cumulative
  | .analysis algorithm inputs params => .analysis algorithm inputs params

def unsignedAll : List Formula → List Formula
  | [] => []
  | f :: fs => f.unsigned :: unsignedAll fs

end

theorem precedence_unsigned (f : Formula) : f.unsigned.precedence = f.precedence := by
  cases f with
  | atom a =>
    cases a with
    | number x =>
      rw [unsigned, Atom.unsigned, precedence]
      by_cases negative : x.isNegative = true
      · rw [if_pos negative, if_pos negative]
        rfl
      · rw [if_neg negative, if_neg negative, precedence, if_neg negative]
    | _ => rfl
  | _ => rfl

theorem isEmpty_unsignedAll (fs : List Formula) : (unsignedAll fs).isEmpty = fs.isEmpty := by
  cases fs <;> rfl

theorem chars_neg {x : Number} (finite : x.isFinite = true) (negative : x.isNegative = true) :
    chars (.unary .neg (.atom (.number (-x)))) = chars (.atom (.number x)) := by
  have positive : (-x).isNegative = false := by rw [Number.isNegative_neg, negative]; rfl
  have bare : ¬ precedence (.atom (.number (-x))) < unaryPrecedence := by
    rw [precedence, positive]
    decide
  rw [chars_unary, decide_eq_false bare, chars_atom, chars_atom, Atom.chars, Atom.chars,
    Number.chars_of_isFinite finite, Number.chars_of_isFinite ((Number.isFinite_neg x).trans finite),
    positive, negative, Number.plainDigits_neg]
  rfl

mutual

theorem chars_unsigned : (f : Formula) → f.BuiltFrom Atom.Spelled → f.unsigned.chars = f.chars
  | .atom a, built => by
    cases a with
    | number x =>
      rw [unsigned, Atom.unsigned]
      split
      · rename_i negative
        exact chars_neg built negative
      · rfl
    | _ => rfl
  | .binary op l r, built => by
    rw [unsigned, chars_binary, chars_binary, chars_unsigned l built.1, chars_unsigned r built.2,
      precedence_unsigned, precedence_unsigned]
  | .unary op x, built => by
    rw [unsigned, chars_unary, chars_unary, chars_unsigned x built, precedence_unsigned]
  | .choice c t f, built => by
    rw [unsigned, chars_choice, chars_choice, chars_unsigned c built.1, chars_unsigned t built.2.1,
      chars_unsigned f built.2.2, precedence_unsigned]
  | .call name args, built => by
    rw [unsigned, chars_call, chars_call, charsAll_unsigned args built.2]
  | .group .., _ => rfl
  | .rank .., _ => rfl
  | .analysis .., _ => rfl

theorem charsAll_unsigned : (fs : List Formula) → BuiltFromAll Atom.Spelled fs →
    charsAll (unsignedAll fs) = charsAll fs
  | [], _ => rfl
  | f :: fs, built => by
    rw [unsignedAll, charsAll, charsAll, chars_unsigned f built.1, charsAll_unsigned fs built.2]

end

mutual

theorem layoutAt_unsigned (width : Nat) : (depth : Nat) → (f : Formula) → f.BuiltFrom Atom.Spelled →
    layoutAt width depth f.unsigned = layoutAt width depth f
  | depth, .atom a, built => by
    cases a with
    | number x =>
      rw [unsigned, Atom.unsigned]
      split
      · rename_i negative
        exact chars_neg built negative
      · rfl
    | _ => rfl
  | depth, .binary op l r, built => chars_unsigned (.binary op l r) built
  | depth, .unary op x, built => chars_unsigned (.unary op x) built
  | depth, .choice c t f, built => by
    have whole := chars_unsigned (.choice c t f) built
    have same : fits width depth (unsigned (.choice c t f)) = fits width depth (.choice c t f) := by
      rw [fits, fits, whole]
    rw [unsigned] at same whole ⊢
    rw [layoutAt, layoutAt, same, whole, precedence_unsigned, chars_unsigned c built.1,
      layoutAt_unsigned width (depth + 1) t built.2.1, layoutAt_unsigned width (depth + 1) f built.2.2]
  | depth, .call name args, built => by
    have whole := chars_unsigned (.call name args) built
    have same : fits width depth (unsigned (.call name args)) = fits width depth (.call name args) := by
      rw [fits, fits, whole]
    rw [unsigned] at same whole ⊢
    rw [layoutAt, layoutAt, same, whole, isEmpty_unsignedAll,
      layoutArgs_unsigned width (depth + 1) args built.2]
  | depth, .group .., _ => rfl
  | depth, .rank .., _ => rfl
  | depth, .analysis .., _ => rfl

theorem layoutArgs_unsigned (width : Nat) : (depth : Nat) → (fs : List Formula) →
    BuiltFromAll Atom.Spelled fs → layoutArgs width depth (unsignedAll fs) = layoutArgs width depth fs
  | depth, [], _ => rfl
  | depth, [f], built => by
    rw [unsignedAll, unsignedAll, layoutArgs, layoutArgs, layoutAt_unsigned width depth f built.1]
  | depth, f :: g :: more, built => by
    have rest := layoutArgs_unsigned width depth (g :: more) built.2
    rw [unsignedAll] at rest
    rw [unsignedAll, unsignedAll, layoutArgs, layoutArgs, layoutAt_unsigned width depth f built.1, rest]

end

theorem literal_unsigned {a : Atom} (spelled : a.Spelled) : a.unsigned.BuiltFrom Atom.Literal := by
  cases a with
  | number x =>
    rw [Atom.unsigned]
    split
    · rename_i negative
      exact ⟨(Number.isFinite_neg x).trans spelled, by rw [Number.isNegative_neg, negative]; rfl⟩
    · rename_i positive
      exact ⟨spelled, Bool.eq_false_iff.2 positive⟩
  | _ => exact spelled

mutual

theorem builtFrom_unsigned : (f : Formula) → f.BuiltFrom Atom.Spelled → f.unsigned.BuiltFrom Atom.Literal
  | .atom _, built => literal_unsigned built
  | .binary _ l r, built => ⟨builtFrom_unsigned l built.1, builtFrom_unsigned r built.2⟩
  | .unary _ x, built => builtFrom_unsigned x built
  | .choice c t f, built =>
    ⟨builtFrom_unsigned c built.1, builtFrom_unsigned t built.2.1, builtFrom_unsigned f built.2.2⟩
  | .call _ args, built => ⟨built.1, builtFromAll_unsigned args built.2⟩
  | .group .., built => built.elim
  | .rank .., built => built.elim
  | .analysis .., built => built.elim

theorem builtFromAll_unsigned : (fs : List Formula) → BuiltFromAll Atom.Spelled fs →
    BuiltFromAll Atom.Literal (unsignedAll fs)
  | [], _ => trivial
  | f :: fs, built => ⟨builtFrom_unsigned f built.1, builtFromAll_unsigned fs built.2⟩

end

end Formula

end DerivedColumns
