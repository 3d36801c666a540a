import DerivedColumns.Formula.Basic

set_option autoImplicit false

namespace DerivedColumns

def Atom.beq : Atom → Atom → Bool
  | .number x, .number y => x.equals y
  | .text s, .text t => s == t
  | .bool a, .bool b => a == b
  | .null, .null => true
  | .field m, .field n => m == n
  | _, _ => false

instance : BEq Atom := ⟨Atom.beq⟩

namespace Formula

def beqParams : List (String × Atom) → List (String × Atom) → Bool
  | [], [] => true
  | (j, a) :: ps, (k, b) :: qs => j == k && a == b && beqParams ps qs
  | _, _ => false

mutual

def beq : Formula → Formula → Bool
  | .atom a, .atom b => a == b
  | .binary op l r, .binary op' l' r' => op == op' && l.beq l' && r.beq r'
  | .unary op x, .unary op' x' => op == op' && x.beq x'
  | .choice c t f, .choice c' t' f' => c.beq c' && t.beq t' && f.beq f'
  | .call name args, .call name' args' => name == name' && beqAll args args'
  | .group keys aggregation field, .group keys' aggregation' field' =>
    keys == keys' && aggregation == aggregation' && field == field'
  | .rank keys normalized cumulative, .rank keys' normalized' cumulative' =>
    keys == keys' && normalized == normalized' && cumulative == cumulative'
  | .analysis algorithm inputs params, .analysis algorithm' inputs' params' =>
    algorithm == algorithm' && inputs == inputs' && beqParams params.toList params'.toList
  | _, _ => false

def beqAll : List Formula → List Formula → Bool
  | [], [] => true
  | f :: fs, g :: gs => f.beq g && beqAll fs gs
  | _, _ => false

end

instance : BEq Formula := ⟨beq⟩

end Formula

end DerivedColumns
