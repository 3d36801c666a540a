import DerivedColumns.Formula.Basic

set_option autoImplicit false

namespace DerivedColumns

def Atom.reads : Atom → Names
  | .field name => Names.ofList [name]
  | _ => ∅

namespace Formula

mutual

def reads : Formula → Names
  | .atom a => a.reads
  | .binary _ l r => l.reads ∪ r.reads
  | .unary _ x => x.reads
  | .choice c t f => c.reads ∪ t.reads ∪ f.reads
  | .call _ args => readsAll args
  | .group keys _ field => Names.ofList (keys ++ field.toList)
  | .rank keys _ _ => Names.ofList keys
  | .analysis _ inputs _ => Names.ofList inputs

def readsAll : List Formula → Names
  | [] => ∅
  | f :: fs => f.reads ∪ readsAll fs

end

def substitute (old new name : String) : String := if name = old then new else name

mutual

def rename (old new : String) : Formula → Formula
  | .atom (.field name) => .atom (.field (substitute old new name))
  | .atom a => .atom a
  | .binary op l r => .binary op (l.rename old new) (r.rename old new)
  | .unary op x => .unary op (x.rename old new)
  | .choice c t f => .choice (c.rename old new) (t.rename old new) (f.rename old new)
  | .call name args => .call name (renameAll old new args)
  | .group keys aggregation field =>
    .group (keys.map (substitute old new)) aggregation (field.map (substitute old new))
  | .rank keys normalized cumulative =>
    .rank (keys.map (substitute old new)) normalized cumulative
  | .analysis algorithm inputs params =>
    .analysis algorithm (inputs.map (substitute old new)) params

def renameAll (old new : String) : List Formula → List Formula
  | [] => []
  | f :: fs => f.rename old new :: renameAll old new fs

end

end Formula

end DerivedColumns
