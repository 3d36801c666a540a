import DerivedColumns.Function.Error
import DerivedColumns.Names
import DerivedColumns.Text.Case

set_option autoImplicit false

namespace DerivedColumns

structure Function where
  /-- Whether the first argument is turned into a date before the call. -/
  takesDate : Bool
  /-- What the function computes; nothing for a reserved name. -/
  compute : Option (List Value → Evaluated Value)

structure Library where
  functions : ByName Function

namespace Library

def empty : Library := ⟨∅⟩

def get? (lib : Library) (name : String) : Option Function := lib.functions[Text.lowercase name]?

def contains (lib : Library) (name : String) : Bool := (lib.get? name).isSome

def names (lib : Library) : List String := lib.functions.keys

def put (lib : Library) (name : String) (f : Function) : Library :=
  ⟨lib.functions.insert (Text.lowercase name) f⟩

def register (lib : Library) (name : String) (compute : List Value → Evaluated Value) : Library :=
  lib.put name ⟨false, some compute⟩

/-- Adds a function whose first argument is a date. -/
def registerDate (lib : Library) (name : String) (compute : List Value → Evaluated Value) : Library :=
  lib.put name ⟨true, some compute⟩

def reserve (lib : Library) (name : String) : Library := lib.put name ⟨false, none⟩

def call (name : String) (f : Function) (args : List Value) : Evaluated Value :=
  match f.compute with
  | some compute => compute args
  | none => .error (.notImplemented (Text.lowercase name))

end Library

end DerivedColumns
