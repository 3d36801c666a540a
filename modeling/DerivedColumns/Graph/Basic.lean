import DerivedColumns.Names

set_option autoImplicit false

namespace DerivedColumns

structure DependencyGraph where
  entries : ByName Names

namespace DependencyGraph

def empty : DependencyGraph := ⟨∅⟩

instance : EmptyCollection DependencyGraph := ⟨empty⟩

def contains (g : DependencyGraph) (column : String) : Bool := g.entries.contains column

def columns (g : DependencyGraph) : List String := g.entries.keys

def reads? (g : DependencyGraph) (column : String) : Option Names := g.entries[column]?

def readsOf (g : DependencyGraph) (column : String) : List String :=
  ((g.reads? column).getD ∅).toList

def set (g : DependencyGraph) (column : String) (reads : Names) : DependencyGraph :=
  ⟨g.entries.insert column reads⟩

def link (g : DependencyGraph) (column name : String) : DependencyGraph :=
  g.set column (((g.reads? column).getD ∅).insert name)

/-- Removes the entry of a column; others may still read it. -/
def remove (g : DependencyGraph) (column : String) : DependencyGraph := ⟨g.entries.erase column⟩

/-- Lets no column read `name`. -/
def strip (g : DependencyGraph) (name : String) : DependencyGraph :=
  ⟨g.entries.map fun _ reads => reads.erase name⟩

def move (g : DependencyGraph) (old new : String) : DependencyGraph :=
  match g.reads? old with
  | some reads => (g.remove old).set new reads
  | none => g

def rename (g : DependencyGraph) (old new : String) : DependencyGraph :=
  ⟨(g.move old new).entries.map fun _ reads =>
    if reads.contains old then (reads.erase old).insert new else reads⟩

def readers (g : DependencyGraph) (name : String) : List String :=
  (g.entries.filter fun _ reads => reads.contains name).keys

end DependencyGraph

end DerivedColumns
