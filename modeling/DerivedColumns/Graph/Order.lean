import DerivedColumns.Graph.Basic

set_option autoImplicit false

/-!
Both searches go depth first and read the dependencies of a column in ascending order, so that they
find the same cycle and the same order every time. A column that has been entered is not entered
again.
-/

namespace DerivedColumns

structure Cycle where
  path : List String
deriving DecidableEq

def Cycle.message (c : Cycle) : String := "dependency cycle: " ++ " -> ".intercalate c.path

namespace DependencyGraph

/-- How many names there are, with the names that they read. -/
def extent (reads : String → List String) : List String → Nat
  | [] => 0
  | name :: more => (reads name).length + 1 + extent reads more

theorem extent_erase (reads : String → List String) {name : String} {names : List String}
    (h : name ∈ names) :
    extent reads (names.erase name) + ((reads name).length + 1) = extent reads names := by
  induction names with
  | nil => cases h
  | cons first more ih =>
    rw [List.erase_cons]
    split
    · rename_i same
      rw [eq_of_beq same, extent, Nat.add_comm]
    · rename_i other
      rcases List.mem_cons.1 h with rfl | h
      · simp at other
      · have := ih h
        simp only [extent]
        omega

/-- A way to `target` that starts with one of the given paths, followed in turn, and goes on through
columns of `fresh`. A path is a name with the names before it. -/
def wayTo (g : DependencyGraph) (target : String) (fresh : List String) :
    List (String × List String) → Option (List String)
  | [] => none
  | (name, before) :: more =>
    if name = target then some (before ++ [name])
    else if name ∈ fresh then
      g.wayTo target (fresh.erase name)
        ((g.readsOf name).map (fun next => (next, before ++ [name])) ++ more)
    else g.wayTo target fresh more
termination_by paths => paths.length + extent g.readsOf fresh
decreasing_by
  · have := extent_erase g.readsOf ‹name ∈ fresh›
    simp only [List.length_append, List.length_map, List.length_cons]
    omega
  · simp

def cycleThrough? (g : DependencyGraph) (column : String) : Option Cycle :=
  (g.wayTo column g.columns ((g.readsOf column).map fun next => (next, [column]))).map Cycle.mk

inductive Visit where
  | enter (name : String) (path : List String)
  | place (name : String)

/-- The columns placed by some visits, made in turn. Only columns of `fresh` are entered; one that is
met on the path to itself closes a cycle. -/
def placed (steps : String → List String) (fresh : List String) : List Visit → Except Cycle (List String)
  | [] => .ok []
  | .place name :: more => (placed steps fresh more).map (name :: ·)
  | .enter name path :: more =>
    if name ∈ path then .error ⟨path.dropWhile (· ≠ name) ++ [name]⟩
    else if name ∈ fresh then
      placed steps (fresh.erase name)
        ((steps name).map (fun next => .enter next (path ++ [name])) ++ .place name :: more)
    else placed steps fresh more
termination_by visits => visits.length + extent steps fresh
decreasing_by
  · simp
  · have := extent_erase steps ‹name ∈ fresh›
    simp only [List.length_append, List.length_map, List.length_cons]
    omega
  · simp

def steps (g : DependencyGraph) (isNode : String → Bool) (column : String) : List String :=
  (g.readsOf column).filter fun name => g.contains name && isNode name

/-- The roots, each once and after all others that it depends on. Only nodes are followed. -/
def topologicalOrder (g : DependencyGraph) (isNode : String → Bool) (roots : List String) :
    Except Cycle (List String) :=
  (placed (g.steps isNode) (g.columns ++ roots).eraseDups (roots.map (Visit.enter · []))).map
    (·.filter roots.contains)

end DependencyGraph

end DerivedColumns
