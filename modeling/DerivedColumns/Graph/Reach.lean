import DerivedColumns.Graph.Basic

set_option autoImplicit false

namespace DerivedColumns

def sift (names domain : List String) : List String × List String := domain.partition names.contains

theorem length_sift (names domain : List String) :
    (sift names domain).1.length + (sift names domain).2.length = domain.length := by
  have counted := domain.length_eq_countP_add_countP names.contains
  simpa [sift, List.countP_eq_length_filter, Function.comp_def] using counted.symm

theorem mem_sift (names domain : List String) (x : String) :
    (x ∈ (sift names domain).1 ↔ x ∈ domain ∧ x ∈ names) ∧
      (x ∈ (sift names domain).2 ↔ x ∈ domain ∧ x ∉ names) := by
  simp [sift]

/-- The names of `domain` that are found from the queued ones, where from a name those of `next` are
found. A name that is found leaves the domain and is queued, the last one in front. -/
def gather (next : String → List String) (domain : List String) : List String → List String
  | [] => []
  | name :: queue =>
    let sifted := sift (next name) domain
    sifted.1 ++ gather next sifted.2 (sifted.1.reverse ++ queue)
termination_by queue => 2 * domain.length + queue.length
decreasing_by
  have parts := length_sift (next name) domain
  simp only [List.length_append, List.length_reverse, List.length_cons]
  omega

def DependencyGraph.dependents (g : DependencyGraph) (column : String) : Names :=
  Names.ofList (gather g.readers (g.columns.erase column) [column])

end DerivedColumns
