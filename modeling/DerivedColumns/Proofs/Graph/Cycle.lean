import DerivedColumns.Proofs.Graph.Search
import DerivedColumns.Proofs.Graph.Topological

set_option autoImplicit false

namespace DerivedColumns

open Relation

/-- From the column along edges back to it, without meeting a name twice on the way. -/
structure Cycle.Around (g : DependencyGraph) (column : String) (c : Cycle) : Prop where
  along : c.path.IsChain g.Edge
  simple : ∃ between, c.path = column :: (between ++ [column]) ∧ (column :: between).Nodup

namespace DependencyGraph

variable {g : DependencyGraph} {column name : String} {fresh before : List String}

/-- A way from the column to a name that is still to be looked at. The columns before the name have been
entered, so that they are no longer fresh; the column itself is never entered again. -/
structure OnWay (g : DependencyGraph) (column : String) (fresh : List String) (name : String)
    (before : List String) : Prop where
  trail : Trail g.readsOf [column] before name
  first : before.head? = some column
  distinct : before.Nodup
  entered : ∀ n ∈ before, n ∈ fresh → n = column

theorem OnWay.erase (h : OnWay g column fresh name before) (other : String) :
    OnWay g column (fresh.erase other) name before where
  trail := h.trail
  first := h.first
  distinct := h.distinct
  entered := fun n hn hf => h.entered n hn (List.mem_of_mem_erase hf)

theorem OnWay.step (h : OnWay g column fresh name before) (nodup : fresh.Nodup) (ne : name ≠ column)
    (isFresh : name ∈ fresh) {next : String} (reads : next ∈ g.readsOf name) :
    OnWay g column (fresh.erase name) next (before ++ [name]) where
  trail := h.trail.step reads
  first := by simp [h.first]
  distinct := by
    have new : name ∉ before := fun hn => ne (h.entered name hn isFresh)
    rw [List.nodup_append]
    refine ⟨h.distinct, by simp, ?_⟩
    intro n hn m hm same
    rw [List.mem_singleton.1 hm] at same
    exact new (same ▸ hn)
  entered := by
    intro n hn hf
    rcases List.mem_append.1 hn with hn | hn
    · exact h.entered n hn (List.mem_of_mem_erase hf)
    · rw [List.mem_singleton.1 hn] at hf
      exact absurd hf nodup.not_mem_erase

theorem OnWay.around (h : OnWay g column fresh column before) : Cycle.Around g column ⟨before ++ [column]⟩ where
  along := h.trail.isChain
  simple := by
    cases before with
    | nil => cases h.first
    | cons n between =>
      obtain rfl : n = column := Option.some.inj h.first
      exact ⟨between, rfl, h.distinct⟩

theorem around_of_wayTo {paths : List (String × List String)} {path : List String} (nodup : fresh.Nodup)
    (onWay : ∀ p ∈ paths, OnWay g column fresh p.1 p.2) (h : g.wayTo column fresh paths = some path) :
    Cycle.Around g column ⟨path⟩ := by
  -- Every way on the stack stays one: a fruitless visit only takes a column from the fresh ones.
  fun_induction wayTo g column fresh paths with
  | case1 fresh => cases h
  | case2 fresh before more =>
    cases h
    exact (onWay (column, before) List.mem_cons_self).around
  | case3 fresh name before more ne isFresh ih =>
    refine ih (nodup.erase name) (fun p hp => ?_) h
    rcases List.mem_append.1 hp with hp | hp
    · obtain ⟨next, reads, rfl⟩ := List.mem_map.1 hp
      exact (onWay (name, before) List.mem_cons_self).step nodup ne isFresh reads
    · exact (onWay p (List.mem_cons_of_mem _ hp)).erase name
  | case4 fresh name before more ne notFresh ih =>
    exact ih nodup (fun p hp => onWay p (List.mem_cons_of_mem _ hp)) h

/-- A cycle is found exactly if the column reaches itself by edges, and what is found is a simple cycle
through the column. -/
theorem cycle_through_exact (g : DependencyGraph) (column : String) :
    ((∃ c, g.cycleThrough? column = some c) ↔ TransGen g.Edge column column) ∧
      ∀ c, g.cycleThrough? column = some c → c.Around g column := by
  constructor
  · rw [← Option.ne_none_iff_exists', ne_eq, cycleThrough?_eq_none_iff, not_not]
  · intro c h
    obtain ⟨path, found, rfl⟩ := Option.map_eq_some_iff.1 h
    refine around_of_wayTo (nodup_columns g) (fun p hp => ?_) found
    obtain ⟨next, reads, rfl⟩ := List.mem_map.1 hp
    exact {
      trail := (Trail.root (List.mem_singleton_self column)).step reads
      first := rfl
      distinct := by simp
      entered := fun n hn _ => List.mem_singleton.1 hn }

end DependencyGraph

end DerivedColumns
