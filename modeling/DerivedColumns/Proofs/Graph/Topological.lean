import DerivedColumns.Proofs.Graph.Order
import Mathlib.Data.List.Chain
import Mathlib.Logic.Relation

set_option autoImplicit false

namespace DerivedColumns

open Relation

namespace InOrder

variable {steps : String → List String} {done order : List String}

theorem nodup (h : InOrder steps done order) : order.Nodup ∧ ∀ n ∈ order, n ∉ done := by
  induction order generalizing done with
  | nil => simp
  | cons name more ih =>
    obtain ⟨fresh, -, rest⟩ := h
    obtain ⟨distinct, apart⟩ := ih rest
    refine ⟨List.nodup_cons.2 ⟨fun again => apart name again List.mem_cons_self, distinct⟩, ?_⟩
    intro n hn
    rcases List.mem_cons.1 hn with rfl | hn
    · exact fresh
    · exact fun hd => apart n hn (List.mem_cons_of_mem _ hd)

theorem earlier_of_append {earlier later : List String} {name : String}
    (h : InOrder steps done (earlier ++ name :: later)) :
    ∀ n ∈ steps name, n ∈ earlier ∨ n ∈ done := by
  induction earlier generalizing done with
  | nil => exact fun n hn => .inr (h.2.1 n hn)
  | cons first earlier ih =>
    intro n hn
    rcases ih h.2.2 n hn with early | before
    · exact .inl (List.mem_cons_of_mem _ early)
    · rcases List.mem_cons.1 before with rfl | before
      · exact .inl List.mem_cons_self
      · exact .inr before

variable {u v : String}

theorem idxOf_lt_of_mem_steps (h : InOrder steps [] order) (hu : u ∈ order) (hv : v ∈ steps u) :
    v ∈ order ∧ order.idxOf v < order.idxOf u := by
  obtain ⟨earlier, later, rfl, first⟩ := List.eq_append_cons_of_mem hu
  have hv : v ∈ earlier := (h.earlier_of_append v hv).resolve_right List.not_mem_nil
  refine ⟨List.mem_append_left _ hv, ?_⟩
  rw [List.idxOf_append_of_mem hv, List.idxOf_append_of_notMem first, List.idxOf_cons_self]
  exact List.idxOf_lt_length_of_mem hv

theorem idxOf_lt_of_path (h : InOrder steps [] order) (hu : u ∈ order)
    (path : TransGen (fun a b => b ∈ steps a) u v) : v ∈ order ∧ order.idxOf v < order.idxOf u := by
  induction path with
  | single step => exact h.idxOf_lt_of_mem_steps hu step
  | tail _ step ih =>
    obtain ⟨hm, lt⟩ := ih
    obtain ⟨hv, lt'⟩ := h.idxOf_lt_of_mem_steps hm step
    exact ⟨hv, by omega⟩

end InOrder

theorem idxOf_filter_lt {p : String → Bool} {names : List String} {u v : String} (hv : p v = true)
    (h : names.idxOf v < names.idxOf u) : (names.filter p).idxOf v < (names.filter p).idxOf u := by
  induction names with
  | nil => simp at h
  | cons name names ih =>
    rw [List.idxOf_cons, List.idxOf_cons] at h
    by_cases hn : p name = true
    · rw [List.filter_cons_of_pos hn, List.idxOf_cons, List.idxOf_cons]
      grind
    · rw [List.filter_cons_of_neg hn]
      grind

structure Closes (r : String → String → Prop) (path : List String) : Prop where
  long : 2 ≤ path.length
  back : path.head? = path.getLast?
  along : path.IsChain r

/-- The path on which a search comes to a name from one of the roots. -/
inductive Trail (steps : String → List String) (roots : List String) : List String → String → Prop
  | root {name : String} (h : name ∈ roots) : Trail steps roots [] name
  | step {path : List String} {name next : String} (before : Trail steps roots path name)
    (h : next ∈ steps name) : Trail steps roots (path ++ [name]) next

section Paths

variable {steps : String → List String} {roots path : List String} {name : String}

theorem Closes.transGen {r : String → String → Prop} (h : Closes r path) : ∃ n ∈ path, TransGen r n n := by
  obtain ⟨long, back, along⟩ := h
  match path, long with
  | n :: m :: rest, _ =>
    have last : n ∈ m :: rest := by
      rw [List.head?_cons, List.getLast?_cons_cons] at back
      exact List.mem_of_getLast? back.symm
    exact ⟨n, List.mem_cons_self, (along.imp fun _ _ => TransGen.single).rel_cons last⟩

theorem Trail.isChain (h : Trail steps roots path name) :
    (path ++ [name]).IsChain fun a b => b ∈ steps a := by
  induction h with
  | root => exact .singleton _
  | step _ hn ih =>
    refine ih.append (.singleton _) ?_
    simpa using hn

theorem Trail.reached (h : Trail steps roots path name) :
    ∀ n ∈ path ++ [name], ∃ root ∈ roots, ReflTransGen (fun a b => b ∈ steps a) root n := by
  induction h with
  | @root name hr =>
    intro n hn
    exact ⟨name, hr, by rw [List.mem_singleton.1 hn]⟩
  | @step path name next _ hnext ih =>
    intro n hn
    rcases List.mem_append.1 hn with hn | hn
    · exact ih n hn
    · obtain ⟨root, hr, way⟩ := ih name (by simp)
      rw [List.mem_singleton.1 hn]
      exact ⟨root, hr, way.tail hnext⟩

theorem Trail.closes (h : Trail steps roots path name) (met : name ∈ path) :
    Closes (fun a b => b ∈ steps a) (path.dropWhile (· ≠ name) ++ [name]) := by
  obtain ⟨before, around, rfl, first⟩ := List.eq_append_cons_of_mem met
  have cut : (before ++ name :: around).dropWhile (· ≠ name) = name :: around := by
    rw [List.dropWhile_append_of_pos]
    · simp
    · intro n hn
      simpa using fun e : n = name => first (e ▸ hn)
  have along := h.isChain
  rw [List.append_assoc] at along
  rw [cut]
  exact ⟨by simp, by rw [List.getLast?_concat]; rfl, along.right_of_append⟩

end Paths

namespace DependencyGraph

def Step (g : DependencyGraph) (isNode : String → Bool) (u v : String) : Prop :=
  g.Edge u v ∧ g.contains v = true ∧ isNode v = true

theorem mem_steps_eq (g : DependencyGraph) (isNode : String → Bool) :
    (fun a b => b ∈ g.steps isNode a) = g.Step isNode := by
  funext a b
  exact propext (mem_steps g isNode a b)

/-- The cycle that stops a search is one that a root reaches. -/
theorem closes_of_placed {steps : String → List String} {roots fresh : List String} {visits : List Visit}
    {c : Cycle} (trails : ∀ name path, Visit.enter name path ∈ visits → Trail steps roots path name)
    (h : placed steps fresh visits = .error c) : Closes (fun a b => b ∈ steps a) c.path ∧
      ∀ n ∈ c.path, ∃ root ∈ roots, ReflTransGen (fun a b => b ∈ steps a) root n := by
  fun_induction placed steps fresh visits with
  | case1 fresh => cases h
  | case2 fresh name more ih =>
    refine ih (fun n path hv => trails n path (List.mem_cons_of_mem _ hv)) ?_
    cases later : placed steps fresh more with
    | ok order => rw [later] at h; cases h
    | error e => rw [later] at h; exact h
  | case3 fresh name path more met =>
    cases h
    have trail := trails name path List.mem_cons_self
    have part : (path.dropWhile (· ≠ name) ++ [name]).Sublist (path ++ [name]) :=
      (List.dropWhile_sublist _).append_right _
    exact ⟨trail.closes met, fun n hn => trail.reached n (part.subset hn)⟩
  | case4 fresh name path more _ _ ih =>
    refine ih (fun n p hv => ?_) h
    rcases List.mem_append.1 hv with hv | hv
    · obtain ⟨_, hstep, heq⟩ := List.mem_map.1 hv
      cases heq
      exact (trails name path List.mem_cons_self).step hstep
    · rcases List.mem_cons.1 hv with heq | hv
      · cases heq
      · exact trails n p (List.mem_cons_of_mem _ hv)
  | case5 fresh name path more _ _ ih =>
    exact ih (fun n p hv => trails n p (List.mem_cons_of_mem _ hv)) h

section Search

variable {g : DependencyGraph} {isNode : String → Bool} {roots : List String}

theorem closes_of_topologicalOrder {c : Cycle} (h : g.topologicalOrder isNode roots = .error c) :
    Closes (g.Step isNode) c.path ∧ ∀ n ∈ c.path, ∃ root ∈ roots, ReflTransGen (g.Step isNode) root n := by
  unfold topologicalOrder at h
  rw [← mem_steps_eq]
  cases search : placed (g.steps isNode) (g.columns ++ roots).eraseDups (roots.map (Visit.enter · [])) with
  | ok order => rw [search] at h; cases h
  | error e =>
    rw [search] at h
    cases h
    refine closes_of_placed (fun name path hv => ?_) search
    obtain ⟨root, hr, heq⟩ := List.mem_map.1 hv
    cases heq
    exact .root hr

/-- An order of the roots is cut out of one of all columns that they reach. -/
theorem exists_inOrder_of_topologicalOrder {order : List String}
    (h : g.topologicalOrder isNode roots = .ok order) :
    ∃ all, InOrder (g.steps isNode) [] all ∧ (∀ root ∈ roots, root ∈ all) ∧
      order = all.filter roots.contains := by
  unfold topologicalOrder at h
  cases search : placed (g.steps isNode) (g.columns ++ roots).eraseDups (roots.map (Visit.enter · [])) with
  | error e => rw [search] at h; cases h
  | ok all =>
    rw [search] at h
    cases h
    obtain ⟨inOrder, visited⟩ := inOrder_of_placed_roots search
    exact ⟨all, inOrder, visited, rfl⟩

theorem ordered_of_topologicalOrder {order : List String} (h : g.topologicalOrder isNode roots = .ok order) :
    (∀ root ∈ roots, ∀ n, ReflTransGen (g.Step isNode) root n → ¬ TransGen (g.Step isNode) n n) ∧
      order.Nodup ∧ (∀ n, n ∈ order ↔ n ∈ roots) ∧
      ∀ u ∈ roots, ∀ v ∈ roots, TransGen (g.Step isNode) u v → order.idxOf v < order.idxOf u := by
  obtain ⟨all, inOrder, visited, rfl⟩ := exists_inOrder_of_topologicalOrder h
  have member : ∀ n, n ∈ all.filter roots.contains ↔ n ∈ roots := by
    intro n
    rw [List.mem_filter, List.contains_iff_mem]
    exact ⟨fun hn => hn.2, fun hn => ⟨visited n hn, hn⟩⟩
  rw [← mem_steps_eq]
  refine ⟨?_, inOrder.nodup.1.filter _, member, ?_⟩
  · intro root hr n way cycle
    have reached : n ∈ all := by
      rcases reflTransGen_iff_eq_or_transGen.1 way with rfl | path
      · exact visited n hr
      · exact (inOrder.idxOf_lt_of_path (visited root hr) path).1
    exact absurd (inOrder.idxOf_lt_of_path reached cycle).2 (Nat.lt_irrefl _)
  · intro u hu v hv path
    exact idxOf_filter_lt (List.contains_iff_mem.2 hv) (inOrder.idxOf_lt_of_path (visited u hu) path).2

theorem exists_topologicalOrder (g : DependencyGraph) (acyclic : ∀ n, ¬ TransGen g.Edge n n)
    (isNode : String → Bool) (roots : List String) :
    ∃ order, g.topologicalOrder isNode roots = .ok order ∧
      InOrder (fun n => (g.steps isNode n).filter roots.contains) [] order ∧
      ∀ n, n ∈ order ↔ n ∈ roots := by
  cases h : g.topologicalOrder isNode roots with
  | error c =>
    obtain ⟨n, -, cycle⟩ := (closes_of_topologicalOrder h).1.transGen
    exact absurd (TransGen.mono (fun _ _ step => step.1) _ _ cycle) (acyclic n)
  | ok order =>
    have members := (ordered_of_topologicalOrder h).2.2.1
    obtain ⟨all, inOrder, -, rfl⟩ := exists_inOrder_of_topologicalOrder h
    exact ⟨_, rfl, by simpa using inOrder.filter roots.contains, members⟩

end Search

/-- The order fails exactly if a root reaches a cycle, and then tells such a cycle. Otherwise it has every
root once and nothing else, each after all roots that it reaches. -/
theorem ordered_or_cyclic (g : DependencyGraph) (isNode : String → Bool) (roots : List String) :
    ((∃ c, g.topologicalOrder isNode roots = .error c) ↔
      ∃ root ∈ roots, ∃ n, ReflTransGen (g.Step isNode) root n ∧ TransGen (g.Step isNode) n n) ∧
    (∀ c, g.topologicalOrder isNode roots = .error c → Closes (g.Step isNode) c.path ∧
      ∀ n ∈ c.path, ∃ root ∈ roots, ReflTransGen (g.Step isNode) root n) ∧
    (∀ order, g.topologicalOrder isNode roots = .ok order →
      order.Nodup ∧ (∀ n, n ∈ order ↔ n ∈ roots) ∧
      ∀ u ∈ roots, ∀ v ∈ roots, TransGen (g.Step isNode) u v → order.idxOf v < order.idxOf u) := by
  refine ⟨⟨?_, ?_⟩, fun c h => closes_of_topologicalOrder h, fun order h => (ordered_of_topologicalOrder h).2⟩
  · rintro ⟨c, h⟩
    obtain ⟨closed, reached⟩ := closes_of_topologicalOrder h
    obtain ⟨n, hn, cycle⟩ := closed.transGen
    obtain ⟨root, hr, way⟩ := reached n hn
    exact ⟨root, hr, n, way, cycle⟩
  · rintro ⟨root, hr, n, way, cycle⟩
    cases h : g.topologicalOrder isNode roots with
    | error c => exact ⟨c, rfl⟩
    | ok order => exact absurd cycle ((ordered_of_topologicalOrder h).1 root hr n way)

end DependencyGraph

end DerivedColumns
