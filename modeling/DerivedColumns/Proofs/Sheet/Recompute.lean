import DerivedColumns.Proofs.Sheet.Solution

set_option autoImplicit false

namespace DerivedColumns

open Relation

namespace Sheet

variable {s : Sheet} {targets : List String}

theorem foldl_compute (order : List String) (p : Progress)
    (found : ∀ x ∈ order, x ∈ s.calculations.keys) (x : String) :
    let q := order.foldl (fun p column =>
      match s.calculations.get? column with
      | some c => p.compute s.library column c.formula
      | none => p) p
    (x ∈ q.report.affected ↔ x ∈ order ∨ x ∈ p.report.affected) ∧
      (x ∈ q.cache ↔ x ∈ order ∨ x ∈ p.cache) := by
  induction order generalizing p with
  | nil => simp
  | cons column order ih =>
    obtain ⟨c, hc⟩ := (Keyed.mem_keys_iff _ _).1 (found column List.mem_cons_self)
    have rest := ih (p.compute s.library column c.formula)
      fun y hy => found y (List.mem_cons_of_mem _ hy)
    simp only [List.foldl_cons, hc] at rest ⊢
    refine ⟨rest.1.trans ?_, rest.2.trans ?_⟩
    · simp only [Progress.compute, Std.ExtTreeSet.mem_insert, Std.compare_eq_iff_eq, List.mem_cons]
      grind
    · simp only [Progress.compute, Std.ExtTreeMap.mem_insert, Std.compare_eq_iff_eq, List.mem_cons]
      grind

theorem Linked.exists_execute (linked : s.Linked) (targets : List String) :
    ∃ report cache, s.execute targets = (.ok report, { s with cache }) ∧
      (∀ x, x ∈ report.affected ↔ x ∈ s.closure targets) ∧
      ∀ x, x ∈ cache ↔ x ∈ s.closure targets ∨ x ∈ s.cache := by
  let run := s.closure targets
  obtain ⟨order, ordered, -, members⟩ := DependencyGraph.exists_topologicalOrder s.graph
    linked.acyclic s.isActive (s.calculations.keys.filter run.contains)
  have inside : ∀ x ∈ run, x ∈ s.calculations.keys := fun x hx =>
    mem_keys_of_isActive (isActive_of_mem_closure hx)
  have horder : ∀ x, x ∈ order ↔ x ∈ run := by
    intro x
    rw [members, List.mem_filter, List.contains_iff_mem]
    exact ⟨fun h => h.2, fun h => ⟨inside x h, h⟩⟩
  have computed := foldl_compute (s := s) order ⟨s.snapshot run, s.cache, .empty⟩
    fun x hx => inside x ((horder x).1 hx)
  refine ⟨(s.computeAll run order).report, (s.computeAll run order).cache, ?_, ?_, ?_⟩
  · unfold Sheet.execute
    simp only [run] at ordered
    simp only [ordered]
    rfl
  · intro x
    have none : x ∉ (∅ : Names) := Std.ExtTreeSet.not_mem_empty
    exact (computed x).1.trans ((or_iff_left none).trans (horder x))
  · intro x
    exact (computed x).2.trans (or_congr_left (horder x))

theorem Linked.affected_execute (linked : s.Linked) {report : Report}
    (ok : (s.execute targets).1 = .ok report) (x : String) :
    x ∈ report.affected ↔ x ∈ s.closure targets := by
  obtain ⟨report', cache, result, affected, -⟩ := linked.exists_execute targets
  rw [result] at ok
  cases ok
  exact affected x

theorem mem_stale_iff (s : Sheet) (x : String) :
    x ∈ s.activeColumns.filter (fun column => !s.isCached column) ↔
      s.isActive x = true ∧ s.isCached x = false := by
  rw [List.mem_filter, mem_activeColumns, Bool.not_eq_true']

theorem mem_closure_stale_iff (s : Sheet) (x : String) :
    x ∈ s.closure (s.activeColumns.filter fun column => !s.isCached column) ↔
      s.isActive x = true ∧ s.isCached x = false := by
  constructor
  · intro h
    refine ⟨isActive_of_mem_closure h, ?_⟩
    rcases (mem_closure s _ x).1 h with h | h
    · exact ((mem_stale_iff s x).1 (List.mem_filter.1 h).1).2
    · obtain ⟨_, -, path⟩ := h
      have stale := (List.mem_filter.1 (Into.mem_domain path)).2
      simp only [isStale, Bool.and_eq_true, Bool.not_eq_true'] at stale
      exact stale.1.2
  · intro h
    exact mem_closure_of_mem ((mem_stale_iff s x).2 h) h.1

/-- Nothing is stale, and another refresh computes nothing and changes nothing. -/
structure UpToDate (s : Sheet) : Prop where
  cached : ∀ x, s.isActive x = true → s.isCached x = true
  refresh_eq : s.refresh = (.ok .empty, s)

theorem upToDate_of_cached (h : ∀ x, s.isActive x = true → s.isCached x = true) : s.UpToDate := by
  refine ⟨h, ?_⟩
  have none : s.activeColumns.filter (fun column => !s.isCached column) = [] := by
    rw [List.filter_eq_nil_iff]
    intro x hx
    rw [h x ((mem_activeColumns s x).1 hx)]
    exact Bool.false_ne_true
  have closed : s.closure [] = [] := by
    simp [closure, gather]
  have unordered : s.graph.topologicalOrder s.isActive [] = .ok [] := by
    simp [DependencyGraph.topologicalOrder, DependencyGraph.placed, Except.map]
  have noRoots : s.calculations.keys.filter ([] : List String).contains = [] :=
    List.filter_eq_nil_iff.2 fun _ _ => by simp
  rw [refresh, none, execute, closed, noRoots, unordered]
  rfl

theorem upToDate_of_run {cache : ByName ColumnValues}
    (members : ∀ x, x ∈ cache ↔ x ∈ s.closure targets ∨ x ∈ s.cache)
    (stale : ∀ x, s.isActive x = true → s.isCached x = false → x ∈ s.closure targets) :
    ({ s with cache } : Sheet).UpToDate := by
  apply upToDate_of_cached
  intro x hx
  refine Std.ExtTreeMap.contains_iff_mem.2 ((members x).2 ?_)
  cases hc : s.isCached x with
  | true => exact .inr (Std.ExtTreeMap.contains_iff_mem.1 hc)
  | false => exact .inl (stale x hx hc)

/-- In every session the graph has no cycle, so that nothing keeps the columns from being computed. All
active columns are computed together, or just the stale ones; then nothing is left to be computed. -/
theorem recomputes_exactly (source : Dataset) (library : Library) (ops : List Operation) :
    let s := (ofSource source library).after ops
    (∀ x, ¬ TransGen (fun a b => s.graph.Edge a b ∧ s.graph.contains b = true) x x) ∧
    (∃ report cache, s.executeAll = (.ok report, { s with cache }) ∧
      (∀ x, x ∈ report.affected ↔ s.isActive x = true) ∧
      ({ s with cache } : Sheet).UpToDate) ∧
    (∃ report cache, s.refresh = (.ok report, { s with cache }) ∧
      (∀ x, x ∈ report.affected ↔ s.isActive x = true ∧ s.isCached x = false) ∧
      ({ s with cache } : Sheet).UpToDate) := by
  intro s
  have linked : s.Linked := Linked.after source library ops
  refine ⟨?_, ?_, ?_⟩
  · intro x cycle
    exact linked.acyclic x (TransGen.mono (fun _ _ edge => edge.1) _ _ cycle)
  · obtain ⟨report, cache, result, affected, members⟩ := linked.exists_execute s.activeColumns
    refine ⟨report, cache, result,
      fun x => (affected x).trans (mem_closure_activeColumns s x), ?_⟩
    exact upToDate_of_run members fun x hx _ => (mem_closure_activeColumns s x).2 hx
  · obtain ⟨report, cache, result, affected, members⟩ :=
      linked.exists_execute (s.activeColumns.filter fun column => !s.isCached column)
    refine ⟨report, cache, result, fun x => (affected x).trans (mem_closure_stale_iff s x), ?_⟩
    exact upToDate_of_run members fun x hx hc => (mem_closure_stale_iff s x).2 ⟨hx, hc⟩

end Sheet

end DerivedColumns
