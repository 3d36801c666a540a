import DerivedColumns.Proofs.Graph.Topological
import DerivedColumns.Proofs.Sheet.Linked
import DerivedColumns.Proofs.Sheet.Rows

set_option autoImplicit false

namespace DerivedColumns

open Relation

namespace Sheet

variable {s : Sheet}

theorem isActive_iff (s : Sheet) (x : String) :
    s.isActive x = true ↔ ∃ c, s.calculations.get? x = some c ∧ c.active = true := by
  unfold isActive
  rw [Option.any_eq_true]

theorem mem_keys_of_isActive {x : String} (h : s.isActive x = true) : x ∈ s.calculations.keys := by
  obtain ⟨c, hc, -⟩ := (isActive_iff s x).1 h
  exact Keyed.mem_keys_of_get? hc

theorem isCached_eq_false_iff (s : Sheet) (x : String) :
    s.isCached x = false ↔ s.cache[x]? = none := by
  unfold isCached
  rw [Std.ExtTreeMap.contains_eq_isSome_getElem?, Option.isSome_eq_false_iff, Option.isNone_iff_eq_none]

theorem mem_activeColumns (s : Sheet) (x : String) : x ∈ s.activeColumns ↔ s.isActive x = true := by
  unfold activeColumns
  rw [List.mem_filter]
  exact ⟨fun h => h.2, fun h => ⟨mem_keys_of_isActive h, h⟩⟩

theorem snapshot_eq (s : Sheet) (run : List String) :
    s.snapshot run =
      publishAll s.cache (s.activeColumns.filter fun x => !run.contains x) s.source.rows := by
  have actives : ∀ column c, (column, c) ∈ s.calculations.entries → s.isActive column = c.active := by
    intro column c he
    unfold isActive
    rw [(Keyed.get?_eq_some_iff s.calculations column c).2 he]
    rfl
  unfold snapshot publishAll activeColumns Keyed.keys
  rw [List.foldl_filter, List.foldl_filter, List.foldl_map]
  apply List.foldl_ext
  rintro rows ⟨column, c⟩ he
  simp only [actives column c he]
  cases c.active <;> cases run.contains column <;> rfl

/-- The source rows with the cached columns of the other active calculations that a formula reads. -/
def inputs (s : Sheet) (cache : ByName ColumnValues) (column : String) (f : Formula) : List Row :=
  publishAll cache (s.activeColumns.filter fun x => x != column && f.reads.contains x) s.source.rows

def visible (s : Sheet) (cache : ByName ColumnValues) (column name : String) : Option ColumnValues :=
  if name ≠ column ∧ s.isActive name = true then cache[name]? else none

theorem shows_inputs (s : Sheet) (cache : ByName ColumnValues) (column : String) (f : Formula) :
    Shows (fun x => if x ∈ f.reads then s.visible cache column x else none) s.source.rows
      (s.inputs cache column f) := by
  refine (shows_publishAll (Shows.unpublished s.source.rows) cache _).congr fun x => ?_
  unfold visible
  simp only [List.mem_filter, mem_activeColumns, Bool.and_eq_true, bne_iff_ne, ne_eq,
    Std.ExtTreeSet.contains_iff_mem, Option.or_none]
  grind

theorem inputs_congr {cache cache' : ByName ColumnValues} {column : String} {f : Formula}
    (same : ∀ x ∈ f.reads, x ≠ column → s.isActive x = true → cache'[x]? = cache[x]?) :
    s.inputs cache' column f = s.inputs cache column f := by
  unfold inputs publishAll
  have members : ∀ x ∈ s.activeColumns.filter (fun x => x != column && f.reads.contains x),
      cache'[x]? = cache[x]? := by
    intro x hx
    rw [List.mem_filter, mem_activeColumns, Bool.and_eq_true, bne_iff_ne,
      Std.ExtTreeSet.contains_iff_mem] at hx
    exact same x hx.2.2 hx.2.1 hx.1
  apply List.foldl_ext
  intro rows x hx
  rw [members x hx]

section Closure

variable {targets : List String} {x y : String}

theorem mem_closure (s : Sheet) (targets : List String) (x : String) :
    x ∈ s.closure targets ↔ x ∈ targets.filter s.isActive ∨
      ∃ root ∈ targets.filter s.isActive, TransGen (Into s.graph.readsOf
        (s.calculations.keys.filter fun column => s.isStale column &&
          !(targets.filter s.isActive).contains column)) root x := by
  unfold closure
  rw [List.mem_append, mem_gather]

theorem isActive_of_mem_closure (h : x ∈ s.closure targets) : s.isActive x = true := by
  rcases (mem_closure s targets x).1 h with h | h
  · exact (List.mem_filter.1 h).2
  · obtain ⟨_, -, path⟩ := h
    have stale := (List.mem_filter.1 (Into.mem_domain path)).2
    simp only [isStale, Bool.and_eq_true] at stale
    exact stale.1.1

theorem mem_closure_of_mem (h : x ∈ targets) (hx : s.isActive x = true) : x ∈ s.closure targets :=
  (mem_closure s targets x).2 (.inl (List.mem_filter.2 ⟨h, hx⟩))

theorem closure_closed (h : x ∈ s.closure targets) (edge : s.graph.Edge x y)
    (hy : s.isActive y = true) (hc : s.isCached y = false) : y ∈ s.closure targets := by
  rw [mem_closure] at h ⊢
  by_cases first : y ∈ targets.filter s.isActive
  · exact .inl first
  · have domain : y ∈ s.calculations.keys.filter fun column => s.isStale column &&
        !(targets.filter s.isActive).contains column := by
      have apart : (targets.filter s.isActive).contains y = false := by
        rw [Bool.eq_false_iff, ne_eq, List.contains_iff_mem]
        exact first
      rw [List.mem_filter, isStale, hy, hc, apart]
      exact ⟨mem_keys_of_isActive hy, rfl⟩
    rcases h with h | ⟨root, hroot, path⟩
    · exact .inr ⟨x, h, .single ⟨edge, domain⟩⟩
    · exact .inr ⟨root, hroot, path.tail ⟨edge, domain⟩⟩

/-- The run of an execution is the least that is closed under needing what is stale. -/
theorem closure_induction {P : String → Prop}
    (target : ∀ x ∈ targets, s.isActive x = true → P x)
    (needed : ∀ x y, P x → s.graph.Edge x y → s.isActive y = true → s.isCached y = false → P y) :
    ∀ x ∈ s.closure targets, P x := by
  have first : ∀ x ∈ targets.filter s.isActive, P x := fun x hx =>
    target x (List.mem_filter.1 hx).1 (List.mem_filter.1 hx).2
  have step : ∀ x y, P x → s.graph.Edge x y →
      y ∈ s.calculations.keys.filter (fun column => s.isStale column &&
        !(targets.filter s.isActive).contains column) → P y := by
    intro x y hx edge hy
    have stale := (List.mem_filter.1 hy).2
    simp only [isStale, Bool.and_eq_true, Bool.not_eq_true'] at stale
    exact needed x y hx edge stale.1.1 stale.1.2
  intro x hx
  rcases (mem_closure s targets x).1 hx with run | ⟨root, hroot, path⟩
  · exact first x run
  · clear hx
    induction path with
    | single along => exact step _ _ (first root hroot) along.1 along.2
    | tail _ along ih => exact step _ _ ih along.1 along.2

end Closure

def Computed (s : Sheet) (cache : ByName ColumnValues) (report : Report) (x : String) : Prop :=
  ∃ c, s.calculations.get? x = some c ∧
    let found := outcomes s.library c.formula (s.inputs cache x c.formula)
    cache[x]? = some (cells found) ∧ report.results[x]? = some (cells found) ∧
      report.failures[x]? = if (failures found).isEmpty then none else some (failures found)

namespace Progress

theorem compute_of_ne (library : Library) (p : Progress) (f : Formula) {column x : String}
    (hx : x ≠ column) :
    (p.compute library column f).cache[x]? = p.cache[x]? ∧
      (p.compute library column f).report.results[x]? = p.report.results[x]? ∧
      (p.compute library column f).report.failures[x]? = p.report.failures[x]? := by
  have apart : compare column x ≠ .eq := fun e => hx (Std.compare_eq_iff_eq.1 e).symm
  refine ⟨?_, ?_, ?_⟩
  · simp [compute, Std.ExtTreeMap.getElem?_insert, apart]
  · simp [compute, Std.ExtTreeMap.getElem?_insert, apart]
  · simp only [compute]
    split
    · rfl
    · simp [Std.ExtTreeMap.getElem?_insert, apart]

theorem compute_self (library : Library) (p : Progress) (column : String) (f : Formula) :
    let found := outcomes library f p.rows
    (p.compute library column f).cache[column]? = some (cells found) ∧
      (p.compute library column f).report.results[column]? = some (cells found) ∧
      (p.compute library column f).report.failures[column]? =
        if (failures found).isEmpty then p.report.failures[column]? else some (failures found) := by
  refine ⟨by simp [compute], by simp [compute], ?_⟩
  simp only [compute]
  split
  · rfl
  · simp

end Progress

/-- Some columns of a run have been computed, after all that they read of the run. -/
structure Progressed (s : Sheet) (run done : List String) (p : Progress) : Prop where
  rows : Shows (fun x => if x ∈ done ∨ (s.isActive x = true ∧ x ∉ run) then p.cache[x]? else none)
    s.source.rows p.rows
  inside : ∀ x ∈ done, x ∈ run
  affected : ∀ x, x ∈ p.report.affected ↔ x ∈ done
  rest : ∀ x, x ∉ done → p.cache[x]? = s.cache[x]? ∧ p.report.results[x]? = none ∧
    p.report.failures[x]? = none
  computed : ∀ x ∈ done, s.Computed p.cache p.report x
  settled : ∀ x ∈ done, ∀ y, s.Reads x y → y ≠ x → s.isActive y = true → y ∈ done ∨ y ∉ run

namespace Progressed

variable {run done : List String} {p : Progress}

theorem start (s : Sheet) (run : List String) :
    Progressed s run [] ⟨s.snapshot run, s.cache, .empty⟩ := by
  refine ⟨?_, by simp, by simp [Report.empty], ?_, by simp, by simp⟩
  · rw [snapshot_eq]
    refine (shows_publishAll (Shows.unpublished s.source.rows) s.cache _).congr fun x => ?_
    simp only [List.mem_filter, mem_activeColumns, List.not_mem_nil, false_or, Bool.not_eq_true',
      List.contains_eq_mem, decide_eq_false_iff_not, Option.or_none]
  · intro x _
    exact ⟨rfl, Std.ExtTreeMap.getElem?_empty, Std.ExtTreeMap.getElem?_empty⟩

theorem compute (h : Progressed s run done p) (active : ∀ x ∈ run, s.isActive x = true)
    {column : String} {c : Calculation} (hc : s.calculations.get? column = some c)
    (dateless : c.formula.callsDate s.library = false) (hrun : column ∈ run) (hnew : column ∉ done)
    (before : ∀ y, s.Reads column y → y ≠ column → s.isActive y = true → y ∈ done ∨ y ∉ run) :
    Progressed s run (column :: done) (p.compute s.library column c.formula) := by
  let after := p.compute s.library column c.formula
  have same : ∀ x, x ≠ column → after.cache[x]? = p.cache[x]? ∧
      after.report.results[x]? = p.report.results[x]? ∧
      after.report.failures[x]? = p.report.failures[x]? :=
    fun x hx => p.compute_of_ne s.library c.formula hx
  have seen : s.inputs after.cache column c.formula = s.inputs p.cache column c.formula :=
    inputs_congr fun x _ hx _ => (same x hx).1
  have found : outcomes s.library c.formula p.rows =
      outcomes s.library c.formula (s.inputs after.cache column c.formula) := by
    rw [seen]
    refine outcomes_congr dateless (shows_inputs s p.cache column c.formula) h.rows fun x hx => ?_
    rw [if_pos hx]
    unfold visible
    have hr : s.Reads column x := ⟨c, hc, hx⟩
    have inside : x ∈ done → s.isActive x = true := fun hd => active x (h.inside x hd)
    have := before x hr
    grind
  refine ⟨?_, ?_, ?_, ?_, ?_, ?_⟩
  · refine (h.rows.publish column _).congr fun x => ?_
    by_cases hx : x = column
    · subst hx
      simp [(p.compute_self s.library x c.formula).1]
    · have := (same x hx).1
      simp only [after] at this
      simp only [List.mem_cons, hx, false_or, if_false, this]
  · intro x hx
    rcases List.mem_cons.1 hx with rfl | hx
    · exact hrun
    · exact h.inside x hx
  · intro x
    simp only [Progress.compute, Std.ExtTreeSet.mem_insert, Std.compare_eq_iff_eq, h.affected,
      List.mem_cons]
    exact or_congr_left eq_comm
  · intro x hx
    rw [List.mem_cons, not_or] at hx
    have := same x hx.1
    rw [this.1, this.2.1, this.2.2]
    exact h.rest x hx.2
  · intro x hx
    by_cases hxc : x = column
    · subst hxc
      obtain ⟨cached, reported, failed⟩ := p.compute_self s.library x c.formula
      rw [(h.rest x hnew).2.2] at failed
      refine ⟨c, hc, ?_⟩
      simp only
      rw [← found]
      exact ⟨cached, reported, failed⟩
    · have hd : x ∈ done := (List.mem_cons.1 hx).resolve_left hxc
      obtain ⟨d, hdget, cached, reported, failed⟩ := h.computed x hd
      have kept : s.inputs after.cache x d.formula = s.inputs p.cache x d.formula := by
        apply inputs_congr
        intro y hy hne hact
        have hyc : y ≠ column := by
          rintro rfl
          rcases h.settled x hd y ⟨d, hdget, hy⟩ hne hact with hy | hy
          · exact hnew hy
          · exact hy hrun
        exact (same y hyc).1
      refine ⟨d, hdget, ?_⟩
      simp only
      rw [kept, (same x hxc).1, (same x hxc).2.1, (same x hxc).2.2]
      exact ⟨cached, reported, failed⟩
  · intro x hx y hr hne hy
    rcases List.mem_cons.1 hx with rfl | hx
    · exact (before y hr hne hy).imp_left (List.mem_cons_of_mem _)
    · exact (h.settled x hx y hr hne hy).imp_left (List.mem_cons_of_mem _)

theorem foldl (h : Progressed s run done p) (active : ∀ x ∈ run, s.isActive x = true)
    (dateless : ∀ x c, s.calculations.get? x = some c → c.formula.callsDate s.library = false)
    {steps : String → List String} {order : List String} (inOrder : InOrder steps done order)
    (horder : ∀ x ∈ order, x ∈ run)
    (hsteps : ∀ x ∈ order, ∀ y, s.Reads x y → y ≠ x → s.isActive y = true → y ∈ steps x ∨ y ∉ run) :
    Progressed s run (order.reverse ++ done) (order.foldl (fun p column =>
      match s.calculations.get? column with
      | some c => p.compute s.library column c.formula
      | none => p) p) := by
  induction order generalizing done p with
  | nil => exact h
  | cons column order ih =>
    obtain ⟨hnew, earlier, rest⟩ := inOrder
    have hrun := horder column List.mem_cons_self
    obtain ⟨c, hc, -⟩ := (isActive_iff s column).1 (active column hrun)
    have step := h.compute active hc (dateless column c hc) hrun hnew fun y hr hne hy =>
      (hsteps column List.mem_cons_self y hr hne hy).imp_left (earlier y)
    have more := ih step rest (fun x hx => horder x (List.mem_cons_of_mem _ hx))
      fun x hx => hsteps x (List.mem_cons_of_mem _ hx)
    rw [List.foldl_cons, hc, List.reverse_cons, List.append_assoc]
    exact more

end Progressed

def Dateless (s : Sheet) : Prop :=
  ∀ x c, s.calculations.get? x = some c → c.formula.callsDate s.library = false

/-- The cache and the report of an execution: columns in its run have been computed from the cache, and
the others are as before. -/
structure Executed (s : Sheet) (targets : List String) (cache : ByName ColumnValues)
    (report : Report) : Prop where
  affected : ∀ x, x ∈ report.affected ↔ x ∈ s.closure targets
  rest : ∀ x, x ∉ s.closure targets → cache[x]? = s.cache[x]? ∧ report.results[x]? = none ∧
    report.failures[x]? = none
  computed : ∀ x ∈ s.closure targets, s.Computed cache report x

theorem exists_executed (linked : s.Linked) (dateless : s.Dateless) (targets : List String) :
    ∃ cache report, s.execute targets = (.ok report, { s with cache }) ∧
      s.Executed targets cache report := by
  let run := s.closure targets
  obtain ⟨order, hok, inOrder, members⟩ := DependencyGraph.exists_topologicalOrder s.graph
    linked.acyclic s.isActive (s.calculations.keys.filter run.contains)
  have active : ∀ x ∈ run, s.isActive x = true := fun x hx => isActive_of_mem_closure hx
  have mem_roots : ∀ x, x ∈ s.calculations.keys.filter run.contains ↔ x ∈ run := by
    intro x
    rw [List.mem_filter, List.contains_iff_mem]
    exact ⟨fun h => h.2, fun h => ⟨mem_keys_of_isActive (active x h), h⟩⟩
  have horder : ∀ x, x ∈ order ↔ x ∈ run := fun x => (members x).trans (mem_roots x)
  have progressed := (Progressed.start s run).foldl active dateless inOrder
    (fun x hx => (horder x).1 hx) (by
      intro x _ y hr hne hy
      by_cases hrun : y ∈ run
      · have hkeys := mem_keys_of_isActive hy
        have step : y ∈ s.graph.steps s.isActive x := (DependencyGraph.mem_steps _ _ _ _).2
          ⟨linked.complete x y hr hkeys hne, (linked.nodes y).2 hkeys, hy⟩
        exact .inl (List.mem_filter.2 ⟨step, List.contains_iff_mem.2 ((mem_roots y).2 hrun)⟩)
      · exact .inr hrun)
  rw [List.append_nil] at progressed
  refine ⟨(s.computeAll run order).cache, (s.computeAll run order).report, ?_, ?_, ?_, ?_⟩
  · unfold execute
    simp only [run] at hok
    simp only [hok]
    rfl
  · intro x
    rw [← horder, ← List.mem_reverse]
    exact progressed.affected x
  · intro x hx
    rw [← horder, ← List.mem_reverse] at hx
    exact progressed.rest x hx
  · intro x hx
    rw [← horder, ← List.mem_reverse] at hx
    exact progressed.computed x hx

end Sheet

end DerivedColumns
