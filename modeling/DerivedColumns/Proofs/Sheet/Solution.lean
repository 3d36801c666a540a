import DerivedColumns.Proofs.Sheet.Execution

set_option autoImplicit false

/-!
A cached column satisfies its equation if its cells are those that its formula computes from the source
and from the cached columns that it reads. As the dependencies have no cycle, the equations have at most
one solution, and an execution finds it.
-/

namespace DerivedColumns

open List (Forall₂)
open Relation

namespace Sheet

variable {s t : Sheet} {cache cache' : ByName ColumnValues}

def Solves (s : Sheet) (cache : ByName ColumnValues) (x : String) : Prop :=
  ∃ c, s.calculations.get? x = some c ∧ c.active = true ∧
    (∀ y ∈ c.formula.reads, y ≠ x → s.isActive y = true → y ∈ cache) ∧
    cache[x]? = some (cells (outcomes s.library c.formula (s.inputs cache x c.formula)))

/-- The same source, functions, formulas and activity, whatever the order, the names and the ids. -/
structure Matches (s t : Sheet) : Prop where
  source : t.source = s.source
  library : t.library = s.library
  definitions : ∀ x, (t.calculations.get? x).map (fun c => (c.formula, c.active)) =
    (s.calculations.get? x).map fun c => (c.formula, c.active)

theorem Matches.refl (s : Sheet) : Matches s s := ⟨rfl, rfl, fun _ => rfl⟩

theorem Matches.symm (h : Matches s t) : Matches t s :=
  ⟨h.source.symm, h.library.symm, fun x => (h.definitions x).symm⟩

theorem Matches.get? (h : Matches s t) {x : String} {c : Calculation}
    (hc : s.calculations.get? x = some c) :
    ∃ d, t.calculations.get? x = some d ∧ d.formula = c.formula ∧ d.active = c.active := by
  have same := h.definitions x
  rw [hc, Option.map_some, Option.map_eq_some_iff] at same
  obtain ⟨d, hd, he⟩ := same
  injection he with hf ha
  exact ⟨d, hd, hf, ha⟩

theorem Matches.isActive (h : Matches s t) (x : String) : t.isActive x = s.isActive x := by
  have same := congrArg (Option.map Prod.snd) (h.definitions x)
  rw [Option.map_map, Option.map_map] at same
  have read : ∀ o : Option Calculation, o.any (·.active) = ((o.map (·.active)).getD false) := by
    intro o
    cases o <;> rfl
  unfold Sheet.isActive
  rw [read, read]
  exact congrArg (Option.getD · false) same

/-- What holds of a calculation as soon as it holds of the others that it reads holds of all. -/
theorem Linked.induction {P : String → Prop} (h : Linked s)
    (step : ∀ x ∈ s.calculations.keys,
      (∀ y ∈ s.calculations.keys, s.Reads x y → y ≠ x → P y) → P x) :
    ∀ x ∈ s.calculations.keys, P x := by
  obtain ⟨order, -, inOrder, members⟩ := DependencyGraph.exists_topologicalOrder s.graph h.acyclic
    (fun _ => true) s.calculations.keys
  intro x hx
  refine inOrder.forall_mem (P := P) (fun n hn => absurd hn List.not_mem_nil) ?_ x ((members x).2 hx)
  intro n hn before
  refine step n ((members n).1 hn) fun y hy hr hne => before y ?_
  have edge : y ∈ s.graph.steps (fun _ => true) n := (DependencyGraph.mem_steps _ _ _ _).2
    ⟨h.complete n y hr hy hne, (h.nodes y).2 hy, rfl⟩
  exact List.mem_filter.2 ⟨edge, List.contains_iff_mem.2 hy⟩

theorem outcomes_inputs_congr (hst : Matches s t) {x : String} {f : Formula}
    (dateless : f.callsDate s.library = false)
    (same : ∀ y ∈ f.reads, y ≠ x → s.isActive y = true → cache'[y]? = cache[y]?) :
    outcomes t.library f (t.inputs cache' x f) = outcomes s.library f (s.inputs cache x f) := by
  have shown := shows_inputs t cache' x f
  rw [hst.source] at shown
  rw [hst.library]
  refine outcomes_congr dateless (shows_inputs s cache x f) shown fun y hy => ?_
  rw [if_pos hy, if_pos hy]
  unfold visible
  rw [hst.isActive]
  split
  · rename_i other
    exact same y hy other.1 other.2
  · rfl

/-- Two solutions agree where both have a column. -/
theorem solves_unique (linked : s.Linked) (dateless : s.Dateless) (hst : Matches s t)
    (solves : ∀ x ∈ cache, s.Solves cache x) (solves' : ∀ x ∈ cache', t.Solves cache' x) :
    ∀ x ∈ cache, x ∈ cache' → cache'[x]? = cache[x]? := by
  intro x hx
  have hkeys : x ∈ s.calculations.keys := by
    obtain ⟨c, hc, -⟩ := solves x hx
    exact Keyed.mem_keys_of_get? hc
  revert hx
  refine linked.induction (P := fun x => x ∈ cache → x ∈ cache' → cache'[x]? = cache[x]?) ?_ x hkeys
  intro x _ ih hx hx'
  obtain ⟨c, hc, -, closed, cell⟩ := solves x hx
  obtain ⟨d, hd, -, closed', cell'⟩ := solves' x hx'
  obtain ⟨d', hd', hformula, -⟩ := hst.get? hc
  obtain rfl : d = d' := Option.some.inj (hd.symm.trans hd')
  rw [cell, cell', hformula, outcomes_inputs_congr hst (dateless x c hc)]
  intro y hy hne hactive
  have hread : y ∈ d.formula.reads := by rw [hformula]; exact hy
  exact ih y (mem_keys_of_isActive hactive) ⟨c, hc, hy⟩ hne (closed y hy hne hactive)
    (closed' y hread hne ((hst.isActive y).trans hactive))

/-- A row of the source as a column sees it: under the name of each other active column that its formula
reads is the final cell of that column, null where it failed, and under any other name the source's field. -/
structure Sees (s : Sheet) (results : ByName ColumnValues) (x : String) (f : Formula) (base row : Row) :
    Prop where
  id : row.id = base.id
  column : ∀ y ∈ f.reads, y ≠ x → s.isActive y = true → ∃ values cell, results[y]? = some values ∧
    values[base.id]? = some cell ∧ row.fields.get? y = some (cell.getD .null)
  field : ∀ y, ¬(y ∈ f.reads ∧ y ≠ x ∧ s.isActive y = true) → row.fields.get? y = base.fields.get? y

theorem shown_eq (s : Sheet) (results : ByName ColumnValues) (x : String) (f : Formula) (y : String) :
    (if y ∈ f.reads then s.visible results x y else none) =
      if y ∈ f.reads ∧ y ≠ x ∧ s.isActive y = true then results[y]? else none := by
  by_cases read : y ∈ f.reads <;> simp [visible, read]

theorem shows_of_sees {results : ByName ColumnValues} {x : String} {f : Formula} {rows : List Row}
    (h : Forall₂ (s.Sees results x f) s.source.rows rows) :
    Shows (fun y => if y ∈ f.reads then s.visible results x y else none) s.source.rows rows := by
  refine h.imp fun base row sees => ⟨sees.id, fun y => ?_⟩
  simp only [shown_eq]
  by_cases seen : y ∈ f.reads ∧ y ≠ x ∧ s.isActive y = true
  · obtain ⟨values, cell, final, own, shown⟩ := sees.column y seen.1 seen.2.1 seen.2.2
    simp only [if_pos seen, final, shown, shownCell, own, Option.bind_some, id]
  · rw [if_neg seen, sees.field y seen]

/-- The inputs of a column are what it sees, as soon as the columns that it reads have a cell in each row. -/
theorem sees_inputs {results : ByName ColumnValues} {x : String} {f : Formula}
    (filled : ∀ y ∈ f.reads, y ≠ x → s.isActive y = true → ∃ values, results[y]? = some values ∧
      ∀ base ∈ s.source.rows, ∃ cell, values[base.id]? = some cell) :
    Forall₂ (s.Sees results x f) s.source.rows (s.inputs results x f) := by
  obtain ⟨lengths, shows⟩ := List.forall₂_iff_zip.1 (shows_inputs s results x f)
  refine List.forall₂_iff_zip.2 ⟨lengths, fun {base row} place => ?_⟩
  obtain ⟨same, fields⟩ := shows place
  simp only [shown_eq] at fields
  refine ⟨same, fun y read other active => ?_, fun y unseen => ?_⟩
  · obtain ⟨values, final, every⟩ := filled y read other active
    obtain ⟨cell, own⟩ := every base (List.of_mem_zip place).1
    refine ⟨values, cell, final, own, ?_⟩
    simp only [fields, if_pos (And.intro read (And.intro other active)), final, shownCell, own, Option.bind_some, id]
  · rw [fields, if_neg unseen]

/-- The report has the cells and the failures of every active column by its equation, and no others. -/
structure Solution (s : Sheet) (report : Report) : Prop where
  affected : ∀ x, x ∈ report.affected ↔ s.isActive x = true
  computed : ∀ x c, s.calculations.get? x = some c → c.active = true →
    ∃ rows, Forall₂ (s.Sees report.results x c.formula) s.source.rows rows ∧
      let found := outcomes s.library c.formula rows
      report.results[x]? = some (cells found) ∧
      report.failures[x]? = if (failures found).isEmpty then none else some (failures found)
  rest : ∀ x, s.isActive x = false → report.results[x]? = none ∧ report.failures[x]? = none

theorem mem_closure_activeColumns (s : Sheet) (x : String) :
    x ∈ s.closure s.activeColumns ↔ s.isActive x = true :=
  ⟨isActive_of_mem_closure, fun h => mem_closure_of_mem ((mem_activeColumns s x).2 h) h⟩

theorem exists_solution (linked : s.Linked) (dateless : s.Dateless) :
    ∃ cache report, s.executeAll = (.ok report, { s with cache }) ∧ s.Solution report ∧
      ∀ x, s.isActive x = true → cache[x]? = report.results[x]? := by
  obtain ⟨cache, report, he, executed⟩ := exists_executed linked dateless s.activeColumns
  have equation : ∀ x, s.isActive x = true → s.Computed cache report x :=
    fun x hx => executed.computed x ((mem_closure_activeColumns s x).2 hx)
  have same : ∀ x, s.isActive x = true → cache[x]? = report.results[x]? := by
    intro x hx
    obtain ⟨c, -, hcache, hresult, -⟩ := equation x hx
    rw [hcache, hresult]
  refine ⟨cache, report, he, ⟨?_, ?_, ?_⟩, same⟩
  · intro x
    rw [executed.affected, mem_closure_activeColumns]
  · intro x c hc active
    obtain ⟨d, hd, -, hresult, hfailed⟩ := equation x ((isActive_iff s x).2 ⟨c, hc, active⟩)
    obtain rfl : d = c := Option.some.inj (hd.symm.trans hc)
    have seen : s.inputs report.results x d.formula = s.inputs cache x d.formula :=
      inputs_congr fun y _ _ hact => (same y hact).symm
    refine ⟨s.inputs report.results x d.formula, sees_inputs ?_, ?_⟩
    · intro y _ _ hact
      obtain ⟨e, -, -, final, -⟩ := equation y hact
      refine ⟨_, final, fun base hbase => ?_⟩
      have ids := (shows_inputs s cache y e.formula).map_id
      obtain ⟨row, hrow, hid⟩ := List.mem_map.1 (ids ▸ List.mem_map_of_mem (f := Row.id) hbase)
      exact hid ▸ exists_cell s.library e.formula hrow
    · rw [seen]
      exact ⟨hresult, hfailed⟩
  · intro x hx
    have out : x ∉ s.closure s.activeColumns := by
      rw [mem_closure_activeColumns, hx]
      exact Bool.false_ne_true
    exact (executed.rest x out).2

theorem Solution.mem_results {report : Report} (h : s.Solution report) (x : String) :
    x ∈ report.results ↔ s.isActive x = true := by
  rw [Std.ExtTreeMap.mem_iff_isSome_getElem?]
  cases hx : s.isActive x with
  | false => simp [(h.rest x hx).1]
  | true =>
    obtain ⟨c, hc, active⟩ := (isActive_iff s x).1 hx
    obtain ⟨rows, -, found, -⟩ := h.computed x c hc active
    simp [found]

/-- What a formula without date functions computes is told by what its column sees. -/
theorem Solution.equation {report : Report} (h : s.Solution report) (dateless : s.Dateless) {x : String}
    (hx : s.isActive x = true) : s.Computed report.results report x := by
  obtain ⟨c, hc, active⟩ := (isActive_iff s x).1 hx
  obtain ⟨rows, sees, found, failed⟩ := h.computed x c hc active
  have same := outcomes_congr (dateless x c hc) (shows_of_sees sees)
    (shows_inputs s report.results x c.formula) fun _ _ => rfl
  rw [← same] at found failed
  exact ⟨c, hc, found, found, failed⟩

theorem Solution.solves {report : Report} (h : s.Solution report) (dateless : s.Dateless) :
    ∀ x ∈ report.results, s.Solves report.results x := by
  intro x hx
  have hactive := (h.mem_results x).1 hx
  obtain ⟨c, hc, cell, -⟩ := h.equation dateless hactive
  obtain ⟨d, hd, hda⟩ := (isActive_iff s x).1 hactive
  obtain rfl : d = c := Option.some.inj (hd.symm.trans hc)
  exact ⟨d, hc, hda, fun y _ _ hy => (h.mem_results y).2 hy, cell⟩

theorem Matches.dateless (hst : Matches s t) (h : s.Dateless) : t.Dateless := by
  intro x c hc
  obtain ⟨d, hd, hf, -⟩ := hst.symm.get? hc
  rw [hst.library, ← hf]
  exact h x d hd

/-- Sheets that match have one solution. -/
theorem Solution.unique {report report' : Report} (linked : s.Linked) (dateless : s.Dateless)
    (hst : Matches s t) (h : s.Solution report) (h' : t.Solution report') : report' = report := by
  have results : ∀ x : String, report'.results[x]? = report.results[x]? := by
    intro x
    cases hx : s.isActive x with
    | false => rw [(h.rest x hx).1, (h'.rest x ((hst.isActive x).trans hx)).1]
    | true =>
      exact solves_unique linked dateless hst (h.solves dateless) (h'.solves (hst.dateless dateless)) x
        ((h.mem_results x).2 hx) ((h'.mem_results x).2 ((hst.isActive x).trans hx))
  have failed : ∀ x : String, report'.failures[x]? = report.failures[x]? := by
    intro x
    cases hx : s.isActive x with
    | false => rw [(h.rest x hx).2, (h'.rest x ((hst.isActive x).trans hx)).2]
    | true =>
      obtain ⟨c, hc, -, -, hfailed⟩ := h.equation dateless hx
      obtain ⟨d, hd, -, -, hfailed'⟩ := h'.equation (hst.dateless dateless) ((hst.isActive x).trans hx)
      obtain ⟨d', hd', hformula, -⟩ := hst.get? hc
      obtain rfl : d = d' := Option.some.inj (hd.symm.trans hd')
      rw [hfailed, hfailed', hformula, outcomes_inputs_congr hst (dateless x c hc)]
      exact fun y _ _ _ => results y
  have affected : ∀ x, x ∈ report'.affected ↔ x ∈ report.affected := by
    intro x
    rw [h.affected, h'.affected, hst.isActive]
  cases report
  cases report'
  rw [Report.mk.injEq]
  refine ⟨Std.ExtTreeSet.ext_mem affected, ?_, ?_⟩
  · apply Std.ExtTreeMap.ext_getElem?
    exact results
  · apply Std.ExtTreeMap.ext_getElem?
    exact failed

/-- Whatever has been done to a sheet, computing it solves the equations of its active columns. All
sheets with the same source, functions and definitions get the same report. -/
theorem executeAll_solves (source : Dataset) (library : Library) (ops : List Operation)
    (dateless : ((ofSource source library).after ops).Dateless) :
    let s := (ofSource source library).after ops
    ∃ report, s.executeAll.1 = .ok report ∧ s.Solution report ∧
      (∀ x, s.executeAll.2.virtualColumn? x = report.results[x]?) ∧
      ∀ source' library' ops', Matches s ((ofSource source' library').after ops') →
        ((ofSource source' library').after ops').executeAll.1 = .ok report := by
  intro s
  have linked : s.Linked := Linked.after source library ops
  obtain ⟨cache, report, he, solution, same⟩ := exists_solution linked dateless
  refine ⟨report, by rw [he], solution, ?_, ?_⟩
  · intro x
    rw [he]
    change (if s.isActive x then cache[x]? else none) = _
    cases hx : s.isActive x with
    | false => simp [(solution.rest x hx).1]
    | true => simp [same x hx]
  · intro source' library' ops' hst
    obtain ⟨cache', report', he', solution', -⟩ :=
      exists_solution (Linked.after source' library' ops') (hst.dateless dateless)
    rw [he', solution.unique linked dateless hst solution']

theorem dateless_of_all (h : s.calculations.entries.all
    (fun e => !e.2.formula.callsDate s.library) = true) : s.Dateless := by
  intro x c hc
  have := List.all_eq_true.1 h (x, c) ((Keyed.get?_eq_some_iff _ _ _).1 hc)
  simpa using this

def twoRows : Dataset :=
  .ofRows [⟨1, .ofList [("v", .text "x")]⟩, ⟨2, .ofList [("v", .null)]⟩]

/-- The column a reads b before b is there; b fails in the second row. -/
def lateLink : List Operation := [.addText 0 "a" "a" "b", .addText 1 "b" "b" "v == 'x' ? 1 : -v"]

def cellTexts (report : Report) (x : String) : Option (List (RowId × Option String)) :=
  (report.results[x]?).map fun values => values.toList.map fun e => (e.1, e.2.map Evaluation.taggedText)

set_option maxRecDepth 10000 in
theorem executeAll_solves_lateLink :
    ((ofSource twoRows .standard).after lateLink).Dateless ∧
      ∃ report, ((ofSource twoRows .standard).after lateLink).executeAll.1 = .ok report ∧
        ((ofSource twoRows .standard).after lateLink).Solution report ∧
        cellTexts report "b" = some [(1, some "number:1"), (2, none)] ∧
        cellTexts report "a" = some [(1, some "number:1"), (2, some "null:null")] ∧
        report.failures["b"]? = some [⟨2, .invalidOperand "-" "null null"⟩] := by
  have dateless : ((ofSource twoRows .standard).after lateLink).Dateless :=
    dateless_of_all (by decide +kernel)
  have computed : ((ofSource twoRows .standard).after lateLink).executeAll.1.toOption.map
      (fun report => (cellTexts report "b", cellTexts report "a")) =
      some (some [(1, some "number:1"), (2, none)],
        some [(1, some "number:1"), (2, some "null:null")]) := by
    decide +kernel
  have listed : ((ofSource twoRows .standard).after lateLink).executeAll.1.toOption.bind
      (fun report => report.failures["b"]?) = some [⟨2, .invalidOperand "-" "null null"⟩] := by
    decide +kernel
  obtain ⟨report, he, solution, -⟩ := executeAll_solves twoRows .standard lateLink dateless
  rw [he] at computed listed
  obtain ⟨b, a⟩ := Prod.mk.inj (Option.some.inj computed)
  exact ⟨dateless, report, he, solution, b, a, listed⟩

end Sheet

end DerivedColumns
