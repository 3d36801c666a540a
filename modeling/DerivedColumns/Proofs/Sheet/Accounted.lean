import DerivedColumns.Proofs.Graph.Topological
import DerivedColumns.Proofs.Sheet.Edit
import DerivedColumns.Proofs.Sheet.Execution
import DerivedColumns.Proofs.Sheet.Grouped

set_option autoImplicit false

namespace DerivedColumns

/-- A column has one cell for each of some rows. The rows with empty cells are those that are listed as failed, each
once and in the order of the rows; there is no empty list. -/
structure Accounts (rows : List RowId) (values : ColumnValues) (failed : Option (List RowFailure)) : Prop where
  cells : values.keys.Perm rows
  rows : (failed.getD []).map RowFailure.row = rows.filter fun row => (values[row]?).any Option.isNone
  listed : failed ≠ some []

section Outcomes

variable {found : List (RowId × Evaluated Value)}

theorem map_row_failures (found : List (RowId × Evaluated Value)) :
    (failures found).map RowFailure.row = (found.filter fun o => o.2.toOption.isNone).map Prod.fst := by
  induction found with
  | nil => rfl
  | cons o found ih =>
    obtain ⟨row, outcome⟩ := o
    cases outcome with
    | ok v => exact ih
    | error e => exact congrArg (row :: ·) ih

theorem keys_cells (distinct : (found.map Prod.fst).Nodup) : (cells found).keys.Perm (found.map Prod.fst) := by
  rw [List.perm_ext_iff_of_nodup Std.ExtTreeMap.nodup_keys distinct]
  intro row
  rw [Std.ExtTreeMap.mem_keys, cells, Std.ExtTreeMap.mem_ofList, List.contains_iff_mem, List.map_map]
  rfl

theorem accounts_of_outcomes (distinct : (found.map Prod.fst).Nodup) :
    Accounts (found.map Prod.fst) (cells found)
      (if (failures found).isEmpty then none else some (failures found)) := by
  have rows : (failures found).map RowFailure.row =
      (found.map Prod.fst).filter fun row => ((cells found)[row]?).any Option.isNone := by
    rw [map_row_failures, List.filter_map]
    refine congrArg (List.map Prod.fst) (List.filter_congr fun o ho => ?_)
    rw [Function.comp_apply, getElem?_cells distinct ho, Option.any_some]
  cases none : (failures found).isEmpty with
  | true =>
    rw [List.isEmpty_iff.1 none] at rows
    exact ⟨keys_cells distinct, rows, by simp⟩
  | false => exact ⟨keys_cells distinct, rows, fun same => by simp [Option.some.inj same] at none⟩

end Outcomes

namespace Sheet

structure Accounted (rows : List RowId) (cache : ByName ColumnValues) (report : Report) : Prop where
  column : ∀ x ∈ report.affected, ∃ values, report.results[x]? = some values ∧ cache[x]? = some values ∧
    Accounts rows values report.failures[x]?
  rest : ∀ x ∉ report.affected, report.results[x]? = none ∧ report.failures[x]? = none

namespace Accounted

variable {rows : List RowId} {p : Progress}

theorem empty (rows : List RowId) (cache : ByName ColumnValues) : Accounted rows cache .empty :=
  ⟨fun _ h => absurd h Std.ExtTreeSet.not_mem_empty,
    fun _ _ => ⟨Std.ExtTreeMap.getElem?_empty, Std.ExtTreeMap.getElem?_empty⟩⟩

/-- A column that is computed again would keep the failures of before if it had none. -/
theorem compute (h : Accounted (p.rows.map Row.id) p.cache p.report) (distinct : (p.rows.map Row.id).Nodup)
    (library : Library) {column : String} (fresh : column ∉ p.report.affected) (f : Formula) :
    Accounted (p.rows.map Row.id) (p.compute library column f).cache (p.compute library column f).report := by
  have affected : ∀ x, x ∈ (p.compute library column f).report.affected ↔ x = column ∨ x ∈ p.report.affected := by
    intro x
    rw [Progress.compute, Std.ExtTreeSet.mem_insert, Std.compare_eq_iff_eq, eq_comm]
  refine ⟨fun x hx => ?_, fun x hx => ?_⟩
  · by_cases own : x = column
    · subst own
      obtain ⟨cached, reported, failed⟩ := p.compute_self library x f
      refine ⟨_, reported, cached, ?_⟩
      have ids := map_fst_outcomes library f p.rows
      rw [failed, (h.rest x fresh).2, ← ids]
      exact accounts_of_outcomes (ids ▸ distinct)
    · obtain ⟨cached, reported, failed⟩ := p.compute_of_ne library f own
      rw [cached, reported, failed]
      exact h.column x (((affected x).1 hx).resolve_left own)
  · rw [affected, not_or] at hx
    obtain ⟨-, reported, failed⟩ := p.compute_of_ne library f hx.1
    rw [reported, failed]
    exact h.rest x hx.2

theorem foldl (h : Accounted (p.rows.map Row.id) p.cache p.report) (distinct : (p.rows.map Row.id).Nodup)
    (s : Sheet) {order : List String} (once : order.Nodup) (fresh : ∀ x ∈ order, x ∉ p.report.affected) :
    let q := order.foldl (fun p column =>
      match s.calculations.get? column with
      | some c => p.compute s.library column c.formula
      | none => p) p
    Accounted (p.rows.map Row.id) q.cache q.report := by
  induction order generalizing p with
  | nil => exact h
  | cons column order ih =>
    rw [List.nodup_cons] at once
    rw [List.foldl_cons]
    have later : ∀ x ∈ order, x ∉ p.report.affected := fun x hx => fresh x (List.mem_cons_of_mem _ hx)
    split
    · rename_i c _
      have step := h.compute distinct s.library (fresh column List.mem_cons_self) c.formula
      have ids : (p.compute s.library column c.formula).rows.map Row.id = p.rows.map Row.id := List.map_map
      rw [← ids] at step distinct ⊢
      refine ih step distinct once.2 fun x hx => ?_
      rw [Progress.compute, Std.ExtTreeSet.mem_insert, Std.compare_eq_iff_eq, not_or]
      exact ⟨fun same => once.1 (same ▸ hx), later x hx⟩
    · exact ih h distinct once.2 later

end Accounted

variable {s : Sheet} {report : Report}

theorem map_id_snapshot (s : Sheet) (run : List String) : (s.snapshot run).map Row.id = s.source.rows.map Row.id := by
  rw [snapshot_eq]
  exact (shows_publishAll (Shows.unpublished s.source.rows) s.cache _).map_id

theorem accounted_execute (distinct : (s.source.rows.map Row.id).Nodup) {targets : List String}
    (ok : (s.execute targets).1 = .ok report) :
    Accounted (s.source.rows.map Row.id) (s.execute targets).2.cache report := by
  unfold execute at ok ⊢
  dsimp only at ok ⊢
  split at ok
  · cases ok
  · rename_i order ordered
    cases ok
    rw [← map_id_snapshot s (s.closure targets)] at distinct ⊢
    have once := (DependencyGraph.ordered_of_topologicalOrder ordered).2.1
    exact (Accounted.empty _ s.cache).foldl (p := ⟨s.snapshot _, s.cache, .empty⟩) distinct s once
      fun _ _ => Std.ExtTreeSet.not_mem_empty

theorem accounted_add (distinct : (s.source.rows.map Row.id).Nodup) {column : String} {c : Calculation}
    (ok : (s.add column c).1 = .ok report) :
    Accounted (s.source.rows.map Row.id) (s.add column c).2.cache report := by
  rcases add_cases s column c with ⟨e, he⟩ | ⟨-, -, he⟩
  · rw [he] at ok
    cases ok
  · rw [he]
    rw [he] at ok
    by_cases active : c.active = true
    · rw [if_pos active] at ok ⊢
      exact accounted_execute (s := (s.added column c).uncacheCascade column) distinct ok
    · rw [if_neg active] at ok ⊢
      cases ok
      exact Accounted.empty _ _

theorem accounted_addText (distinct : (s.source.rows.map Row.id).Nodup) {id : Nat} {name column text : String}
    (ok : (s.addText id name column text).1 = .ok report) :
    Accounted (s.source.rows.map Row.id) (s.addText id name column text).2.cache report := by
  unfold addText at ok ⊢
  split at ok
  · cases ok
  · rename_i formula parsed
    simp only at ok ⊢
    cases result : (s.add column ⟨id, name, formula, true⟩).1 with
    | error e => rw [result] at ok; cases ok
    | ok r =>
      rw [result] at ok
      cases ok
      exact accounted_add distinct result

/-- In every state over rows with distinct numbers, every report of an addition, of the computation of all columns or
of that of the stale ones accounts for every row in every column, and what it reports is what is cached. -/
theorem reports_account_for_rows {s : Sheet} (distinct : (s.source.rows.map Row.id).Nodup) :
    let rows := s.source.rows.map Row.id
    (∀ column c report, (s.add column c).1 = .ok report → Accounted rows (s.add column c).2.cache report) ∧
    (∀ id name column text report, (s.addText id name column text).1 = .ok report →
      Accounted rows (s.addText id name column text).2.cache report) ∧
    (∀ report, s.executeAll.1 = .ok report → Accounted rows s.executeAll.2.cache report) ∧
    ∀ report, s.refresh.1 = .ok report → Accounted rows s.refresh.2.cache report :=
  ⟨fun _ _ _ => accounted_add distinct, fun _ _ _ _ _ => accounted_addText distinct,
    fun _ => accounted_execute distinct, fun _ => accounted_execute distinct⟩

def unevenRows : Dataset :=
  .ofRows [⟨7, .ofList [("v", .text "x")]⟩, ⟨2, .ofList [("v", .number ⟨0⟩)]⟩, ⟨4, .ofList [("v", .text "y")]⟩]

def failing : List Operation := [.addText 0 "a" "a" "v - 1", .addText 1 "b" "b" "a == null"]

set_option maxRecDepth 10000 in
theorem reports_account_for_rows_uneven :
    let s := (ofSource unevenRows .standard).after failing
    (s.source.rows.map Row.id).Nodup ∧ ∃ report, s.executeAll.1 = .ok report ∧
      report.affected.toList = ["a", "b"] ∧
      report.failures.toList.map (fun e => (e.1, e.2.map RowFailure.row)) = [("a", [7, 4])] ∧
      Accounted (s.source.rows.map Row.id) s.executeAll.2.cache report := by
  intro s
  have distinct : (s.source.rows.map Row.id).Nodup := by decide +kernel
  have computed : s.executeAll.1.toOption.map (fun r => (r.affected.toList,
      r.failures.toList.map fun e => (e.1, e.2.map RowFailure.row))) = some (["a", "b"], [("a", [7, 4])]) := by
    decide +kernel
  obtain ⟨report, ok, told⟩ := Option.map_eq_some_iff.1 computed
  have result : s.executeAll.1 = .ok report := by
    cases h : s.executeAll.1 with
    | error e => rw [h] at ok; cases ok
    | ok r => rw [h] at ok; cases ok; rfl
  obtain ⟨affected, failed⟩ := Prod.mk.inj told
  exact ⟨distinct, report, result, affected, failed, (reports_account_for_rows distinct).2.2.1 report result⟩

end Sheet

end DerivedColumns
