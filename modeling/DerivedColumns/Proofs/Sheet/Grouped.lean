import DerivedColumns.Proofs.Evaluation.Groups
import DerivedColumns.Sheet.Execution

set_option autoImplicit false

namespace DerivedColumns

open Evaluation

section Outcomes

variable {found : List (RowId × Evaluated Value)}

theorem getElem?_cells (distinct : (found.map Prod.fst).Nodup) {row : RowId} {outcome : Evaluated Value}
    (h : (row, outcome) ∈ found) : (cells found)[row]? = some outcome.toOption := by
  refine getElem?_ofList ?_ (List.mem_map_of_mem (f := fun o => (o.1, o.2.toOption)) h)
  rw [List.map_map]
  exact distinct

theorem failures_eq_nil (h : ∀ o ∈ found, ∃ v, o.2 = .ok v) : failures found = [] := by
  refine List.filterMap_eq_nil_iff.2 ?_
  rintro ⟨row, outcome⟩ ho
  obtain ⟨v, rfl⟩ : ∃ v, outcome = .ok v := h _ ho
  rfl

theorem failures_map_error (rows : List Row) (e : EvalError) :
    failures (rows.map fun row => (row.id, .error e)) = rows.map fun row => ⟨row.id, e⟩ := by
  rw [failures, List.filterMap_map]
  exact congrFun (List.filterMap_eq_map (f := fun row : Row => RowFailure.mk row.id e)) rows

end Outcomes

theorem outcomes_group (library : Library) (keys : List String) (aggregation : Aggregation)
    (field : Option String) (rows : List Row) :
    outcomes library (.group keys aggregation field) rows = rows.map fun row =>
      (row.id, (group keys aggregation field rows).map fun groups =>
        (groups.get? (groupKey keys row.fields)).getD .null) := by
  unfold outcomes
  simp only [Formula.isWhole, if_true, evaluate]
  cases group keys aggregation field rows <;> rfl

/-- A grouping that fails fails every row, with the failure of the first group to fail. Any other gives each
row the aggregate of exactly the rows with its key, and finds a group for every row. -/
theorem grouped_row_by_row (library : Library) (keys : List String) (aggregation : Aggregation)
    (field : Option String) {rows : List Row} (distinct : (rows.map Row.id).Nodup) :
    let column := outcomes library (.group keys aggregation field) rows
    (∀ e, groupFault? keys aggregation field rows = some e →
      failures column = rows.map (fun row => ⟨row.id, e⟩) ∧
      ∀ row ∈ rows, (cells column)[row.id]? = some none) ∧
    (groupFault? keys aggregation field rows = none →
      failures column = [] ∧
      ∃ groups, evaluate ⟨library, .empty⟩ rows (.group keys aggregation field) = .ok (.byGroup groups) ∧
      ∀ row ∈ rows, let own := part keys rows (groupKey keys row.fields)
        ∃ v, groups.get? (groupKey keys row.fields) = some v ∧
          aggregate aggregation own.length (aggregated field own) = .ok v ∧
          (cells column)[row.id]? = some (some v)) := by
  intro column
  have ids : (column.map Prod.fst).Nodup := by
    have same : column.map Prod.fst = rows.map Row.id := by
      simp [column, outcomes_group, Function.comp_def]
    rwa [same]
  constructor
  · intro e fault
    have all : column = rows.map fun row => (row.id, .error e) := by
      simp [column, outcomes_group, (group_eq_error e).2 fault, Except.map]
    rw [all] at ids ⊢
    exact ⟨failures_map_error rows e, fun row hrow => getElem?_cells ids (List.mem_map_of_mem hrow)⟩
  · intro sound
    obtain ⟨groups, grouped, found⟩ := exists_group sound
    have all : column = rows.map fun row =>
        (row.id, .ok ((groups.get? (groupKey keys row.fields)).getD .null)) := by
      simp [column, outcomes_group, grouped, Except.map]
    rw [all] at ids ⊢
    refine ⟨failures_eq_nil ?_, groups, ?_, fun row hrow => ?_⟩
    · intro o ho
      obtain ⟨row, -, rfl⟩ := List.mem_map.1 ho
      exact ⟨_, rfl⟩
    · rw [evaluate, grouped]
      rfl
    · obtain ⟨v, own, value⟩ := found _ (List.ne_nil_of_mem (mem_part.2 ⟨hrow, rfl⟩))
      refine ⟨v, own, value, ?_⟩
      have cell := getElem?_cells ids (List.mem_map_of_mem hrow)
      rwa [own] at cell

def mixedGroups : List Row :=
  [⟨4, .ofList [("x", .text "a"), ("n", .number ⟨0⟩), ("m", .number (.ofNat 2))]⟩,
    ⟨2, .ofList [("x", .text "b"), ("n", .text "?")]⟩, ⟨3, .ofList [("x", .text "a"), ("m", .null)]⟩,
    ⟨1, .ofList [("x", .text "c"), ("n", .null)]⟩]

theorem grouped_row_by_row_mixed : (mixedGroups.map Row.id).Nodup ∧
    (groupFault? ["x"] .max (some "n") mixedGroups = some (.invalidOperand "max" "string \"?\"") ∧
      (cells (outcomes Library.standard (.group ["x"] .max (some "n")) mixedGroups))[4]? = some none) ∧
    (groupFault? ["x"] .max (some "m") mixedGroups = none ∧
      (cells (outcomes Library.standard (.group ["x"] .max (some "m")) mixedGroups))[3]? =
        some (some (.number (.ofNat 2)))) ∧
    (groupFault? ["x"] .countUnique (some "n") mixedGroups = none ∧
      (cells (outcomes Library.standard (.group ["x"] .countUnique (some "n")) mixedGroups))[1]? =
        some (some (.number (.ofNat 0)))) := by
  have distinct : (mixedGroups.map Row.id).Nodup := by decide
  have fault : groupFault? ["x"] .max (some "n") mixedGroups =
      some (.invalidOperand "max" "string \"?\"") := by decide +kernel
  have sound : groupFault? ["x"] .max (some "m") mixedGroups = none := by decide +kernel
  have counted : groupFault? ["x"] .countUnique (some "n") mixedGroups = none := by decide +kernel
  obtain ⟨-, failed⟩ :=
    (grouped_row_by_row Library.standard ["x"] .max (some "n") distinct).1 _ fault
  obtain ⟨-, _, -, found⟩ :=
    (grouped_row_by_row Library.standard ["x"] .max (some "m") distinct).2 sound
  obtain ⟨-, _, -, found'⟩ :=
    (grouped_row_by_row Library.standard ["x"] .countUnique (some "n") distinct).2 counted
  refine ⟨distinct, ⟨fault, failed mixedGroups[0] (List.getElem_mem _)⟩, ⟨sound, ?_⟩, counted, ?_⟩
  · obtain ⟨v, -, value, cell⟩ := found mixedGroups[2] (List.getElem_mem _)
    have two : aggregated (some "m") (part ["x"] mixedGroups (groupKey ["x"] mixedGroups[2].fields)) =
        [.number (.ofNat 2)] := rfl
    rw [two] at value
    cases value
    exact cell
  · obtain ⟨v, -, value, cell⟩ := found' mixedGroups[3] (List.getElem_mem _)
    have none : aggregated (some "n") (part ["x"] mixedGroups (groupKey ["x"] mixedGroups[3].fields)) =
        [] := rfl
    rw [none] at value
    cases value
    exact cell

end DerivedColumns
