import DerivedColumns.Proofs.Distinct
import DerivedColumns.Proofs.Evaluation.Grouping

set_option autoImplicit false

namespace DerivedColumns.Evaluation

def groupKeys (keys : List String) (rows : List Row) : List String :=
  (rows.map fun row => groupKey keys row.fields).eraseDups

theorem mem_groupKeys {keys : List String} {rows : List Row} {key : String} :
    key ∈ groupKeys keys rows ↔ part keys rows key ≠ [] := by
  rw [groupKeys, List.mem_eraseDups, List.mem_map, part, ne_eq, List.filter_eq_nil_iff]
  simp

theorem keys_gather (keys : List String) (rows : List Row) :
    (gather keys .empty rows).keys = groupKeys keys rows := by
  induction rows using List.reverseRecOn with
  | nil => rfl
  | append_singleton rows row ih =>
    have last : (gather keys .empty (rows ++ [row])).keys = if groupKey keys row.fields ∈ groupKeys keys rows
        then groupKeys keys rows else groupKeys keys rows ++ [groupKey keys row.fields] := by
      rw [← ih, gather, List.foldl_append]
      exact Keyed.keys_insert _ _ _
    rw [last, groupKeys, groupKeys, List.map_append, List.map_singleton, eraseDups_concat]
    simp only [List.mem_eraseDups]

/-- Parting in one pass gives for each key the rows that have it. -/
theorem entries_partition (keys : List String) (rows : List Row) :
    (partition keys rows).entries = (groupKeys keys rows).map fun key => (key, part keys rows key) := by
  have own : (partition keys rows).keys = groupKeys keys rows := by
    rw [← keys_gather]
    exact List.map_map
  rw [← own]
  refine Keyed.entries_eq_map fun key hk => ?_
  rw [get?_partition, if_neg (mem_groupKeys.1 (own ▸ hk))]

def fault? {α : Type} : Evaluated α → Option EvalError
  | .ok _ => none
  | .error e => some e

section Entries

variable {f : List Row → Evaluated Value} {entries : List (String × List Row)}
  {evaluated : List (String × Value)}

theorem evaluateEntries_cons (f : List Row → Evaluated Value) (entry : String × List Row)
    (entries : List (String × List Row)) : evaluateEntries f (entry :: entries) =
      match f entry.2, evaluateEntries f entries with
      | .error e, _ => .error e
      | .ok _, .error e => .error e
      | .ok v, .ok more => .ok ((entry.1, v) :: more) := by
  rw [evaluateEntries]
  cases f entry.2 with
  | error e => rfl
  | ok v => cases evaluateEntries f entries <;> rfl

theorem evaluateEntries_eq_error (e : EvalError) : evaluateEntries f entries = .error e ↔
    entries.findSome? (fun entry => fault? (f entry.2)) = some e := by
  induction entries with
  | nil => exact iff_of_false nofun nofun
  | cons entry entries ih =>
    rw [evaluateEntries_cons, List.findSome?_cons]
    cases own : f entry.2 with
    | error e' => simp [fault?]
    | ok v =>
      rw [fault?, ← ih]
      cases evaluateEntries f entries <;> simp

theorem keys_evaluateEntries (h : evaluateEntries f entries = .ok evaluated) :
    evaluated.map Prod.fst = entries.map Prod.fst := by
  induction entries generalizing evaluated with
  | nil =>
    cases h
    rfl
  | cons entry entries ih =>
    rw [evaluateEntries_cons] at h
    split at h
    · cases h
    · cases h
    · rename_i rest
      cases h
      rw [List.map_cons, List.map_cons, ih rest]

theorem lookup_evaluateEntries (h : evaluateEntries f entries = .ok evaluated) (key : String) (v : Value) :
    evaluated.lookup key = some v ↔ ∃ members, entries.lookup key = some members ∧ f members = .ok v := by
  induction entries generalizing evaluated with
  | nil =>
    cases h
    exact iff_of_false nofun nofun
  | cons entry entries ih =>
    rw [evaluateEntries_cons] at h
    split at h
    · cases h
    · cases h
    · rename_i first rest
      cases h
      rw [List.lookup_cons, List.lookup_cons]
      cases key == entry.1 with
      | true =>
        dsimp only
        simp only [Option.some_inj, exists_eq_left', first, Except.ok.injEq]
      | false => exact ih rest

end Entries

/-- The values of some rows under a name, in the order of the rows. Rows without one, or with null, are left out. -/
def nonNull (name : String) (rows : List Row) : List Value :=
  (rows.map fun row => (row.fields.get? name).getD .null).filter fun v => !(v matches .null)

theorem present_eq_nonNull (name : String) (rows : List Row) : present name rows = nonNull name rows := by
  induction rows with
  | nil => rfl
  | cons row rows ih =>
    unfold present nonNull at ih ⊢
    rw [List.map_cons, List.filterMap_cons]
    cases row.fields.get? name with
    | none => exact ih
    | some v =>
      cases v with
      | null => exact ih
      | _ => exact congrArg (List.cons _) ih

def aggregated (field : Option String) (rows : List Row) : List Value :=
  match field with
  | none => []
  | some name => nonNull name rows

theorem groupAggregate_eq (aggregation : Aggregation) (field : Option String) (rows : List Row) :
    groupAggregate aggregation field rows = aggregate aggregation rows.length (aggregated field rows) := by
  cases field with
  | none => rfl
  | some name =>
    rw [aggregated, ← present_eq_nonNull]
    rfl

/-- The failure of a grouping: a missing field of values, or else the failure of the first group whose
aggregate fails. -/
def groupFault? (keys : List String) (aggregation : Aggregation) (field : Option String)
    (rows : List Row) : Option EvalError :=
  if aggregation.needsField && field.isNone then
    some (.argument aggregation.text "aggregation needs a value field")
  else (groupKeys keys rows).findSome? fun key => let own := part keys rows key
    fault? (aggregate aggregation own.length (aggregated field own))

section Groups

variable {keys : List String} {aggregation : Aggregation} {field : Option String} {rows : List Row}

theorem group_eq_error (e : EvalError) : group keys aggregation field rows = .error e ↔
    groupFault? keys aggregation field rows = some e := by
  unfold group groupFault?
  split
  · simp
  · have first : evaluateEntries (groupAggregate aggregation field) (partition keys rows).entries =
        .error e ↔ _ := evaluateEntries_eq_error e
    rw [entries_partition, List.findSome?_map] at first
    simp only [Function.comp_def, groupAggregate_eq] at first
    refine Iff.trans ?_ first
    rw [entries_partition]
    cases evaluateEntries (groupAggregate aggregation field)
      ((groupKeys keys rows).map fun key => (key, part keys rows key)) with
    | error e' => simp [Except.map]
    | ok evaluated => simp [Except.map]

theorem get?_group {groups : Keyed Value} (h : group keys aggregation field rows = .ok groups)
    (key : String) (v : Value) : groups.get? key = some v ↔ part keys rows key ≠ [] ∧
      aggregate aggregation (part keys rows key).length (aggregated field (part keys rows key)) = .ok v := by
  unfold group at h
  split at h
  · cases h
  · cases entries : evaluateEntries (groupAggregate aggregation field) (partition keys rows).entries with
    | error e =>
      rw [entries] at h
      cases h
    | ok evaluated =>
      rw [entries] at h
      cases h
      have distinct : (evaluated.map Prod.fst).Nodup := by
        rw [keys_evaluateEntries entries]
        exact (partition keys rows).nodup
      rw [Keyed.get?_ofList distinct, lookup_evaluateEntries entries]
      change (∃ members, (partition keys rows).get? key = some members ∧ _) ↔ _
      rw [get?_partition]
      split
      · rename_i none
        exact iff_of_false nofun fun no => no.1 none
      · rename_i some
        simp only [Option.some_inj, exists_eq_left', ne_eq, some, not_false_eq_true, true_and, groupAggregate_eq]

/-- Without a failure every group has the aggregate of its rows. -/
theorem exists_group (h : groupFault? keys aggregation field rows = none) :
    ∃ groups, group keys aggregation field rows = .ok groups ∧ ∀ key, part keys rows key ≠ [] → ∃ v,
      groups.get? key = some v ∧
      aggregate aggregation (part keys rows key).length (aggregated field (part keys rows key)) = .ok v := by
  cases grouped : group keys aggregation field rows with
  | error e =>
    rw [(group_eq_error e).1 grouped] at h
    cases h
  | ok groups =>
    refine ⟨groups, rfl, fun key some => ?_⟩
    have sound : fault? (aggregate aggregation (part keys rows key).length
        (aggregated field (part keys rows key))) = none := by
      unfold groupFault? at h
      split at h
      · cases h
      · exact List.findSome?_eq_none_iff.1 h key (mem_groupKeys.2 some)
    cases value : aggregate aggregation (part keys rows key).length
      (aggregated field (part keys rows key)) with
    | error e =>
      rw [value] at sound
      cases sound
    | ok v => exact ⟨v, (get?_group grouped key v).2 ⟨some, value⟩, rfl⟩

end Groups

end DerivedColumns.Evaluation
