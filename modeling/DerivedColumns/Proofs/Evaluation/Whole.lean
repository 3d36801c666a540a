import DerivedColumns.Evaluation.Whole
import DerivedColumns.Proofs.Evaluation.Scalar
import Mathlib.Data.List.Forall2

set_option autoImplicit false

namespace DerivedColumns

open List (Forall₂)

def RowMatch (old new : String) (names : Names) (row row' : Row) : Prop :=
  row'.id = row.id ∧
    ∀ x ∈ names, row'.fields.get? (Formula.substitute old new x) = row.fields.get? x

namespace Evaluation

variable {old new : String} {names : Names} {rows rows' : List Row}

theorem fieldValue_match {row row' : Row} (h : RowMatch old new names row row') {x : String}
    (hx : x ∈ names) :
    fieldValue row'.fields (Formula.substitute old new x) = fieldValue row.fields x := by
  unfold fieldValue
  rw [h.2 x hx]

theorem fieldValues_match {row row' : Row} (h : RowMatch old new names row row')
    {keys : List String} (hkeys : ∀ x ∈ keys, x ∈ names) :
    (keys.map (Formula.substitute old new)).map (fieldValue row'.fields) =
      keys.map (fieldValue row.fields) := by
  rw [List.map_map]
  exact List.map_congr_left fun x hx => fieldValue_match h (hkeys x hx)

theorem groupKey_match {row row' : Row} (h : RowMatch old new names row row')
    {keys : List String} (hkeys : ∀ x ∈ keys, x ∈ names) :
    groupKey (keys.map (Formula.substitute old new)) row'.fields = groupKey keys row.fields := by
  have texts : ∀ (ks : List String) (fields : Fields),
      ks.map (fun name => (fieldValue fields name).display) =
        (ks.map (fieldValue fields)).map Value.display := by
    intro ks fields
    rw [List.map_map]
    rfl
  unfold groupKey
  rw [texts, texts, fieldValues_match h hkeys]

def GroupsMatch (old new : String) (names : Names) : List (String × List Row) →
    List (String × List Row) → Prop :=
  Forall₂ fun group group' => group.1 = group'.1 ∧ Forall₂ (RowMatch old new names) group.2 group'.2

theorem GroupsMatch.members {groups groups' : List (String × List Row)}
    (h : GroupsMatch old new names groups groups') (key : String) :
    Forall₂ (RowMatch old new names) ((groups.lookup key).getD []) ((groups'.lookup key).getD []) := by
  induction h with
  | nil => exact .nil
  | @cons group group' rest rest' hg _ ih =>
    obtain ⟨k, members⟩ := group
    obtain ⟨k', members'⟩ := group'
    obtain ⟨rfl, hm⟩ : k = k' ∧ _ := hg
    simp only [List.lookup_cons]
    cases key == k with
    | true => exact hm
    | false => exact ih

theorem GroupsMatch.put {groups groups' : List (String × List Row)}
    (h : GroupsMatch old new names groups groups') (key : String) {members members' : List Row}
    (hm : Forall₂ (RowMatch old new names) members members') :
    GroupsMatch old new names (Keyed.put key members groups) (Keyed.put key members' groups') := by
  induction h with
  | nil => exact .cons ⟨rfl, hm⟩ .nil
  | @cons group group' rest rest' hg hrest ih =>
    obtain ⟨k, before⟩ := group
    obtain ⟨k', before'⟩ := group'
    obtain ⟨rfl, hb⟩ : k = k' ∧ _ := hg
    by_cases hk : k = key
    · simp only [Keyed.put, if_pos hk]
      exact .cons ⟨rfl, hm⟩ hrest
    · simp only [Keyed.put, if_neg hk]
      exact .cons ⟨rfl, hb⟩ ih

theorem partition_match (h : Forall₂ (RowMatch old new names) rows rows')
    {keys : List String} (hkeys : ∀ x ∈ keys, x ∈ names) :
    GroupsMatch old new names (partition keys rows).entries
      (partition (keys.map (Formula.substitute old new)) rows').entries := by
  let add (keys : List String) (groups : Keyed (List Row)) (row : Row) : Keyed (List Row) :=
    groups.insert (groupKey keys row.fields)
      (row :: (groups.get? (groupKey keys row.fields)).getD [])
  have folded : GroupsMatch old new names (rows.foldl (add keys) Keyed.empty).entries
      (rows'.foldl (add (keys.map (Formula.substitute old new))) Keyed.empty).entries := by
    have start : GroupsMatch old new names (Keyed.empty : Keyed (List Row)).entries
      (Keyed.empty : Keyed (List Row)).entries := .nil
    refine List.rel_foldl (P := fun groups groups' : Keyed (List Row) =>
      GroupsMatch old new names groups.entries groups'.entries) ?_ start h
    intro groups groups' hg row row' hrow
    change GroupsMatch old new names (Keyed.put _ _ _) (Keyed.put _ _ _)
    rw [groupKey_match hrow hkeys]
    exact hg.put _ (.cons hrow (hg.members _))
  refine List.rel_map (fun group group' hg => ?_) folded
  exact ⟨hg.1, List.forall₂_reverse_iff.2 hg.2⟩

theorem present_match (h : Forall₂ (RowMatch old new names) rows rows') {x : String}
    (hx : x ∈ names) : present (Formula.substitute old new x) rows' = present x rows := by
  unfold present
  congr 1
  induction h with
  | nil => rfl
  | @cons row row' rest rest' hrow _ ih =>
    simp only [List.filterMap_cons, hrow.2 x hx, ih]

theorem groupAggregate_match (h : Forall₂ (RowMatch old new names) rows rows')
    (aggregation : Aggregation) {field : Option String} (hfield : ∀ x ∈ field, x ∈ names) :
    groupAggregate aggregation (field.map (Formula.substitute old new)) rows' =
      groupAggregate aggregation field rows := by
  unfold groupAggregate
  rw [h.length_eq]
  cases field with
  | none => rfl
  | some x =>
    simp only [Option.map_some, present_match h (hfield x rfl)]

theorem group_match (h : Forall₂ (RowMatch old new names) rows rows') (aggregation : Aggregation)
    {keys : List String} {field : Option String} (hkeys : ∀ x ∈ keys, x ∈ names)
    (hfield : ∀ x ∈ field, x ∈ names) :
    group (keys.map (Formula.substitute old new)) aggregation
      (field.map (Formula.substitute old new)) rows' = group keys aggregation field rows := by
  have entries : ∀ groups groups', GroupsMatch old new names groups groups' →
      evaluateEntries (groupAggregate aggregation (field.map (Formula.substitute old new))) groups' =
        evaluateEntries (groupAggregate aggregation field) groups := by
    intro groups groups' hg
    induction hg with
    | nil => rfl
    | @cons group group' rest rest' hg _ ih =>
      obtain ⟨k, members⟩ := group
      obtain ⟨k', members'⟩ := group'
      obtain ⟨rfl, hm⟩ : k = k' ∧ _ := hg
      simp only [evaluateEntries, groupAggregate_match hm aggregation hfield, ih]
  unfold group
  rw [Option.isNone_map, entries _ _ (partition_match h hkeys)]

def compareValues : List Value → List Value → Ordering
  | v :: vs, w :: ws => (v.sortCompare w).then (compareValues vs ws)
  | _, _ => .eq

theorem rankCompare_eq (keys : List String) (a b : Row) :
    rankCompare keys a b =
      compareValues (keys.map (fieldValue a.fields)) (keys.map (fieldValue b.fields)) := by
  induction keys with
  | nil => rfl
  | cons name more ih =>
    rw [rankCompare, ih]
    rfl

/-- Sorting sees a row as its id with the values of its keys. -/
theorem ranked_map (keys : List String) (rows : List Row) :
    (ranked keys rows).map (fun row => (row.id, keys.map (fieldValue row.fields))) =
      (rows.map fun row => (row.id, keys.map (fieldValue row.fields))).mergeSort
        fun a b => compareValues a.2 b.2 != .gt := by
  unfold ranked
  apply List.map_mergeSort
  intro a _ b _
  rw [rankCompare_eq]

theorem numbered_congr (normalized cumulative : Bool) (total : Float) (place : Nat)
    (running : Float) (h : rows.map Row.id = rows'.map Row.id) :
    numbered normalized cumulative total place running rows =
      numbered normalized cumulative total place running rows' := by
  induction rows generalizing rows' place running with
  | nil =>
    cases rows' with
    | nil => rfl
    | cons row' rest' => simp at h
  | cons row rest ih =>
    cases rows' with
    | nil => simp at h
    | cons row' rest' =>
      simp only [List.map_cons, List.cons.injEq] at h
      simp only [numbered, h.1, ih _ _ h.2]

theorem rank_match (h : Forall₂ (RowMatch old new names) rows rows') (normalized cumulative : Bool)
    {keys : List String} (hkeys : ∀ x ∈ keys, x ∈ names) :
    rank (keys.map (Formula.substitute old new)) normalized cumulative rows' =
      rank keys normalized cumulative rows := by
  have seen : (rows'.map fun row =>
      (row.id, (keys.map (Formula.substitute old new)).map (fieldValue row.fields))) =
      rows.map fun row => (row.id, keys.map (fieldValue row.fields)) := by
    induction h with
    | nil => rfl
    | @cons row row' rest rest' hrow _ ih =>
      rw [List.map_cons, List.map_cons, ih, fieldValues_match hrow hkeys, hrow.1]
  have ids : (ranked (keys.map (Formula.substitute old new)) rows').map Row.id =
      (ranked keys rows).map Row.id := by
    have sorted := ranked_map (keys.map (Formula.substitute old new)) rows'
    rw [seen, ← ranked_map keys rows] at sorted
    simpa only [List.map_map, Function.comp_def] using congrArg (List.map Prod.fst) sorted
  unfold rank
  rw [numbered_congr normalized cumulative _ 0 0 ids, h.length_eq]

theorem alike_evaluate {E : EvalError → EvalError → Prop} (hE : Renaming old new E)
    {library : Library} {fields fields' : Fields} (f : Formula)
    (table : Forall₂ (RowMatch old new f.reads) rows rows')
    (reads : ∀ x ∈ f.reads, fields'.get? (Formula.substitute old new x) = fields.get? x)
    (dates : ∀ x ∈ f.dateFields ⟨library, fields⟩, fields'.get? x = fields.get? x) :
    Alike E (evaluate ⟨library, fields⟩ rows f)
      (evaluate ⟨library, fields'⟩ rows' (f.rename old new)) := by
  have perRow := (alike_scalar hE f reads dates).map Result.scalar
  cases f with
  | group keys aggregation field =>
    have member : ∀ x ∈ keys ++ field.toList, x ∈ Formula.reads (.group keys aggregation field) :=
      fun x hx => (Names.mem_ofList _ x).2 hx
    rw [Formula.rename, evaluate, evaluate, group_match table aggregation
      (fun x hx => member x (List.mem_append_left _ hx))
      (fun x hx => member x (List.mem_append_right _ (Option.mem_toList.2 hx)))]
    exact Alike.refl hE.refl _
  | rank keys normalized cumulative =>
    have member : ∀ x ∈ keys, x ∈ Formula.reads (.rank keys normalized cumulative) :=
      fun x hx => (Names.mem_ofList _ x).2 hx
    rw [Formula.rename, evaluate, evaluate, rank_match table normalized cumulative member]
    exact Alike.refl hE.refl _
  | atom a => cases a <;> exact perRow
  | _ => exact perRow

end Evaluation

end DerivedColumns
