import DerivedColumns.Proofs.Evaluation.Agreement
import DerivedColumns.Proofs.Keyed
import DerivedColumns.Sheet.Execution

set_option autoImplicit false

namespace DerivedColumns

open List (Forall₂)

variable {old new : String} {library : Library} {f : Formula} {rows rows' source : List Row}

theorem map_fst_outcomes (library : Library) (f : Formula) (rows : List Row) :
    (outcomes library f rows).map Prod.fst = rows.map Row.id := by
  unfold outcomes
  split <;> exact List.map_map

theorem exists_cell (library : Library) (f : Formula) {row : Row} (h : row ∈ rows) :
    ∃ cell, (cells (outcomes library f rows))[row.id]? = some cell := by
  rw [← Option.isSome_iff_exists, ← Std.ExtTreeMap.mem_iff_isSome_getElem?, cells, Std.ExtTreeMap.mem_ofList,
    List.contains_iff_mem, List.map_map]
  change row.id ∈ (outcomes library f rows).map Prod.fst
  rw [map_fst_outcomes]
  exact List.mem_map_of_mem h

theorem at_match {row row' : Row} (h : RowMatch old new f.reads row row') (result : Result) :
    result.at (f.rename old new) row' = result.at f row := by
  cases result with
  | scalar v => rfl
  | byRow ranks => simp only [Result.at, h.1]
  | byGroup groups =>
    cases f with
    | group keys aggregation field =>
      have member : ∀ x ∈ keys, x ∈ Formula.reads (.group keys aggregation field) :=
        fun x hx => (Names.mem_ofList _ x).2 (List.mem_append_left _ hx)
      simp only [Result.at, Formula.rename, Evaluation.groupKey_match h member]
    | atom a => cases a <;> rfl
    | _ => rfl

theorem outcomes_match {E : EvalError → EvalError → Prop} (hE : Renaming old new E)
    (dateless : f.callsDate library = false) (h : Forall₂ (RowMatch old new f.reads) rows rows') :
    Forall₂ (fun o o' => o'.1 = o.1 ∧ Alike E o.2 o'.2) (outcomes library f rows)
      (outcomes library (f.rename old new) rows') := by
  have noDates : ∀ fields x, x ∈ f.dateFields ⟨library, fields⟩ → False := by
    intro fields x hx
    rw [Formula.dateFields_eq_nil ⟨library, fields⟩ f dateless] at hx
    cases hx
  unfold outcomes
  rw [Formula.isWhole_rename]
  split
  · have result : Alike E (Evaluation.evaluate ⟨library, .empty⟩ rows f)
        (Evaluation.evaluate ⟨library, .empty⟩ rows' (f.rename old new)) :=
      Evaluation.alike_evaluate hE f h (fun _ _ => rfl) fun x hx => (noDates _ x hx).elim
    refine List.rel_map ?_ h
    intro row row' hrow
    refine ⟨hrow.1, ?_⟩
    simp only [at_match hrow]
    exact result.map fun r => r.at f row
  · refine List.rel_map ?_ h
    intro row row' hrow
    exact ⟨hrow.1, Evaluation.alike_scalar hE f hrow.2 fun x hx => (noDates _ x hx).elim⟩

theorem cells_match (dateless : f.callsDate library = false)
    (h : Forall₂ (RowMatch old new f.reads) rows rows') :
    cells (outcomes library (f.rename old new) rows') = cells (outcomes library f rows) := by
  have anyError : Renaming old new fun _ _ => True := ⟨fun _ => trivial, fun _ => trivial,
    fun _ _ => trivial⟩
  have entries : Forall₂ Eq ((outcomes library f rows).map fun o => (o.1, o.2.toOption))
      ((outcomes library (f.rename old new) rows').map fun o => (o.1, o.2.toOption)) := by
    refine List.rel_map ?_ (outcomes_match anyError dateless h)
    intro o o' ho
    exact Prod.ext ho.1.symm ho.2.toOption_eq
  rw [List.forall₂_eq_eq_eq] at entries
  unfold cells
  rw [entries]

def shownCell (values : ColumnValues) (row : RowId) : Value := (values[row]?.bind id).getD .null

/-- The rows show some columns, and the fields of the source under all other names. -/
def Shows (shown : String → Option ColumnValues) (source rows : List Row) : Prop :=
  Forall₂ (fun base row => row.id = base.id ∧ ∀ x, row.fields.get? x =
    match shown x with
    | some values => some (shownCell values base.id)
    | none => base.fields.get? x) source rows

namespace Shows

variable {shown shown' : String → Option ColumnValues}

theorem unpublished (rows : List Row) : Shows (fun _ => none) rows rows :=
  List.forall₂_same.2 fun _ _ => ⟨rfl, fun _ => rfl⟩

theorem publish (h : Shows shown source rows) (column : String) (values : ColumnValues) :
    Shows (fun x => if x = column then some values else shown x) source
      (publish column values rows) := by
  unfold DerivedColumns.publish
  refine List.forall₂_map_right_iff.2 (h.imp ?_)
  rintro base row ⟨hid, hfields⟩
  refine ⟨hid, fun x => ?_⟩
  simp only [Keyed.get?_insert]
  by_cases hx : x = column
  · simp [hx, shownCell, hid]
  · simp only [if_neg hx, hfields]

theorem map_id (h : Shows shown source rows) : rows.map Row.id = source.map Row.id := by
  induction h with
  | nil => rfl
  | cons same _ ih => exact congrArg₂ List.cons same.1 ih

/-- What is shown under the names that a formula reads is all that matters. -/
theorem rowMatch {names : Names} (h : Shows shown source rows) (h' : Shows shown' source rows')
    (same : ∀ x ∈ names, shown' (Formula.substitute old new x) = shown x ∧
      (shown x = none → ∀ base ∈ source,
        base.fields.get? (Formula.substitute old new x) = base.fields.get? x)) :
    Forall₂ (RowMatch old new names) rows rows' := by
  induction h generalizing rows' with
  | nil =>
    cases h'
    exact .nil
  | @cons base row bases rows hrow _ ih =>
    cases h' with
    | @cons _ row' _ rows' hrow' hrest' =>
      refine .cons ⟨hrow'.1.trans hrow.1.symm, ?_⟩ (ih hrest' ?_)
      · intro x hx
        obtain ⟨hshown, hbase⟩ := same x hx
        rw [hrow'.2, hrow.2, hshown]
        cases hs : shown x with
        | some values => rfl
        | none => exact hbase hs base List.mem_cons_self
      · intro x hx
        exact ⟨(same x hx).1, fun hs b hb => (same x hx).2 hs b (List.mem_cons_of_mem _ hb)⟩

theorem congr (h : Shows shown source rows) (same : ∀ x, shown' x = shown x) :
    Shows shown' source rows := by
  rw [show shown' = shown from funext same]
  exact h

end Shows

theorem outcomes_congr {shown shown' : String → Option ColumnValues}
    (dateless : f.callsDate library = false) (h : Shows shown source rows)
    (h' : Shows shown' source rows') (same : ∀ x ∈ f.reads, shown' x = shown x) :
    outcomes library f rows' = outcomes library f rows := by
  have rowMatch : Forall₂ (RowMatch "" "" f.reads) rows rows' := by
    refine h.rowMatch h' fun x hx => ?_
    rw [Formula.substitute_self]
    exact ⟨same x hx, fun _ _ _ => rfl⟩
  have matched := outcomes_match (renaming_self "") dateless rowMatch
  rw [Formula.rename_self] at matched
  have equal : Forall₂ Eq (outcomes library f rows) (outcomes library f rows') :=
    matched.imp fun _ _ h => Prod.ext h.1.symm h.2.eq
  rw [List.forall₂_eq_eq_eq] at equal
  exact equal.symm

def publishAll (cache : ByName ColumnValues) (columns : List String) (rows : List Row) : List Row :=
  columns.foldl (fun rows column =>
    match cache[column]? with
    | some values => publish column values rows
    | none => rows) rows

theorem shows_publishAll {shown : String → Option ColumnValues} (h : Shows shown source rows)
    (cache : ByName ColumnValues) (columns : List String) :
    Shows (fun x => if x ∈ columns then (cache[x]?).or (shown x) else shown x) source
      (publishAll cache columns rows) := by
  induction columns generalizing rows shown with
  | nil => exact h.congr fun x => by simp
  | cons column columns ih =>
    cases hc : cache[column]? with
    | none =>
      have step : publishAll cache (column :: columns) rows = publishAll cache columns rows := by
        simp only [publishAll, List.foldl_cons, hc]
      rw [step]
      refine (ih h).congr fun x => ?_
      by_cases hx : x = column
      · simp [hx, hc]
      · simp [hx]
    | some values =>
      have step : publishAll cache (column :: columns) rows =
          publishAll cache columns (publish column values rows) := by
        simp only [publishAll, List.foldl_cons, hc]
      rw [step]
      refine (ih (h.publish column values)).congr fun x => ?_
      by_cases hx : x = column
      · simp [hx, hc]
      · simp [hx]

end DerivedColumns
