import DerivedColumns.Proofs.Sheet.Merge
import DerivedColumns.Proofs.Sheet.Pruned

set_option autoImplicit false

namespace DerivedColumns

open Relation

namespace Sheet

variable {s t : Sheet} {column : String} {p : Patch} {c : Calculation} {x : String}

/-- The column has another definition, or something else is shown of it. -/
def Differs (s t : Sheet) (x : String) : Prop :=
  t.calculations.get? x ≠ s.calculations.get? x ∨ t.virtualColumns[x]? ≠ s.virtualColumns[x]?

theorem not_differs_self (s : Sheet) (x : String) : ¬ s.Differs s x :=
  fun h => h.elim (fun h => h rfl) fun h => h rfl

theorem not_differs (definition : t.calculations.get? x = s.calculations.get? x)
    (cached : t.cache[x]? = s.cache[x]?) : ¬ s.Differs t x := by
  have active : t.isActive x = s.isActive x := by
    unfold isActive
    rw [definition]
  rintro (h | h)
  · exact h definition
  · rw [getElem?_virtualColumns, getElem?_virtualColumns, active, cached] at h
    exact h rfl

theorem mem_dependents_iff (s : Sheet) (column x : String) :
    x ∈ s.dependents column ↔ x ≠ column ∧ TransGen s.graph.Edge x column :=
  s.graph.mem_dependents column x

theorem eq_or_mem_dependents (path : ReflTransGen s.graph.Edge x column) :
    x = column ∨ x ∈ s.dependents column := by
  rw [mem_dependents_iff]
  rcases reflTransGen_iff_eq_or_transGen.1 path with e | path
  · exact .inl e.symm
  · by_cases hx : x = column
    · exact .inl hx
    · exact .inr ⟨hx, path⟩

/-- Seeds lead to the column itself, so that all that becomes stale depends on it. -/
theorem path_of_reaches_seeds (linked : s.Linked) (editable : s.Editable column p c)
    (h : (s.edited column p c).Reaches (s.seeds column p c) x) :
    ReflTransGen (s.edited column p c).graph.Edge x (target column p) := by
  have there := (linked.nodes column).2 (Keyed.mem_keys_of_get? editable.found)
  obtain ⟨seed, hseed, path⟩ := h
  rcases List.mem_append.1 hseed with own | relinked
  · split at own
    · rwa [List.mem_singleton.1 own] at path
    · cases own
  · refine path.tail ?_
    obtain ⟨-, -, other, -⟩ := (mem_relinked there seed).1 relinked
    rw [edge_edited editable fun x hx => (linked.nodes x).1 hx, if_neg fun h => other h.1]
    exact .inl ⟨relinked, rfl⟩

theorem differs_update (linked : s.Linked) (pruned : s.Pruned) (ok : (s.update column p).1 = .ok ())
    (h : s.Differs (s.update column p).2 x) :
    x = column ∨ x = target column p ∨ x ∈ (s.update column p).2.dependents (target column p) := by
  rcases update_cases s column p with ⟨e, he⟩ | ⟨c, editable, here, he⟩
  · rw [he] at ok
    cases ok
  · let t := s.edited column p c
    have drops := drops_uncacheCascades t (s.seeds column p c)
    have linked' : t.Linked := linked.edited editable here
    rw [he] at h ⊢
    dsimp only at h ⊢
    have same : ∀ y, (List.foldl uncacheCascade t (s.seeds column p c)).dependents y =
        t.dependents y := by
      intro y
      rw [drops.rest]
      rfl
    rw [same]
    by_contra apart
    rw [not_or, not_or] at apart
    obtain ⟨hc, ht, free⟩ := apart
    have away : ¬ ReflTransGen t.graph.Edge x (target column p) := fun path =>
      (eq_or_mem_dependents path).elim ht free
    refine not_differs ?_ ?_ h
    · rw [drops.calculations, get?_edited editable, if_neg ht, if_neg hc]
      cases hd : s.calculations.get? x with
      | none => rfl
      | some d =>
        by_cases still : target column p = column
        · rw [still, Option.map_some, Calculation.renamed_self]
        · -- what reads the column reads it under its new name afterwards
          have unread : column ∉ d.formula.reads := by
            intro reads
            have after : t.Reads x (target column p) := by
              rw [reads_edited editable, if_neg fun h => ht h.1]
              exact ⟨x, column, if_neg hc, if_pos rfl, d, hd, reads⟩
            have there := (mem_keys_edited editable (target column p)).2 (.inl rfl)
            exact away (.single (linked'.complete x _ after there (Ne.symm ht)))
          rw [Option.map_some, Calculation.renamed_of_not_mem _ unread]
    · rw [drops.same x fun stale => away (path_of_reaches_seeds linked editable stale),
        cache_edited (pruned.uncached editable), if_neg ht, if_neg hc]

theorem differs_remove (h : s.Differs (s.remove column).2 x) :
    x = column ∨ x ∈ s.dependents column := by
  rcases remove_cases s column with ⟨e, he⟩ | ⟨c, t, -, he, drops⟩
  · rw [he] at h
    exact absurd h (s.not_differs_self x)
  · rw [he] at h
    by_contra apart
    have away : ¬ s.Reaches [column] x := fun reached =>
      apart (eq_or_mem_dependents ((reaches_singleton s column x).1 reached))
    have hx : x ≠ column := fun e => apart (.inl e)
    refine not_differs (s := s) ?_ (drops.same x away) h
    rw [drops.calculations]
    exact (Keyed.get?_erase _ _ _).trans (if_neg hx)

theorem Overlay.not_mem {before after : ByName ColumnValues} {report : Report}
    (h : Overlay before after report) (hx : x ∉ report.affected) : after[x]? = before[x]? := by
  rw [h.affected] at hx
  rw [h.column, Std.ExtTreeMap.getElem?_eq_none hx, Option.none_or]

theorem differs_execute (linked : s.Linked) {targets : List String} {report : Report}
    (ok : (s.execute targets).1 = .ok report) (h : s.Differs (s.execute targets).2 x) :
    x ∈ report.affected := by
  by_contra unreported
  have rest := execute_rest s targets
  rcases h with h | h
  · rw [rest] at h
    exact h rfl
  · exact h ((linked.overlay_execute ok).not_mem unreported)

theorem differs_setSource (linked : s.Linked) (source : Dataset) {report : Report}
    (ok : (s.setSource source).refresh.1 = .ok report)
    (h : s.Differs (s.setSource source).refresh.2 x) : x ∈ report.affected := by
  let u := s.setSource source
  have linked' : u.Linked := linked.of_eq rfl rfl
  by_contra unreported
  have stays := (linked'.overlay_execute ok).not_mem unreported
  have rest : u.refresh.2 = { u with cache := u.refresh.2.cache } := execute_rest u _
  rcases h with h | h
  · rw [rest] at h
    exact h rfl
  · have hidden : ¬ s.isActive x = true := by
      intro active
      have uncached : u.isCached x = false := (isCached_eq_false_iff u x).2 Std.ExtTreeMap.getElem?_empty
      have due := (mem_closure_stale_iff u x).2 ⟨active, uncached⟩
      exact unreported ((linked'.affected_execute ok x).2 due)
    have dark : ∀ w : Sheet, w.isActive x = s.isActive x → w.virtualColumns[x]? = none := by
      intro w active
      rw [getElem?_virtualColumns, active, if_neg hidden]
    rw [dark s rfl] at h
    exact h (stays.trans (dark u rfl))

theorem unused_of_add {report : Report} (ok : (s.add column c).1 = .ok report) :
    column ∉ s.calculations.keys := by
  rcases add_cases s column c with ⟨e, he⟩ | ⟨free, -, -⟩
  · rw [he] at ok
    cases ok
  · exact (free_of_nameFault? free).1

theorem get?_add_of_ne (s : Sheet) (c : Calculation) (hx : x ≠ column) :
    (s.add column c).2.calculations.get? x = s.calculations.get? x := by
  rcases add_cases s column c with ⟨e, he⟩ | ⟨-, -, he⟩
  · rw [he]
  · have inserted : ∀ t : Sheet, t.calculations = s.calculations.insert column c →
        t.calculations.get? x = s.calculations.get? x := by
      intro t e
      rw [e, Keyed.get?_insert, if_neg hx]
    rw [he]
    split
    · rw [execute_rest]
      exact inserted _ rfl
    · exact inserted _ rfl

theorem differs_add (linked : s.Linked) (active : c.active = true) {report : Report}
    (ok : (s.add column c).1 = .ok report) (h : s.Differs (s.add column c).2 x) :
    x ∈ report.affected ∨ x = column := by
  by_contra apart
  rw [not_or] at apart
  rcases h with h | h
  · exact h (get?_add_of_ne s c apart.2)
  · exact h ((linked.overlay_add active ok).shown.not_mem apart.1)

/-- An inactive addition reports nothing, and drops what is shown of the columns that depend on it. -/
theorem differs_add_inactive_iff (linked : s.Linked) (inactive : c.active = false) {report : Report}
    (ok : (s.add column c).1 = .ok report) (hx : x ≠ column) :
    (s.Differs (s.add column c).2 x ↔ s.isActive x = true ∧ s.isCached x = true ∧
      TransGen (s.add column c).2.Depends x column) ∧
    (s.Differs (s.add column c).2 x → (s.add column c).2.virtualColumns[x]? = none) := by
  rcases add_cases s column c with ⟨e, he⟩ | ⟨free, here, he⟩
  · rw [he] at ok
    cases ok
  · have linked' : (s.added column c).Linked := linked.added (free_of_nameFault? free).1 c here
    have there := (mem_keys_added s column c column).2 (.inl rfl)
    obtain ⟨gone, same⟩ := getElem?_virtualColumns_added s column c
    have definition := get?_add_of_ne s c hx
    rw [inactive, if_neg Bool.false_ne_true] at he
    have reached_iff : (s.added column c).Reaches [column] x ↔
        TransGen (s.added column c).Depends x column :=
      (linked'.reaches_iff there x).trans (or_iff_right hx)
    rw [he] at definition ⊢
    have reached_of_differs (h : s.Differs ((s.added column c).uncacheCascade column) x) :
        (s.added column c).Reaches [column] x :=
      Classical.byContradiction fun away => h.elim (absurd definition) fun h => h (same x away)
    refine ⟨⟨fun h => ?_, ?_⟩, fun h => gone x (reached_of_differs h)⟩
    · have reached := reached_of_differs h
      have shown := h.resolve_left (absurd definition)
      rw [gone x reached, getElem?_virtualColumns] at shown
      by_cases active : s.isActive x = true
      · rw [if_pos active] at shown
        refine ⟨active, ?_, reached_iff.1 reached⟩
        cases cached : s.isCached x with
        | true => rfl
        | false => exact absurd ((isCached_eq_false_iff s x).1 cached).symm shown
      · rw [if_neg active] at shown
        exact absurd rfl shown
    · rintro ⟨active, cached, path⟩
      refine .inr fun h => ?_
      rw [gone x (reached_iff.2 path), getElem?_virtualColumns, if_pos active, eq_comm,
        ← isCached_eq_false_iff, cached] at h
      cases h

theorem report_add_inactive (inactive : c.active = false) {report : Report}
    (ok : (s.add column c).1 = .ok report) : report = .empty := by
  rcases add_cases s column c with ⟨e, he⟩ | ⟨-, -, he⟩
  · rw [he] at ok
    cases ok
  · rw [he, inactive, if_neg Bool.false_ne_true] at ok
    exact (Except.ok.inj ok).symm

end Sheet

end DerivedColumns
