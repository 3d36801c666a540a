import DerivedColumns.Proofs.Sheet.Solution
import DerivedColumns.Proofs.Table.Listed

set_option autoImplicit false

/-!
Whatever is cached solves its equation. An edit drops the columns that depend on what it changes, so a
column that stays sees the same as before, possibly under a new name.
-/

namespace DerivedColumns

open List (Forall₂)
open Relation

namespace Sheet

variable {s t : Sheet}

def Fresh (s : Sheet) : Prop := ∀ x ∈ s.cache, s.Solves s.cache x

/-- No field of the source has the name of a calculation. -/
def Apart (s : Sheet) : Prop :=
  ∀ row ∈ s.source.rows, ∀ x ∈ s.calculations.keys, row.fields.get? x = none

theorem Solves.mem_keys {cache : ByName ColumnValues} {x : String} (h : s.Solves cache x) :
    x ∈ s.calculations.keys := by
  obtain ⟨c, hc, -⟩ := h
  exact Keyed.mem_keys_of_get? hc

/-- A name shows a column of one sheet what its new name shows a column of the other. -/
structure SeesAlike (s t : Sheet) (old new x x' y : String) : Prop where
  cached : Formula.substitute old new y ≠ x' → t.isActive (Formula.substitute old new y) = true →
    Formula.substitute old new y ∈ t.cache
  visible : t.visible t.cache x' (Formula.substitute old new y) = s.visible s.cache x y
  fields : s.visible s.cache x y = none → ∀ row ∈ s.source.rows,
    row.fields.get? (Formula.substitute old new y) = row.fields.get? y

/-- A column that sees the same under new names keeps its cells. -/
theorem Solves.carry {old new x x' : String} {c d : Calculation} (hx : s.Solves s.cache x)
    (source : t.source = s.source) (library : t.library = s.library) (dateless : s.Dateless)
    (hc : s.calculations.get? x = some c) (hd : t.calculations.get? x' = some d)
    (formula : d.formula = c.formula.rename old new) (active : d.active = c.active)
    (cached : t.cache[x']? = s.cache[x]?)
    (alike : ∀ y ∈ c.formula.reads, SeesAlike s t old new x x' y) : t.Solves t.cache x' := by
  obtain ⟨c', hc', hactive, -, cell⟩ := hx
  obtain rfl : c' = c := Option.some.inj (hc'.symm.trans hc)
  refine ⟨d, hd, active.trans hactive, ?_, ?_⟩
  · intro y' hy' hne hact
    rw [formula] at hy'
    obtain ⟨y, hy, rfl⟩ := (Formula.mem_reads_rename old new y' c'.formula).1 hy'
    exact (alike y hy).cached hne hact
  · have shown := shows_inputs t t.cache x' (c'.formula.rename old new)
    rw [source] at shown
    rw [cached, cell, formula, library]
    refine congrArg some (cells_match (dateless x c' hc) ?_).symm
    refine (shows_inputs s s.cache x c'.formula).rowMatch shown fun y hy => ?_
    rw [if_pos hy, if_pos ((Formula.mem_reads_rename old new _ c'.formula).2 ⟨y, hy, rfl⟩)]
    exact ⟨(alike y hy).visible, (alike y hy).fields⟩

theorem Fresh.of_dropped (fresh : s.Fresh) (dateless : s.Dateless) (source : t.source = s.source)
    (library : t.library = s.library) (gone : String → Prop)
    (dropped : ∀ x, gone x → t.cache[x]? = none)
    (same : ∀ x, ¬ gone x → t.cache[x]? = s.cache[x]? ∧
      t.calculations.get? x = s.calculations.get? x)
    (closed : ∀ x y, t.Reads x y → y ≠ x → gone y → gone x) : t.Fresh := by
  intro x hx
  have kept : ¬ gone x := by
    intro hg
    obtain ⟨values, hv⟩ := (ByName.mem_iff t.cache x).1 hx
    rw [dropped x hg] at hv
    cases hv
  have hxs : x ∈ s.cache := (ByName.mem_congr (same x kept).1).1 hx
  obtain ⟨c, hc, -, reads, -⟩ := id (fresh x hxs)
  have hct : t.calculations.get? x = some c := (same x kept).2.trans hc
  have unchanged : c.formula = c.formula.rename "" "" := (Formula.rename_self "" c.formula).symm
  refine (fresh x hxs).carry source library dateless hc hct unchanged rfl (same x kept).1
    fun y hy => ?_
  by_cases hne : y = x
  · subst hne
    refine ⟨?_, ?_, ?_⟩ <;> rw [Formula.substitute_self]
    · intro h
      exact absurd rfl h
    · simp [visible]
    · exact fun _ _ _ => rfl
  · have hk := same y fun hg => kept (closed x y ⟨c, hct, hy⟩ hne hg)
    have hactive : t.isActive y = s.isActive y := by
      unfold isActive
      rw [hk.2]
    refine ⟨?_, ?_, ?_⟩ <;> rw [Formula.substitute_self]
    · intro _ hact
      exact (ByName.mem_congr hk.1).2 (reads y hy hne (hactive ▸ hact))
    · simp only [visible, hactive, hk.1]
    · exact fun _ _ _ => rfl

theorem Linked.reaches_of_reads (linked : s.Linked) {seeds : List String}
    (inside : ∀ seed ∈ seeds, seed ∈ s.calculations.keys) {x y : String} (hr : s.Reads x y)
    (hne : y ≠ x) (hy : s.Reaches seeds y) : s.Reaches seeds x := by
  obtain ⟨seed, hseed, path⟩ := hy
  have hkeys := linked.mem_keys_of_path path (inside seed hseed)
  exact ⟨seed, hseed, path.head (linked.complete x y hr hkeys hne)⟩

theorem Fresh.uncacheCascade (fresh : s.Fresh) (linked : s.Linked) (dateless : s.Dateless)
    {column : String} (hcolumn : column ∈ s.calculations.keys) : (s.uncacheCascade column).Fresh := by
  have drops := drops_uncacheCascade s column
  have inside : ∀ seed ∈ [column], seed ∈ s.calculations.keys := by simpa using hcolumn
  exact fresh.of_dropped dateless rfl rfl (s.Reaches [column]) drops.none
    (fun x hx => ⟨drops.same x hx, rfl⟩)
    fun x y hr => linked.reaches_of_reads inside ((drops.reads x y).1 hr)

theorem Fresh.added (fresh : s.Fresh) (dateless : s.Dateless) {column : String} {c : Calculation}
    (linked : (s.added column c).Linked) : ((s.added column c).uncacheCascade column).Fresh := by
  have drops := drops_uncacheCascade (s.added column c) column
  have inside : ∀ seed ∈ [column], seed ∈ (s.added column c).calculations.keys := by
    intro seed hseed
    exact (mem_keys_added s column c seed).2 (.inl (List.mem_singleton.1 hseed))
  have get : ∀ x, x ≠ column →
      (s.added column c).calculations.get? x = s.calculations.get? x := by
    intro x hx
    rw [get?_added, if_neg hx]
  exact fresh.of_dropped dateless rfl rfl ((s.added column c).Reaches [column]) drops.none
    (fun x hx => ⟨drops.same x hx, get x fun e => hx (.of_mem (List.mem_singleton.2 e))⟩)
    fun x y hr => linked.reaches_of_reads inside ((drops.reads x y).1 hr)

theorem Fresh.removed (fresh : s.Fresh) (linked : s.Linked) (dateless : s.Dateless) {column : String}
    (hcolumn : column ∈ s.calculations.keys)
    (drops : Drops (s.Reaches [column]) (s.removed column) t) : t.Fresh := by
  have inside : ∀ seed ∈ [column], seed ∈ s.calculations.keys := by simpa using hcolumn
  have get : ∀ x, x ≠ column → t.calculations.get? x = s.calculations.get? x := by
    intro x hx
    rw [drops.calculations]
    rw [get?_removed, if_neg hx]
  refine fresh.of_dropped dateless drops.source drops.library (s.Reaches [column]) drops.none
    (fun x hx => ⟨drops.same x hx, get x fun e => hx (.of_mem (List.mem_singleton.2 e))⟩)
    fun x y hr => ?_
  by_cases hx : x = column
  · exact fun _ _ => .of_mem (List.mem_singleton.2 hx)
  · obtain ⟨c, hc, hread⟩ := hr
    rw [get x hx] at hc
    exact linked.reaches_of_reads inside ⟨c, hc, hread⟩

theorem Fresh.extended (fresh : s.Fresh) (linked : s.Linked) {targets : List String}
    {cache : ByName ColumnValues} {report : Report} (executed : s.Executed targets cache report) :
    ∀ x ∈ s.cache, cache[x]? = s.cache[x]? := by
  intro x hx
  refine linked.induction (P := fun x => x ∈ s.cache → cache[x]? = s.cache[x]?) ?_ x
    (fresh x hx).mem_keys hx
  intro x _ ih hx
  by_cases hrun : x ∈ s.closure targets
  · obtain ⟨c, hc, -, closed, cell⟩ := fresh x hx
    obtain ⟨d, hd, computed, -⟩ := executed.computed x hrun
    obtain rfl : c = d := Option.some.inj (hc.symm.trans hd)
    have seen : s.inputs cache x c.formula = s.inputs s.cache x c.formula := by
      apply inputs_congr
      intro y hy hne hact
      exact ih y (mem_keys_of_isActive hact) ⟨c, hc, hy⟩ hne (closed y hy hne hact)
    rw [computed, cell, seen]
  · exact (executed.rest x hrun).1

theorem Fresh.executed (fresh : s.Fresh) (linked : s.Linked) {targets : List String}
    {cache : ByName ColumnValues} {report : Report} (executed : s.Executed targets cache report) :
    ({ s with cache } : Sheet).Fresh := by
  have extended := fresh.extended linked executed
  have stays : ∀ y ∈ s.cache, y ∈ cache := fun y hy => (ByName.mem_congr (extended y hy)).2 hy
  have computed : ∀ y ∈ s.closure targets, y ∈ cache := by
    intro y hy
    obtain ⟨c, -, cell, -⟩ := executed.computed y hy
    exact (ByName.mem_iff cache y).2 ⟨_, cell⟩
  intro x hx
  by_cases hrun : x ∈ s.closure targets
  · obtain ⟨c, hc, cell, -⟩ := executed.computed x hrun
    obtain ⟨d, hd, hactive⟩ := (isActive_iff s x).1 (isActive_of_mem_closure hrun)
    obtain rfl : d = c := Option.some.inj (hd.symm.trans hc)
    refine ⟨d, hc, hactive, fun y hy hne hact => ?_, cell⟩
    cases hcached : s.isCached y with
    | true => exact stays y hcached
    | false =>
      have edge := linked.complete x y ⟨d, hc, hy⟩ (mem_keys_of_isActive hact) hne
      exact computed y (closure_closed hrun edge hact hcached)
  · have hxs : x ∈ s.cache := (ByName.mem_congr (executed.rest x hrun).1).1 hx
    obtain ⟨c, hc, hactive, closed, cell⟩ := fresh x hxs
    have seen : s.inputs cache x c.formula = s.inputs s.cache x c.formula :=
      inputs_congr fun y hy hne hact => extended y (closed y hy hne hact)
    refine ⟨c, hc, hactive, fun y hy hne hact => stays y (closed y hy hne hact), ?_⟩
    change cache[x]? = some (cells (outcomes s.library c.formula (s.inputs cache x c.formula)))
    rw [seen, extended x hxs, cell]

section Edited

variable {column : String} {p : Patch} {c : Calculation}

theorem unchanged_of_not_mem_seeds (h : target column p ∉ s.seeds column p c) :
    p.formula = none ∧ p.active.getD c.active = c.active := by
  unfold seeds at h
  split at h
  · exact absurd (List.mem_append_left _ (List.mem_singleton_self _)) h
  · rename_i unchanged
    rw [Bool.or_eq_true, not_or] at unchanged
    refine ⟨Option.not_isSome_iff_eq_none.1 unchanged.1, ?_⟩
    cases ha : p.active with
    | none => rfl
    | some active => simpa [ha] using unchanged.2

theorem kept_edited (editable : s.Editable column p c)
    (uncached : target column p ≠ column → s.cache[target column p]? = none) {a : String}
    {d : Calculation} (hd : s.calculations.get? a = some d)
    (kept : Formula.substitute column (target column p) a ∉ s.seeds column p c) :
    (∃ d', (s.edited column p c).calculations.get?
        (Formula.substitute column (target column p) a) = some d' ∧
      d'.formula = d.formula.rename column (target column p) ∧ d'.active = d.active) ∧
    (s.edited column p c).cache[
      Formula.substitute column (target column p) a]? = s.cache[a]? := by
  rw [get?_edited editable, cache_edited uncached]
  have ha := Keyed.mem_keys_of_get? hd
  by_cases ht : Formula.substitute column (target column p) a = target column p
  · obtain rfl := editable.eq_column ha ht
    obtain rfl : c = d := Option.some.inj (editable.found.symm.trans hd)
    rw [ht] at kept
    obtain ⟨hformula, hactive⟩ := unchanged_of_not_mem_seeds kept
    rw [if_pos ht, if_pos ht]
    exact ⟨⟨_, rfl, by simp [patched, hformula, Calculation.renamed], hactive⟩, rfl⟩
  · have hac : a ≠ column := fun e => ht (if_pos e)
    have same : Formula.substitute column (target column p) a = a := if_neg hac
    rw [if_neg ht, if_neg ht, same, if_neg hac, if_neg hac, hd]
    exact ⟨⟨_, rfl, rfl, rfl⟩, rfl⟩

theorem Apart.get?_target (apart : s.Apart) (listed : s.source.Listed)
    (editable : s.Editable column p c) {a : String} (ha : a ∈ s.calculations.keys) {row : Row}
    (hrow : row ∈ s.source.rows) :
    row.fields.get? (Formula.substitute column (target column p) a) = row.fields.get? a := by
  rw [apart row hrow a ha]
  unfold Formula.substitute
  split
  · by_cases ht : target column p = column
    · rw [ht]
      exact apart row hrow column (Keyed.mem_keys_of_get? editable.found)
    · exact listed.get?_eq_none (editable.unlisted ht) hrow
  · exact apart row hrow a ha

theorem Editable.inj (editable : s.Editable column p c) {a b : String} (ha : a ∈ s.calculations.keys)
    (hb : b ∈ s.calculations.keys) (h : Formula.substitute column (target column p) a =
      Formula.substitute column (target column p) b) : a = b := by
  by_cases hac : a = column
  · subst hac
    have : Formula.substitute a (target a p) b = target a p := h.symm.trans (if_pos rfl)
    exact (editable.eq_column hb this).symm
  · by_cases hbc : b = column
    · subst hbc
      exact editable.eq_column ha (h.trans (if_pos rfl))
    · rwa [Formula.substitute, if_neg hac, Formula.substitute, if_neg hbc] at h

theorem isActive_eq_false {x : String} (h : x ∉ s.calculations.keys) : s.isActive x = false := by
  rw [Bool.eq_false_iff]
  exact fun hx => h (mem_keys_of_isActive hx)

theorem seeds_subset (editable : s.Editable column p c) (linked : s.Linked) {seed : String}
    (h : seed ∈ s.seeds column p c) :
    seed ∈ (s.edited column p c).calculations.keys := by
  rw [mem_keys_edited editable]
  have there := (linked.nodes column).2 (Keyed.mem_keys_of_get? editable.found)
  rcases List.mem_append.1 h with h | h
  · split at h
    · exact .inl (List.mem_singleton.1 h)
    · cases h
  · obtain ⟨-, hne, -, hg, -⟩ := (mem_relinked there seed).1 h
    exact .inr ⟨hne, (linked.nodes seed).1 hg⟩

/-- A name that is no calculation is seen alike by a column that is not relinked: it is still none, or
it is the new name of the column itself. -/
theorem seesAlike_of_not_mem (editable : s.Editable column p c) (linked : s.Linked)
    (calculations : t.calculations = (s.edited column p c).calculations) {x y : String}
    (hr : s.Reads x y) (hy : y ∉ s.calculations.keys)
    (kept : Formula.substitute column (target column p) x ∉ s.seeds column p c) :
    SeesAlike s t column (target column p) x (Formula.substitute column (target column p) x) y := by
  have old := Keyed.mem_keys_of_get? editable.found
  have hyc : y ≠ column := fun e => hy (e ▸ old)
  have same : Formula.substitute column (target column p) y = y := if_neg hyc
  have dark : s.visible s.cache x y = none := if_neg fun h => by
    rw [isActive_eq_false hy] at h
    exact absurd h.2 Bool.false_ne_true
  have own : y ≠ Formula.substitute column (target column p) x → t.isActive y = false := by
    intro hne
    apply isActive_eq_false
    rw [calculations, mem_keys_edited editable, not_or]
    refine ⟨?_, fun h => hy h.2⟩
    rintro rfl
    have hxc : x ≠ column := fun e => hne (if_pos e).symm
    have there := (linked.nodes column).2 old
    have hxt : x ≠ target column p := fun e => hy (e ▸ hr.mem_keys)
    refine kept (List.mem_append_right _ ?_)
    rw [Formula.substitute, if_neg hxc]
    exact (mem_relinked there x).2 ⟨hyc, hxc, hxt, (linked.nodes x).2 hr.mem_keys, hr⟩
  refine ⟨?_, ?_, ?_⟩ <;> rw [same]
  · intro hne hact
    rw [own hne] at hact
    cases hact
  · rw [dark]
    refine if_neg fun h => ?_
    rw [own h.1] at h
    exact absurd h.2 Bool.false_ne_true
  · exact fun _ _ _ => rfl

/-- A calculation is seen alike, under its new name, by a column that does not become stale. -/
theorem seesAlike_of_mem (editable : s.Editable column p c) (linked : s.Linked) (apart : s.Apart)
    (listed : s.source.Listed)
    (uncached : target column p ≠ column → s.cache[target column p]? = none)
    (linked' : (s.edited column p c).Linked)
    (drops : Drops ((s.edited column p c).Reaches (s.seeds column p c)) (s.edited column p c) t)
    {x y : String} (hr : s.Reads x y) (hy : y ∈ s.calculations.keys)
    (kept : ¬ (s.edited column p c).Reaches (s.seeds column p c)
      (Formula.substitute column (target column p) x))
    (closed : y ≠ x → s.isActive y = true → y ∈ s.cache) :
    SeesAlike s t column (target column p) x (Formula.substitute column (target column p) x) y := by
  have fields : ∀ row ∈ s.source.rows, row.fields.get?
      (Formula.substitute column (target column p) y) = row.fields.get? y :=
    fun row hrow => apart.get?_target listed editable hy hrow
  by_cases hne : y = x
  · subst hne
    exact ⟨fun h => absurd rfl h, by simp [visible], fun _ => fields⟩
  · have hne' : Formula.substitute column (target column p) y ≠
        Formula.substitute column (target column p) x :=
      fun e => hne (editable.inj hy hr.mem_keys e)
    obtain ⟨d, hd, hread⟩ := hr
    obtain ⟨⟨d', hd', formula, -⟩, -⟩ :=
      kept_edited editable uncached hd fun h => kept (.of_mem h)
    have reads : (s.edited column p c).Reads (Formula.substitute column (target column p) x)
        (Formula.substitute column (target column p) y) := by
      refine ⟨d', hd', ?_⟩
      rw [formula]
      exact (Formula.mem_reads_rename _ _ _ d.formula).2 ⟨y, hread, rfl⟩
    have keptRead : ¬ (s.edited column p c).Reaches (s.seeds column p c)
        (Formula.substitute column (target column p) y) := fun stale =>
      kept (linked'.reaches_of_reads (fun _ h => seeds_subset editable linked h) reads hne' stale)
    obtain ⟨e, he⟩ := (Keyed.mem_keys_iff s.calculations y).1 hy
    obtain ⟨⟨e', he', -, active⟩, cached⟩ :=
      kept_edited editable uncached he fun h => keptRead (.of_mem h)
    rw [← drops.same _ keptRead] at cached
    have sameActive : t.isActive (Formula.substitute column (target column p) y) =
        s.isActive y := by
      unfold isActive
      rw [drops.calculations, he', he]
      exact active
    refine ⟨?_, ?_, fun _ => fields⟩
    · intro _ hact
      exact (ByName.mem_congr cached).2 (closed hne (sameActive ▸ hact))
    · simp only [visible, sameActive, cached, ne_eq, hne, hne', not_false_eq_true, true_and]

theorem Fresh.edited (fresh : s.Fresh) (linked : s.Linked) (dateless : s.Dateless) (apart : s.Apart)
    (listed : s.source.Listed) (editable : s.Editable column p c)
    (linked' : (s.edited column p c).Linked)
    (drops : Drops ((s.edited column p c).Reaches (s.seeds column p c)) (s.edited column p c) t) :
    t.Fresh := by
  have uncached : target column p ≠ column → s.cache[target column p]? = none := by
    intro hne
    cases hcache : s.cache[target column p]? with
    | none => rfl
    | some values =>
      have solves := fresh (target column p) ((ByName.mem_iff _ _).2 ⟨values, hcache⟩)
      exact absurd solves.mem_keys (editable.unused hne)
  have source : t.source = s.source := drops.source.trans (source_edited s column p c).1
  have library : t.library = s.library := drops.library.trans (source_edited s column p c).2
  intro x' hx'
  obtain ⟨kept, hcached⟩ := drops.of_mem hx'
  obtain ⟨x, hx, rfl⟩ := exists_cached_of_edited uncached hcached
  have notSeed : Formula.substitute column (target column p) x ∉ s.seeds column p c :=
    fun h => kept (.of_mem h)
  obtain ⟨d, hd, -, closed, -⟩ := id (fresh x hx)
  obtain ⟨⟨d', hd', formula, active⟩, cached⟩ := kept_edited editable uncached hd notSeed
  rw [← drops.calculations] at hd'
  rw [← drops.same _ kept] at cached
  refine (fresh x hx).carry source library dateless hd hd' formula active cached fun y hy => ?_
  by_cases hyk : y ∈ s.calculations.keys
  · exact seesAlike_of_mem editable linked apart listed uncached linked' drops ⟨d, hd, hy⟩ hyk kept
      (closed y hy)
  · exact seesAlike_of_not_mem editable linked drops.calculations ⟨d, hd, hy⟩ hyk notSeed

end Edited

end Sheet

end DerivedColumns
