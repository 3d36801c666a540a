import DerivedColumns.Proofs.Sheet.Formulas
import DerivedColumns.Proofs.Sheet.Freshness

set_option autoImplicit false

namespace DerivedColumns

namespace Sheet

variable {s t : Sheet} {column : String} {p : Patch} {c : Calculation}

structure Current (s : Sheet) : Prop where
  linked : s.Linked
  dateless : s.Dateless
  listed : s.source.Listed
  apart : s.Apart
  fresh : s.Fresh

/-- The operations after which the cache can be relied on. -/
def Admits (s : Sheet) : Operation → Prop
  | .add _ c => c.formula.callsDate s.library = false
  | .addText _ _ _ text => ∀ f, Formula.parse text = .ok f → f.callsDate s.library = false
  | .update _ p => ∀ f ∈ p.formula, f.callsDate s.library = false
  | .setSource source => source.Listed ∧
      ∀ row ∈ source.rows, ∀ x ∈ s.calculations.keys, row.fields.get? x = none
  | .drift _ => False
  | _ => True

theorem Dateless.added (h : s.Dateless) (hc : c.formula.callsDate s.library = false) :
    (s.added column c).Dateless :=
  EveryFormula.added (P := fun f => f.callsDate s.library = false) h hc

theorem Dateless.removed (h : s.Dateless) : (s.removed column).Dateless :=
  EveryFormula.removed (P := fun f => f.callsDate s.library = false) h

theorem Dateless.edited (h : s.Dateless) (editable : s.Editable column p c)
    (hp : ∀ f ∈ p.formula, f.callsDate s.library = false) : (s.edited column p c).Dateless := by
  unfold Dateless
  rw [(source_edited s column p c).2]
  refine EveryFormula.edited (P := fun f => f.callsDate s.library = false) h ?_ editable hp
  intro f dateless
  rwa [Formula.callsDate_rename]

theorem Dateless.of_drops {gone : String → Prop} (h : s.Dateless) (drops : Drops gone s t) :
    t.Dateless := by
  rw [drops.rest]
  exact h

namespace Current

theorem edit (h : s.Current) (source : t.source = s.source)
    (keys : ∀ x ∈ t.calculations.keys, x ∈ s.calculations.keys ∨ x ∉ s.source.columns)
    (linked : t.Linked) (dateless : t.Dateless) (fresh : t.Fresh) : t.Current := by
  refine ⟨linked, dateless, source ▸ h.listed, ?_, fresh⟩
  intro row hrow x hx
  rw [source] at hrow
  rcases keys x hx with hx | hx
  · exact h.apart row hrow x hx
  · exact h.listed.get?_eq_none hx hrow

theorem execute (h : s.Current) (targets : List String) : (s.execute targets).2.Current := by
  obtain ⟨cache, report, he, executed⟩ := exists_executed h.linked h.dateless targets
  rw [he]
  exact h.edit rfl (fun _ hx => .inl hx) (h.linked.of_eq rfl rfl) h.dateless
    (h.fresh.executed h.linked executed)

theorem add (h : s.Current) (hc : c.formula.callsDate s.library = false) :
    (s.add column c).2.Current := by
  rcases add_cases s column c with ⟨e, he⟩ | ⟨free, here, he⟩
  · rw [he]
    exact h
  · have drops := drops_uncacheCascade (s.added column c) column
    have unused := free_of_nameFault? free
    have linked := h.linked.added unused.1 c here
    have added : ((s.added column c).uncacheCascade column).Current := by
      refine h.edit rfl ?_ (linked.of_drops drops) ((h.dateless.added hc).of_drops drops)
        (h.fresh.added h.dateless linked)
      intro x hx
      rcases (mem_keys_added s column c x).1 hx with rfl | hx
      · exact .inr unused.2
      · exact .inl hx
    rw [he]
    split
    · exact added.execute _
    · exact added

theorem update (h : s.Current) (hp : ∀ f ∈ p.formula, f.callsDate s.library = false) :
    (s.update column p).2.Current := by
  rcases update_cases s column p with ⟨e, he⟩ | ⟨c, editable, here, he⟩
  · rw [he]
    exact h
  · have drops := drops_uncacheCascades (s.edited column p c) (s.seeds column p c)
    have linked := h.linked.edited editable here
    rw [he]
    refine h.edit (drops.source.trans (source_edited s column p c).1) ?_ (linked.of_drops drops)
      ((h.dateless.edited editable hp).of_drops drops)
      (h.fresh.edited h.linked h.dateless h.apart h.listed editable linked drops)
    intro x hx
    rw [drops.calculations] at hx
    rcases (mem_keys_edited editable x).1 hx with rfl | ⟨-, hx⟩
    · by_cases ht : target column p = column
      · rw [ht]
        exact .inl (Keyed.mem_keys_of_get? editable.found)
      · exact .inr (editable.unlisted ht)
    · exact .inl hx

theorem remove (h : s.Current) : (s.remove column).2.Current := by
  rcases remove_cases s column with ⟨e, he⟩ | ⟨c, t, hc, he, drops⟩
  · rw [he]
    exact h
  · have hcolumn := Keyed.mem_keys_of_get? hc
    rw [he]
    refine h.edit drops.source ?_ ((h.linked.removed column).of_drops drops)
      (h.dateless.removed.of_drops drops) (h.fresh.removed h.linked h.dateless hcolumn drops)
    intro x hx
    rw [drops.calculations] at hx
    exact .inl ((mem_keys_removed s column x).1 hx).2

theorem invalidate (h : s.Current) : (s.invalidate column).2.Current := by
  unfold Sheet.invalidate
  split
  · rename_i there
    have drops := drops_uncacheCascade s column
    exact h.edit rfl (fun _ hx => .inl hx) (h.linked.of_drops drops) (h.dateless.of_drops drops)
      (h.fresh.uncacheCascade h.linked h.dateless ((Keyed.contains_iff _ _).1 there))
  · exact h

theorem setSource (h : s.Current) {source : Dataset} (listed : source.Listed)
    (apart : ∀ row ∈ source.rows, ∀ x ∈ s.calculations.keys, row.fields.get? x = none) :
    (s.setSource source).Current := by
  refine ⟨h.linked.of_eq rfl rfl, h.dateless, listed, apart, ?_⟩
  intro x hx
  exact absurd hx Std.ExtTreeMap.not_mem_empty

theorem perform (h : s.Current) {op : Operation} (admitted : s.Admits op) :
    (s.perform op).Current := by
  cases op with
  | add column c => exact h.add admitted
  | addText id name column text =>
    rcases addText_cases s id name column text with he | ⟨formula, parsed, he⟩
    · exact (congrArg Current he).mpr h
    · exact (congrArg Current he).mpr (h.add (admitted formula parsed))
  | update column p => exact h.update admitted
  | remove column => exact h.remove
  | invalidate column => exact h.invalidate
  | executeAll => exact h.execute _
  | refresh => exact h.execute _
  | setSource source => exact h.setSource admitted.1 admitted.2
  | drift source => exact admitted.elim

theorem ofSource {source : Dataset} (listed : source.Listed) (library : Library) :
    (Sheet.ofSource source library).Current := by
  refine ⟨Linked.ofSource source library, ?_, listed, ?_, ?_⟩
  · intro x c hc
    cases hc
  · intro row _ x hx
    exact absurd hx List.not_mem_nil
  · intro x hx
    exact absurd hx Std.ExtTreeMap.not_mem_empty

theorem after {source : Dataset} (listed : source.Listed) (library : Library) {ops : List Operation}
    (hops : (Sheet.ofSource source library).Allows Admits ops) :
    ((Sheet.ofSource source library).after ops).Current :=
  Allows.after (P := Current) (fun _ _ admitted h => h.perform admitted) (ofSource listed library) hops

end Current

theorem getElem?_virtualColumns (s : Sheet) (x : String) :
    s.virtualColumns[x]? = if s.isActive x = true then s.cache[x]? else none := by
  unfold virtualColumns
  rw [Std.ExtTreeMap.getElem?_filter']
  cases s.isActive x <;> cases s.cache[x]? <;> rfl

theorem Current.cache_eq (h : s.Current) {report : Report} (solution : s.Solution report) :
    ∀ x ∈ s.cache, report.results[x]? = s.cache[x]? := by
  intro x hx
  obtain ⟨c, hc, hactive, -⟩ := h.fresh x hx
  refine solves_unique h.linked h.dateless (Matches.refl s) h.fresh (solution.solves h.dateless) x hx ?_
  exact (solution.mem_results x).2 ((isActive_iff s x).2 ⟨c, hc, hactive⟩)

theorem Current.mem_refresh (h : s.Current) {x : String} (hx : s.isActive x = true) :
    x ∈ s.refresh.2.cache := by
  let stale := s.activeColumns.filter fun column => !s.isCached column
  obtain ⟨cache, report, he, executed⟩ := exists_executed h.linked h.dateless stale
  have result : s.refresh.2.cache = cache := by
    unfold refresh
    rw [he]
  rw [result]
  cases hcached : s.isCached x with
  | true =>
    exact (ByName.mem_congr (h.fresh.extended h.linked executed x hcached)).2 hcached
  | false =>
    have target : x ∈ stale := by
      refine List.mem_filter.2 ⟨(mem_activeColumns s x).2 hx, ?_⟩
      rw [hcached]
      rfl
    obtain ⟨c, -, cell, -⟩ := executed.computed x (mem_closure_of_mem target hx)
    exact (ByName.mem_iff cache x).2 ⟨_, cell⟩

theorem Current.refresh_eq (h : s.Current) :
    s.refresh.2.virtualColumns = s.executeAll.2.virtualColumns := by
  have refreshed := h.execute (s.activeColumns.filter fun column => !s.isCached column)
  obtain ⟨cache, report, he, solution, same⟩ := exists_solution h.linked h.dateless
  have rest : s.refresh.2 = { s with cache := s.refresh.2.cache } := execute_rest s _
  have active : ∀ x, s.refresh.2.isActive x = s.isActive x := by
    intro x
    rw [rest]
    rfl
  have hst : Matches s.refresh.2 s := by
    rw [rest]
    exact ⟨rfl, rfl, fun _ => rfl⟩
  apply Std.ExtTreeMap.ext_getElem?
  intro x
  rw [getElem?_virtualColumns, getElem?_virtualColumns, active, he]
  change (if s.isActive x = true then s.refresh.2.cache[x]? else none) =
    if s.isActive x = true then cache[x]? else none
  split
  · rename_i hx
    rw [same x hx]
    exact (solves_unique refreshed.linked refreshed.dateless hst refreshed.fresh (solution.solves h.dateless) x
      (h.mem_refresh hx) ((solution.mem_results x).2 hx)).symm
  · rfl

/-- Cached columns are never stale: after any session, failing operations included, each is the column
that computing everything would give, and so computing the stale columns alone gives the same. -/
theorem cache_never_stale (source : Dataset) (library : Library) (ops : List Operation)
    (listed : source.Listed) (admitted : (ofSource source library).Allows Admits ops) :
    let s := (ofSource source library).after ops
    ∃ report, s.executeAll.1 = .ok report ∧
      (∀ (x : String) values, s.cache[x]? = some values → report.results[x]? = some values) ∧
      s.refresh.2.virtualColumns = s.executeAll.2.virtualColumns := by
  intro s
  have current : s.Current := Current.after listed library admitted
  obtain ⟨cache, report, he, solution, -⟩ := exists_solution current.linked current.dateless
  refine ⟨report, by rw [he], ?_, current.refresh_eq⟩
  intro x values hx
  rw [current.cache_eq solution x ((ByName.mem_iff s.cache x).2 ⟨values, hx⟩), hx]

/-- The column a reads b before b is there, and d after the renaming. -/
def relinkedSession : List Operation :=
  [.add "a" ⟨0, "a", .binary .eq (.atom (.field "b")) (.atom (.field "v")), true⟩,
    .add "b" ⟨1, "b", .atom (.field "v"), true⟩, .update "b" ⟨none, some "d", none, none⟩,
    .add "c" ⟨2, "c", .atom (.field "d"), false⟩]

set_option maxRecDepth 10000 in
theorem cache_never_stale_relinked :
    let s := (ofSource twoRows .standard).after relinkedSession
    s.cache.keys = ["a", "d"] ∧ ∃ report, s.executeAll.1 = .ok report ∧
      (∀ (x : String) values, s.cache[x]? = some values → report.results[x]? = some values) ∧
      s.refresh.2.virtualColumns = s.executeAll.2.virtualColumns := by
  have cached : ((ofSource twoRows .standard).after relinkedSession).cache.keys = ["a", "d"] := by
    decide +kernel
  have admitted : (ofSource twoRows .standard).Allows Admits relinkedSession :=
    ⟨rfl, rfl, fun _ hf => (by cases hf), rfl, trivial⟩
  exact ⟨cached, cache_never_stale twoRows .standard relinkedSession (Dataset.listed_ofRows _) admitted⟩

end Sheet

end DerivedColumns
