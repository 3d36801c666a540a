import DerivedColumns.Proofs.Sheet.Pruned

set_option autoImplicit false

/-!
A cached column is active, and so are cached all active columns that it reads by the graph. This is what
lets a run leave out the columns that are cached. Every edit drops a column together with all that depends
on it, so what is left reads nothing that has gone.
-/

namespace DerivedColumns

open Relation

namespace Sheet

variable {s t u : Sheet} {column : String} {p : Patch} {c : Calculation}

def Grounded (s : Sheet) : Prop :=
  ∀ x ∈ s.cache, ∀ y, s.graph.Edge x y → s.isActive y = true → y ∈ s.cache

/-- A column that is not itself made stale by an edit reads, under new names, what it has read before. -/
theorem Editable.exists_edge (editable : s.Editable column p c) (linked : s.Linked) {x y' : String}
    (hx : x ∈ s.calculations.keys)
    (kept : Formula.substitute column (target column p) x ∉ s.seeds column p c)
    (edge : (s.edited column p c).graph.Edge (Formula.substitute column (target column p) x) y') :
    ∃ y, Formula.substitute column (target column p) y = y' ∧ s.graph.Edge x y := by
  rw [edge_edited editable fun a ha => (linked.nodes a).1 ha] at edge
  split at edge
  · rename_i replaced
    refine absurd ?_ kept
    rw [replaced.1, seeds, replaced.2]
    exact List.mem_append_left _ (List.mem_singleton_self _)
  · rcases edge with ⟨relinked, -⟩ | ⟨a, y, ha, hy, edge⟩
    · exact absurd (List.mem_append_right _ relinked) kept
    · obtain rfl := editable.inj ((linked.nodes a).1 edge.contains) hx ha
      exact ⟨y, hy, edge⟩

/-- Whatever such a column reads is active now only if it was active before. Had the column read the new
name of the edited one already, from a time when there was nothing of that name, it would have been
relinked. -/
theorem Editable.isActive_of_edge (editable : s.Editable column p c) (linked : s.Linked)
    (linked' : (s.edited column p c).Linked)
    (uncached : target column p ≠ column → s.cache[target column p]? = none) {x y : String}
    (before : s.graph.Edge x y)
    (edge : (s.edited column p c).graph.Edge (Formula.substitute column (target column p) x)
      (Formula.substitute column (target column p) y))
    (kept : Formula.substitute column (target column p) x ∉ s.seeds column p c)
    (keptRead : Formula.substitute column (target column p) y ∉ s.seeds column p c)
    (active : (s.edited column p c).isActive (Formula.substitute column (target column p) y) = true) :
    s.isActive y = true := by
  by_cases hy : y ∈ s.calculations.keys
  · obtain ⟨d, hd⟩ := (Keyed.mem_keys_iff _ y).1 hy
    obtain ⟨⟨d', hd', -, same⟩, -⟩ := kept_edited editable uncached hd keptRead
    rw [isActive, hd', Option.any_some, same] at active
    rwa [isActive, hd]
  · have here : column ∈ s.calculations.keys := Keyed.mem_keys_of_get? editable.found
    have there := (linked.nodes column).2 here
    have hyc : y ≠ column := fun e => hy (e ▸ here)
    have same : Formula.substitute column (target column p) y = y := if_neg hyc
    rw [same] at active edge
    have hyt : y = target column p :=
      ((mem_keys_edited editable y).1 (mem_keys_of_isActive active)).resolve_right fun old => hy old.2
    subst hyt
    have hxc : x ≠ column := by
      rintro rfl
      rw [Formula.substitute, if_pos rfl] at edge
      exact linked'.acyclic _ (.single edge)
    have hxt : x ≠ target column p := fun e => hy (e ▸ (linked.nodes x).1 before.contains)
    refine absurd (List.mem_append_right _ ?_) kept
    rw [Formula.substitute, if_neg hxc]
    exact (mem_relinked there x).2 ⟨hyc, hxc, hxt, before.contains, linked.sound x _ before⟩

namespace Grounded

theorem ofSource (source : Dataset) (library : Library) : (Sheet.ofSource source library).Grounded :=
  fun _ hx => absurd hx Std.ExtTreeMap.not_mem_empty

/-- An edit, from the sheet `s` to the sheet `u`, gives the columns other names, and then some are dropped
with all that depends on them. A column that stays may only read what it has read before. -/
theorem carry (h : s.Grounded) (name : String → String) {gone : String → Prop} (drops : Drops gone u t)
    (upward : ∀ x y, u.graph.Edge x y → gone y → gone x)
    (origin : ∀ x' ∈ u.cache, ∃ x ∈ s.cache, name x = x')
    (stays : ∀ x ∈ s.cache, ¬ gone (name x) → name x ∈ u.cache)
    (old : ∀ x ∈ s.cache, ¬ gone (name x) → ∀ y', u.graph.Edge (name x) y' → ¬ gone y' →
      u.isActive y' = true → ∃ y, name y = y' ∧ s.graph.Edge x y ∧ s.isActive y = true) :
    t.Grounded := by
  intro x' hx' y' edge active
  have edge : u.graph.Edge x' y' := by
    rwa [drops.rest] at edge
  have active : u.isActive y' = true := by
    rwa [drops.rest] at active
  obtain ⟨kept, cached⟩ := drops.of_mem hx'
  obtain ⟨x, hx, rfl⟩ := origin x' cached
  have keptRead : ¬ gone y' := fun hy => kept (upward _ _ edge hy)
  obtain ⟨y, rfl, edge, active⟩ := old x hx kept y' edge keptRead active
  exact (ByName.mem_congr (drops.same _ keptRead)).2 (stays y (h x hx y edge active) keptRead)

theorem dropped (h : s.Grounded) {gone : String → Prop} (drops : Drops gone s t)
    (upward : ∀ x y, s.graph.Edge x y → gone y → gone x) : t.Grounded :=
  h.carry id drops upward (fun x hx => ⟨x, hx, rfl⟩) (fun _ hx _ => hx)
    fun _ _ _ y edge _ active => ⟨y, rfl, edge, active⟩

theorem added (h : s.Grounded) (column : String) (c : Calculation) :
    ((s.added column c).uncacheCascade column).Grounded := by
  refine h.carry id (drops_uncacheCascade (s.added column c) column) (fun _ _ edge => .head edge)
    (fun x hx => ⟨x, hx, rfl⟩) (fun _ hx _ => hx) ?_
  intro x _ kept y edge keptRead active
  have hx : x ≠ column := fun e => kept (.of_mem (List.mem_singleton.2 e))
  have hy : y ≠ column := fun e => keptRead (.of_mem (List.mem_singleton.2 e))
  rw [isActive_added s c hy] at active
  rw [id, edge_added, if_neg hx] at edge
  exact ⟨y, rfl, edge.resolve_left fun new => hy new.1, active⟩

theorem removed (h : s.Grounded) (drops : Drops (s.Reaches [column]) (s.removed column) t) :
    t.Grounded := by
  have before : ∀ {x y}, (s.removed column).graph.Edge x y → s.graph.Edge x y :=
    fun edge => ((edge_removed s column _ _).1 edge).2.2
  refine h.carry id drops (fun _ _ edge => .head (before edge)) (fun x hx => ⟨x, hx, rfl⟩)
    (fun _ hx _ => hx) ?_
  intro x _ _ y edge keptRead active
  have hy : y ≠ column := fun e => keptRead (.of_mem (List.mem_singleton.2 e))
  rw [isActive_removed s hy] at active
  exact ⟨y, rfl, before edge, active⟩

theorem edited (h : s.Grounded) (pruned : s.Pruned) (linked : s.Linked)
    (editable : s.Editable column p c) (linked' : (s.edited column p c).Linked)
    (drops : Drops ((s.edited column p c).Reaches (s.seeds column p c)) (s.edited column p c) t) :
    t.Grounded := by
  have uncached := pruned.uncached editable
  refine h.carry (Formula.substitute column (target column p)) drops (fun _ _ edge => .head edge)
    (fun x' hx' => exists_cached_of_edited uncached hx') ?_ ?_
  · intro x hx kept
    obtain ⟨d, hd⟩ := (Keyed.mem_keys_iff _ x).1 (pruned.mem_keys hx)
    obtain ⟨-, same⟩ := kept_edited editable uncached hd fun seed => kept (.of_mem seed)
    exact (ByName.mem_congr same).2 hx
  · intro x hx kept y' edge keptRead active
    obtain ⟨y, rfl, before⟩ :=
      editable.exists_edge linked (pruned.mem_keys hx) (fun seed => kept (.of_mem seed)) edge
    exact ⟨y, rfl, before, editable.isActive_of_edge linked linked' uncached before edge
      (fun seed => kept (.of_mem seed)) (fun seed => keptRead (.of_mem seed)) active⟩

theorem execute (h : s.Grounded) (linked : s.Linked) (targets : List String) :
    (s.execute targets).2.Grounded := by
  obtain ⟨report, cache, result, -, members⟩ := linked.exists_execute targets
  rw [result]
  intro x hx y edge active
  refine (members y).2 ?_
  rcases (members x).1 hx with run | cached
  · cases hy : s.isCached y with
    | true => exact .inr (Std.ExtTreeMap.contains_iff_mem.1 hy)
    | false => exact .inl (closure_closed run edge active hy)
  · exact .inr (h x cached y edge active)

theorem becomes (h : s.Grounded) (pruned : s.Pruned) (linked : s.Linked) (b : s.Becomes t) :
    t.Grounded := by
  induction b with
  | same => exact h
  | shown _ _ ih => exact ih
  | dropped _ drops upward ih => exact ih.dropped drops upward
  | computed before targets ih => exact ih.execute (linked.becomes before) targets
  | added _ _ _ ih => exact ih.added _ _
  | removed _ drops ih => exact ih.removed drops
  | edited before editable here ih =>
    have still := linked.becomes before
    exact ih.edited (pruned.becomes linked before) still editable (still.edited editable here)
      (drops_uncacheCascades _ _)

end Grounded

/-- In every session, also over a source that changes by itself: what is cached are active columns, and
with a column all active columns are cached that it reads by the graph. -/
theorem cache_closed_under_reading (source : Dataset) (library : Library) (ops : List Operation) :
    let s := (ofSource source library).after ops
    ∀ x ∈ s.cache, s.isActive x = true ∧
      ∀ y, s.graph.Edge x y → s.isActive y = true → y ∈ s.cache := by
  intro s
  have pruned : s.Pruned := Pruned.after source library ops
  have grounded : s.Grounded := (Grounded.ofSource source library).becomes (.ofSource source library)
    (.ofSource source library) (.after _ ops)
  exact fun x hx => ⟨pruned x hx, grounded x hx⟩

/-- The column a reads b before b is there. Then b gets another name and is made inactive, the source
changes unnoticed, b is made active again, and e needs all of them. -/
def revived : List Operation :=
  [.addText 0 "a" "a" "b == v", .addText 1 "b" "b" "v", .update "b" ⟨none, some "d", none, some false⟩,
    .drift .empty, .update "d" ⟨none, none, none, some true⟩, .addText 2 "e" "e" "a"]

set_option maxRecDepth 10000 in
theorem cache_closed_under_reading_revived :
    let s := (ofSource twoRows .standard).after revived
    s.cache.keys = ["a", "d", "e"] ∧ "a" ∈ s.cache ∧ s.graph.Edge "a" "d" ∧ s.isActive "d" = true ∧
      s.isActive "a" = true ∧ "d" ∈ s.cache := by
  intro s
  have cached : "a" ∈ s.cache := by decide +kernel
  have edge : s.graph.Edge "a" "d" := (by decide +kernel : "d" ∈ s.graph.readsOf "a")
  have active : s.isActive "d" = true := by decide +kernel
  obtain ⟨own, read⟩ := cache_closed_under_reading twoRows .standard revived "a" cached
  exact ⟨by decide +kernel, cached, edge, active, own, read "d" edge active⟩

end Sheet

end DerivedColumns
