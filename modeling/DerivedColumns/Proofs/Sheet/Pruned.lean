import DerivedColumns.Proofs.Sheet.Freshness
import DerivedColumns.Proofs.Sheet.Recompute

set_option autoImplicit false

namespace DerivedColumns

namespace Sheet

variable {s t : Sheet} {column : String} {p : Patch} {c : Calculation}

def Pruned (s : Sheet) : Prop := ∀ x ∈ s.cache, s.isActive x = true

theorem isActive_added (s : Sheet) (c : Calculation) {x : String} (hx : x ≠ column) :
    (s.added column c).isActive x = s.isActive x := by
  unfold isActive
  rw [get?_added, if_neg hx]

theorem isActive_added_self (s : Sheet) (column : String) (c : Calculation) :
    (s.added column c).isActive column = c.active := by
  unfold isActive
  rw [get?_added, if_pos rfl]
  rfl

theorem isActive_removed (s : Sheet) {x : String} (hx : x ≠ column) :
    (s.removed column).isActive x = s.isActive x := by
  unfold isActive
  rw [get?_removed, if_neg hx]

namespace Pruned

theorem mem_keys (h : s.Pruned) {x : String} (hx : x ∈ s.cache) : x ∈ s.calculations.keys :=
  mem_keys_of_isActive (h x hx)

theorem getElem?_eq_none (h : s.Pruned) {x : String} (hx : x ∉ s.calculations.keys) :
    s.cache[x]? = none :=
  Std.ExtTreeMap.getElem?_eq_none fun cached => hx (h.mem_keys cached)

theorem of_drops {gone : String → Prop} (h : s.Pruned) (drops : Drops gone s t) : t.Pruned := by
  intro x hx
  unfold isActive
  rw [drops.calculations]
  exact h x (drops.of_mem hx).2

theorem execute (h : s.Pruned) (linked : s.Linked) (targets : List String) :
    (s.execute targets).2.Pruned := by
  obtain ⟨report, cache, result, -, members⟩ := linked.exists_execute targets
  rw [result]
  intro x hx
  change s.isActive x = true
  rcases (members x).1 hx with run | cached
  · exact isActive_of_mem_closure run
  · exact h x cached

theorem added (h : s.Pruned) (unused : column ∉ s.calculations.keys) (c : Calculation) :
    (s.added column c).Pruned := by
  intro x hx
  have hne : x ≠ column := fun e => unused (e ▸ h.mem_keys hx)
  rw [isActive_added s c hne]
  exact h x hx

theorem removed (h : s.Pruned) (drops : Drops (s.Reaches [column]) (s.removed column) t) :
    t.Pruned := by
  intro x hx
  obtain ⟨kept, cached⟩ := drops.of_mem hx
  have hne : x ≠ column := fun e => kept (.of_mem (List.mem_singleton.2 e))
  unfold isActive
  rw [drops.calculations]
  exact (isActive_removed s hne).trans (h x cached)

theorem uncached (h : s.Pruned) (editable : s.Editable column p c) :
    target column p ≠ column → s.cache[target column p]? = none :=
  fun hne => h.getElem?_eq_none (editable.unused hne)

theorem edited (h : s.Pruned) (editable : s.Editable column p c)
    (drops : Drops ((s.edited column p c).Reaches (s.seeds column p c)) (s.edited column p c) t) :
    t.Pruned := by
  intro x' hx'
  obtain ⟨kept, hcached⟩ := drops.of_mem hx'
  obtain ⟨x, hx, rfl⟩ := exists_cached_of_edited (h.uncached editable) hcached
  obtain ⟨d, hd, active⟩ := (isActive_iff s x).1 (h x hx)
  obtain ⟨⟨d', hd', -, same⟩, -⟩ :=
    kept_edited editable (h.uncached editable) hd fun stale => kept (.of_mem stale)
  rw [isActive_iff, drops.calculations]
  exact ⟨d', hd', same.trans active⟩

theorem ofSource (source : Dataset) (library : Library) : (Sheet.ofSource source library).Pruned :=
  fun _ hx => absurd hx Std.ExtTreeMap.not_mem_empty

theorem becomes (h : s.Pruned) (linked : s.Linked) (b : s.Becomes t) : t.Pruned := by
  induction b with
  | same => exact h
  | shown _ _ ih => exact ih
  | dropped _ drops _ ih => exact ih.of_drops drops
  | computed before targets ih => exact ih.execute (linked.becomes before) targets
  | added _ free _ ih =>
    exact (ih.added (free_of_nameFault? free).1 _).of_drops (drops_uncacheCascade _ _)
  | removed _ drops ih => exact ih.removed drops
  | edited _ editable _ ih => exact ih.edited editable (drops_uncacheCascades _ _)

theorem after (source : Dataset) (library : Library) (ops : List Operation) :
    ((Sheet.ofSource source library).after ops).Pruned :=
  (ofSource source library).becomes (.ofSource source library) (.after _ ops)

end Pruned

end Sheet

end DerivedColumns
