import DerivedColumns.Proofs.Sheet.Becomes

set_option autoImplicit false

namespace DerivedColumns

open Relation

namespace Sheet

/-- A formula may read its own column without an edge. -/
structure Linked (s : Sheet) : Prop where
  nodes : ∀ x, s.graph.contains x = true ↔ x ∈ s.calculations.keys
  sound : ∀ x y, s.graph.Edge x y → s.Reads x y
  complete : ∀ x y, s.Reads x y → y ∈ s.calculations.keys → y ≠ x → s.graph.Edge x y
  acyclic : ∀ x, ¬ TransGen s.graph.Edge x x

/-- A path stays among the old edges, or it meets the column at which edges are new. -/
theorem transGen_away {E E' : String → String → Prop} {t : String}
    (away : ∀ x y, x ≠ t → y ≠ t → E' x y → E x y) {x y : String} (path : TransGen E' x y) :
    TransGen E x y ∨ (ReflTransGen E' x t ∧ ReflTransGen E' t y) := by
  induction path with
  | @single y edge =>
    by_cases hx : x = t
    · exact .inr ⟨hx ▸ .refl, hx ▸ .single edge⟩
    · by_cases hy : y = t
      · exact .inr ⟨hy ▸ .single edge, hy ▸ .refl⟩
      · exact .inl (.single (away x y hx hy edge))
  | @tail y z path edge ih =>
    rcases ih with old | ⟨hx, hy⟩
    · by_cases hy : y = t
      · exact .inr ⟨hy ▸ path.to_reflTransGen, hy ▸ .single edge⟩
      · by_cases hz : z = t
        · exact .inr ⟨hz ▸ (path.tail edge).to_reflTransGen, hz ▸ .refl⟩
        · exact .inl (old.tail (away y z hy hz edge))
    · exact .inr ⟨hx, hy.tail edge⟩

theorem acyclic_away {E E' : String → String → Prop} {t : String}
    (away : ∀ x y, x ≠ t → y ≠ t → E' x y → E x y) (acyclic : ∀ x, ¬ TransGen E x x)
    (here : ¬ TransGen E' t t) (x : String) : ¬ TransGen E' x x := by
  intro cycle
  rcases transGen_away away cycle with old | ⟨hx, hy⟩
  · exact acyclic x old
  · rcases hx.cases_head with rfl | ⟨y, edge, path⟩
    · exact here cycle
    · exact here (.trans_right hy (.head' edge path))

namespace Linked

variable {s t : Sheet}

theorem ofSource (source : Dataset) (library : Library) : Linked (Sheet.ofSource source library) := by
  have keys : ∀ x, x ∉ (Sheet.ofSource source library).calculations.keys := fun x => List.not_mem_nil
  have nodes : ∀ x, (Sheet.ofSource source library).graph.contains x = false := fun x =>
    Std.ExtTreeMap.contains_empty
  have noEdge : ∀ x y, ¬ (Sheet.ofSource source library).graph.Edge x y := by
    intro x y edge
    exact absurd edge.contains (Bool.eq_false_iff.1 (nodes x))
  refine ⟨fun x => ?_, fun x y edge => absurd edge (noEdge x y), ?_, ?_⟩
  · rw [nodes]
    exact ⟨fun h => absurd h Bool.false_ne_true, fun h => absurd h (keys x)⟩
  · intro x y _ hy
    exact absurd hy (keys y)
  · intro x cycle
    obtain ⟨y, edge, -⟩ := TransGen.head'_iff.1 cycle
    exact noEdge x y edge

theorem mem_keys_of_path (h : Linked s) {x y : String} (path : ReflTransGen s.graph.Edge x y)
    (hy : y ∈ s.calculations.keys) : x ∈ s.calculations.keys := by
  rcases path.cases_head with rfl | ⟨z, edge, -⟩
  · exact hy
  · exact (h.nodes x).1 edge.contains

theorem of_eq (h : Linked s) (hg : t.graph = s.graph) (hc : t.calculations = s.calculations) :
    Linked t := by
  have reads := reads_congr hc
  refine ⟨?_, ?_, ?_, ?_⟩
  · rw [hg, hc]
    exact h.nodes
  · intro x y edge
    rw [hg] at edge
    exact (reads x y).2 (h.sound x y edge)
  · intro x y hr
    rw [hg, hc]
    exact h.complete x y ((reads x y).1 hr)
  · rw [hg]
    exact h.acyclic

theorem of_drops {gone : String → Prop} (h : Linked s) (drops : Drops gone s t) : Linked t := by
  rw [drops.rest]
  exact h.of_eq rfl rfl

theorem added (h : Linked s) {column : String} (unused : column ∉ s.calculations.keys)
    (c : Calculation) (here : ¬ TransGen (s.added column c).graph.Edge column column) :
    Linked (s.added column c) := by
  have keys := mem_keys_added s column c
  refine ⟨?_, ?_, ?_, ?_⟩
  · intro x
    rw [contains_added, keys, h.nodes]
  · intro x y edge
    rw [edge_added] at edge
    rw [reads_added]
    rcases edge with ⟨rfl, hx, -, hr⟩ | edge
    · rw [if_neg hx]
      exact hr
    · split at edge
      · rename_i hx
        rw [if_pos hx]
        exact edge
      · rename_i hx
        rw [if_neg hx]
        exact h.sound x y edge
  · intro x y hr hy hne
    rw [reads_added] at hr
    rw [edge_added]
    by_cases hx : x = column
    · rw [if_pos hx] at hr ⊢
      exact .inr hr
    · rw [if_neg hx] at hr ⊢
      rcases (keys y).1 hy with rfl | hy
      · exact .inl ⟨rfl, hx, (h.nodes x).2 hr.mem_keys, hr⟩
      · exact .inr (h.complete x y hr hy hne)
  · refine acyclic_away ?_ h.acyclic here
    intro x y hx hy edge
    rcases (edge_added s column c x y).1 edge with ⟨rfl, -⟩ | edge
    · exact absurd rfl hy
    · rwa [if_neg hx] at edge

theorem removed (h : Linked s) (column : String) : Linked (s.removed column) := by
  have keys := mem_keys_removed s column
  refine ⟨?_, ?_, ?_, ?_⟩
  · intro x
    rw [contains_removed, keys, h.nodes]
  · intro x y edge
    obtain ⟨-, hx, edge⟩ := (edge_removed s column x y).1 edge
    exact (reads_removed s column x y).2 ⟨hx, h.sound x y edge⟩
  · intro x y hr hy hne
    obtain ⟨hx, hr⟩ := (reads_removed s column x y).1 hr
    obtain ⟨hyc, hy⟩ := (keys y).1 hy
    exact (edge_removed s column x y).2 ⟨hyc, hx, h.complete x y hr hy hne⟩
  · intro x cycle
    exact h.acyclic x (TransGen.mono (fun a b edge => ((edge_removed s column a b).1 edge).2.2) _ _ cycle)

theorem edited (h : Linked s) {column : String} {p : Patch} {c : Calculation}
    (editable : s.Editable column p c)
    (here : ¬ TransGen (s.editedGraph column p).Edge (target column p) (target column p)) :
    Linked (s.edited column p c) := by
  have old : column ∈ s.calculations.keys := Keyed.mem_keys_of_get? editable.found
  have there := (h.nodes column).2 old
  have edges := edge_edited editable fun x hx => (h.nodes x).1 hx
  refine ⟨?_, ?_, ?_, ?_⟩
  · intro x
    rw [contains_edited there, mem_keys_edited editable, h.nodes]
  · intro x y edge
    rw [edges] at edge
    rw [reads_edited editable]
    split at edge
    · rename_i new
      rw [if_pos new]
      exact edge
    · rename_i kept
      rw [if_neg kept]
      rcases edge with ⟨hx, rfl⟩ | ⟨a, b, ha, hb, edge⟩
      · -- a reader of the new name keeps its name, as does what it reads
        obtain ⟨ht, hxc, -, -, hr⟩ := (mem_relinked there x).1 hx
        exact ⟨x, _, if_neg hxc, if_neg ht, hr⟩
      · exact ⟨a, b, ha, hb, h.sound a b edge⟩
  · intro x y hr hy hne
    rw [reads_edited editable] at hr
    rw [edges]
    split at hr
    · rename_i new
      rw [if_pos new]
      exact hr
    · rename_i kept
      rw [if_neg kept]
      obtain ⟨a, b, rfl, rfl, hr⟩ := hr
      by_cases hb : b ∈ s.calculations.keys
      · have hab : b ≠ a := fun e => hne (by rw [e])
        exact .inr ⟨a, b, rfl, rfl, h.complete a b hr hb hab⟩
      · -- a name that was not there comes to be there only as the new name
        have hbc : b ≠ column := fun e => hb (e ▸ old)
        have hbt : b = target column p := by
          rw [Formula.substitute, if_neg hbc, mem_keys_edited editable] at hy
          rcases hy with hy | hy
          · exact hy
          · exact absurd hy.2 hb
        have hac : a ≠ column := by
          rintro rfl
          rw [Formula.substitute, if_neg hbc, Formula.substitute, if_pos rfl] at hne
          exact hne hbt
        have ha : a ∈ s.calculations.keys := hr.mem_keys
        have hat : a ≠ target column p := fun e => hb (hbt ▸ e ▸ ha)
        refine .inl ⟨?_, ?_⟩
        · rw [Formula.substitute, if_neg hac, mem_relinked there]
          exact ⟨hbt ▸ hbc, hac, hat, (h.nodes a).2 ha, hbt ▸ hr⟩
        · rw [Formula.substitute, if_neg hbc, hbt]
  · refine acyclic_away ?_ h.acyclic here
    intro x y hx hy edge
    have kept : ∀ {n m}, Formula.substitute column (target column p) n = m → m ≠ target column p →
        n = m := by
      intro n m e hm
      unfold Formula.substitute at e
      split at e
      · exact absurd e.symm hm
      · exact e
    rw [edges, if_neg fun e => hx e.1] at edge
    rcases edge with ⟨-, e⟩ | ⟨a, b, ha, hb, edge⟩
    · exact absurd e hy
    · exact kept ha hx ▸ kept hb hy ▸ edge

theorem execute (h : Linked s) (targets : List String) : Linked (s.execute targets).2 := by
  rw [execute_rest]
  exact h.of_eq rfl rfl

theorem becomes (h : Linked s) (b : s.Becomes t) : Linked t := by
  induction b with
  | same => exact h
  | shown _ _ ih => exact ih.of_eq rfl rfl
  | dropped _ drops _ ih => exact ih.of_drops drops
  | computed _ targets ih => exact ih.execute targets
  | added _ free here ih =>
    exact (ih.added (free_of_nameFault? free).1 _ here).of_drops (drops_uncacheCascade _ _)
  | removed _ drops ih => exact (ih.removed _).of_drops drops
  | edited _ editable here ih => exact (ih.edited editable here).of_drops (drops_uncacheCascades _ _)

theorem perform (h : Linked s) (op : Operation) : Linked (s.perform op) :=
  h.becomes (Becomes.same.perform op)

theorem after (source : Dataset) (library : Library) (ops : List Operation) :
    Linked ((Sheet.ofSource source library).after ops) :=
  (ofSource source library).becomes (.after _ ops)

end Linked

end Sheet

end DerivedColumns
