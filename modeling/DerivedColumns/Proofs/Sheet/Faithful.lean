import DerivedColumns.Proofs.Sheet.Linked

set_option autoImplicit false

/-!
The graph and the formulas say the same of all calculations, as long as no formula reads its own
column. A column comes to read itself when it takes a name that its formula reads, once the calculation
of that name has been removed: the edge to it is gone, and the renamed column is not linked to itself.
-/

namespace DerivedColumns

open Relation

namespace Sheet

variable {s t : Sheet}

def Depends (s : Sheet) (column name : String) : Prop :=
  s.Reads column name ∧ name ∈ s.calculations.keys

/-- The graph has exactly the dependencies of the formulas, and these have no cycle. -/
structure Faithful (s : Sheet) : Prop where
  same : ∀ c ∈ s.calculations.keys, ∀ d ∈ s.calculations.keys,
    (d ∈ s.graph.readsOf c ↔ s.Reads c d)
  acyclic : ∀ c, ¬ TransGen s.Depends c c

/-- A patch that succeeds, keeps the formula of a column and gives it a name that the formula reads. -/
def Entangles (s : Sheet) : Operation → Prop
  | .update column p => p.formula = none ∧ (s.update column p).1 = .ok () ∧
      ∃ new ∈ newName? column p, s.Reads column new
  | _ => False

namespace Linked

theorem edge_iff_depends (h : Linked s) {c d : String} (hd : d ∈ s.calculations.keys) (hne : d ≠ c) :
    s.graph.Edge c d ↔ s.Reads c d :=
  ⟨h.sound c d, fun hr => h.complete c d hr hd hne⟩

theorem not_edge_self (h : Linked s) (c : String) : ¬ s.graph.Edge c c :=
  fun edge => h.acyclic c (.single edge)

theorem acyclic_depends (h : Linked s) (c : String) :
    ¬ TransGen (fun a b => a ≠ b ∧ s.Depends a b) c c := by
  intro cycle
  refine h.acyclic c (TransGen.mono ?_ _ _ cycle)
  rintro a b ⟨hne, hr, hb⟩
  exact h.complete a b hr hb (Ne.symm hne)

theorem reflTransGen_edge_iff (linked : Linked s) {column : String}
    (there : column ∈ s.calculations.keys) (x : String) :
    ReflTransGen s.graph.Edge x column ↔ ReflTransGen s.Depends x column := by
  constructor
  · intro path
    induction path using ReflTransGen.head_induction_on with
    | refl => exact .refl
    | @head x y edge path ih =>
      exact ih.head ⟨linked.sound x y edge, linked.mem_keys_of_path path there⟩
  · intro path
    induction path using ReflTransGen.head_induction_on with
    | refl => exact .refl
    | @head x y reads path ih =>
      by_cases self : y = x
      · rwa [← self]
      · exact ih.head (linked.complete x y reads.1 reads.2 self)

theorem reaches_iff (linked : Linked s) {column : String} (there : column ∈ s.calculations.keys)
    (x : String) : s.Reaches [column] x ↔ x = column ∨ TransGen s.Depends x column := by
  rw [reaches_singleton, linked.reflTransGen_edge_iff there, reflTransGen_iff_eq_or_transGen]
  exact or_congr_left eq_comm

theorem faithful_iff (h : Linked s) : s.Faithful ↔ ∀ c, ¬ s.Reads c c := by
  constructor
  · intro faithful c hr
    exact faithful.acyclic c (.single ⟨hr, hr.mem_keys⟩)
  · intro none
    refine ⟨?_, ?_⟩
    · intro c hc d hd
      by_cases hne : d = c
      · subst hne
        exact ⟨fun edge => absurd edge (h.not_edge_self d), fun hr => absurd hr (none d)⟩
      · exact h.edge_iff_depends hd hne
    · intro c cycle
      refine h.acyclic_depends c (TransGen.mono ?_ _ _ cycle)
      rintro a b hr
      exact ⟨fun e => none a (e ▸ hr.1), hr⟩

end Linked

theorem not_reads_self_added (none : ∀ x, ¬ s.Reads x x) {column : String}
    {c : Calculation} (here : ¬ TransGen (s.added column c).graph.Edge column column) (x : String) :
    ¬ (s.added column c).Reads x x := by
  intro hr
  rw [reads_added] at hr
  split at hr
  · rename_i hxc
    subst hxc
    exact here (.single ((edge_added s x c x x).2 (.inr (by rwa [if_pos rfl]))))
  · exact none x hr

/-- The one way for an edited column to read itself. -/
theorem reads_self_edited_iff (h : Linked s) (none : ∀ x, ¬ s.Reads x x) {column : String} {p : Patch}
    {c : Calculation} (editable : s.Editable column p c)
    (here : ¬ TransGen (s.editedGraph column p).Edge (target column p) (target column p)) :
    (∃ x, (s.edited column p c).Reads x x) ↔
      p.formula = .none ∧ ∃ new ∈ newName? column p, s.Reads column new := by
  constructor
  · rintro ⟨x, hr⟩
    rw [reads_edited editable] at hr
    split at hr
    · rename_i replaced
      obtain ⟨rfl, hf⟩ := replaced
      have edges := edge_edited editable (fun x hx => (h.nodes x).1 hx) (target column p)
        (target column p)
      rw [if_pos ⟨rfl, hf⟩] at edges
      exact absurd (.single (edges.2 hr)) here
    · rename_i kept
      obtain ⟨a, b, ha, hb, hr⟩ := hr
      have hab : a ≠ b := fun e => none a (by rwa [← e] at hr)
      by_cases hac : a = column
      · subst hac
        rw [Formula.substitute, if_pos rfl] at ha
        rw [Formula.substitute, if_neg (Ne.symm hab)] at hb
        subst hb
        refine ⟨?_, b, (newName?_eq_some_iff a b p).2 ⟨ha, Ne.symm hab⟩, hr⟩
        cases hf : p.formula with
        | none => rfl
        | some f => exact absurd ⟨ha.symm, by rw [hf]; rfl⟩ kept
      · -- then it is `b` that is renamed, and `a` had the new name before
        rw [Formula.substitute, if_neg hac] at ha
        have hbc : b = column := by
          by_cases hbc : b = column
          · exact hbc
          · rw [Formula.substitute, if_neg hbc] at hb
            exact absurd (ha.trans hb.symm) hab
        rw [Formula.substitute, if_pos hbc] at hb
        have hat : a = target column p := ha.trans hb.symm
        exact absurd (hat ▸ hr.mem_keys) (editable.unused (hat ▸ hac))
  · rintro ⟨hf, b, hb, hr⟩
    obtain ⟨ht, hne⟩ := (newName?_eq_some_iff column b p).1 (Option.mem_def.1 hb)
    refine ⟨target column p, (reads_edited editable _ _).2 ?_⟩
    rw [if_neg (by simp [hf])]
    refine ⟨column, b, if_pos rfl, ?_, hr⟩
    rw [Formula.substitute, if_neg hne, ht]

theorem reads_self_update_iff (h : Linked s) (none : ∀ x, ¬ s.Reads x x) (column : String)
    (p : Patch) :
    (∃ x, (s.update column p).2.Reads x x) ↔ s.Entangles (.update column p) := by
  rcases update_cases s column p with ⟨e, he⟩ | ⟨c, editable, here, he⟩
  · simp only [Entangles, he]
    constructor
    · rintro ⟨x, hr⟩
      exact absurd hr (none x)
    · rintro ⟨-, ok, -⟩
      cases ok
  · have drops := drops_uncacheCascades (s.edited column p c)
      (s.seeds column p c)
    have edited := reads_self_edited_iff h none editable here
    simp only [Entangles, he, drops.reads, true_and]
    exact edited

/-- Only entangling patches make a column read itself. -/
theorem reads_self_perform_iff (h : Linked s) (none : ∀ x, ¬ s.Reads x x) (op : Operation) :
    (∃ x, (s.perform op).Reads x x) ↔ s.Entangles op := by
  have unchanged : ∀ {t : Sheet}, (∀ x, ¬ t.Reads x x) → ((∃ x, t.Reads x x) ↔ False) :=
    fun ht => ⟨fun ⟨x, hr⟩ => ht x hr, False.elim⟩
  have executed : ∀ targets x, ¬ (s.execute targets).2.Reads x x := by
    intro targets x hr
    rw [execute_rest] at hr
    exact none x ((reads_congr rfl x x).1 hr)
  have added : ∀ column c x, ¬ (s.add column c).2.Reads x x := by
    intro column c x hr
    rcases add_cases s column c with ⟨e, he⟩ | ⟨-, here, he⟩
    · rw [he] at hr
      exact none x hr
    · have drops := drops_uncacheCascade (s.added column c) column
      refine not_reads_self_added none here x ?_
      rw [he] at hr
      split at hr
      · rw [execute_rest] at hr
        exact (drops.reads x x).1 ((reads_congr rfl x x).1 hr)
      · exact (drops.reads x x).1 hr
  cases op with
  | add column c => exact unchanged (added column c)
  | addText id name column text =>
    refine unchanged fun x hr => ?_
    rcases addText_cases s id name column text with he | ⟨formula, -, he⟩
    · exact none x ((congrArg (Reads · x x) he).mp hr)
    · exact added column _ x ((congrArg (Reads · x x) he).mp hr)
  | update column p => exact reads_self_update_iff h none column p
  | remove column =>
    refine unchanged fun x hr => ?_
    change (s.remove column).2.Reads x x at hr
    rcases remove_cases s column with ⟨e, he⟩ | ⟨c, t, -, he, drops⟩
    · rw [he] at hr
      exact none x hr
    · rw [he] at hr
      exact none x ((reads_removed s column x x).1 ((drops.reads x x).1 hr)).2
  | invalidate column =>
    refine unchanged fun x hr => ?_
    change (s.invalidate column).2.Reads x x at hr
    unfold invalidate at hr
    split at hr
    · exact none x (((drops_uncacheCascade s column).reads x x).1 hr)
    · exact none x hr
  | executeAll => exact unchanged (executed _)
  | refresh => exact unchanged (executed _)
  | setSource source => exact unchanged none
  | drift source => exact unchanged none

theorem Linked.faithful_perform_iff (h : Linked s) (faithful : s.Faithful) (op : Operation) :
    (s.perform op).Faithful ↔ ¬ s.Entangles op := by
  rw [(h.perform op).faithful_iff, ← reads_self_perform_iff h (h.faithful_iff.1 faithful) op,
    not_exists]

/-- Of distinct calculations the graph tells exactly what the formulas say, and their dependencies have
no cycle. The same holds of each with itself exactly if no formula reads its own column, and this is
only ever lost by an entangling patch. -/
theorem graph_follows_formulas (source : Dataset) (library : Library) (ops : List Operation) :
    let s := (ofSource source library).after ops
    (∀ c ∈ s.calculations.keys, ∀ d ∈ s.calculations.keys, d ≠ c →
      (d ∈ s.graph.readsOf c ↔ s.Reads c d)) ∧
    (∀ c, ¬ TransGen (fun a b => a ≠ b ∧ s.Depends a b) c c) ∧
    (s.Faithful ↔ ∀ c, ¬ s.Reads c c) ∧
    (s.Faithful → ∀ op, (s.perform op).Faithful ↔ ¬ s.Entangles op) ∧
    ((ofSource source library).Allows (fun t op => ¬ t.Entangles op) ops → s.Faithful) := by
  intro s
  have linked : Linked s := Linked.after source library ops
  refine ⟨?_, linked.acyclic_depends, linked.faithful_iff, linked.faithful_perform_iff, ?_⟩
  · intro c _ d hd hne
    exact linked.edge_iff_depends hd hne
  · intro allowed
    have start := Linked.ofSource source library
    have faithful : (ofSource source library).Faithful :=
      start.faithful_iff.2 fun c hr => List.not_mem_nil (hr.mem_keys)
    refine (Allows.after (P := fun t => t.Linked ∧ t.Faithful) ?_ ⟨start, faithful⟩ allowed).2
    intro t op free ht
    exact ⟨ht.1.perform op, (ht.1.faithful_perform_iff ht.2 op).2 free⟩

/-- The column a reads b. While b is there, a cannot take its name; after the removal of b it can. -/
def entangled : List Operation :=
  [.addText 0 "b" "b" "1", .addText 1 "a" "a" "b + 1", .remove "b",
    .update "a" ⟨none, some "b", none, none⟩]

set_option maxRecDepth 10000 in
theorem not_faithful_entangled : ¬ ((ofSource .empty .standard).after entangled).Faithful := by
  intro faithful
  have linked : Linked ((ofSource .empty .standard).after entangled) :=
    Linked.after .empty .standard entangled
  have reads : (((ofSource .empty .standard).after entangled).calculations.get? "b").any
      (fun c => c.formula.reads.contains "b") = true := by decide +kernel
  rw [Option.any_eq_true] at reads
  obtain ⟨c, hc, hb⟩ := reads
  exact linked.faithful_iff.1 faithful "b" ⟨c, hc, hb⟩

end Sheet

end DerivedColumns
