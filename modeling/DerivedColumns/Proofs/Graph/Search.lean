import DerivedColumns.Graph.Order
import DerivedColumns.Graph.Reach
import DerivedColumns.Proofs.Graph.Edges
import Mathlib.Logic.Relation

set_option autoImplicit false

/-!
Both searches take names out of their domain as they go. What can be reached at all can still be reached
without these names, since the last visit of a path to them can be its first step.
-/

namespace DerivedColumns

open Relation

def Along (next : String → List String) (domain : List String) (a b : String) : Prop :=
  a ∈ domain ∧ b ∈ next a

theorem Along.of_erase {next : String → List String} {domain : List String} {name a b : String}
    (h : Along next (domain.erase name) a b) : Along next domain a b :=
  ⟨List.mem_of_mem_erase h.1, h.2⟩

/-- A path that leaves `name` at all goes on from its last visit there without leaving `name` again. -/
theorem reaches_erase {next : String → List String} {domain : List String} (name : String)
    {a b : String} (h : ReflTransGen (Along next domain) a b) :
    ReflTransGen (Along next (domain.erase name)) a b ∨
      ∃ c ∈ next name, ReflTransGen (Along next (domain.erase name)) c b := by
  induction h using ReflTransGen.head_induction_on with
  | refl => exact .inl .refl
  | @head a c step _ ih =>
    rcases ih with path | found
    · by_cases ha : a = name
      · subst ha
        exact .inr ⟨c, step.2, path⟩
      · exact .inl (path.head ⟨(List.mem_erase_of_ne ha).2 step.1, step.2⟩)
    · exact .inr found

def Into (next : String → List String) (domain : List String) (a b : String) : Prop :=
  b ∈ next a ∧ b ∈ domain

section Gather

variable {next : String → List String} {names domain : List String} {a x : String}

theorem Into.mem_domain (path : TransGen (Into next domain) a x) : x ∈ domain := by
  obtain ⟨_, -, step⟩ := TransGen.tail'_iff.1 path
  exact step.2

theorem Into.of_sift (path : TransGen (Into next (sift names domain).2) a x) :
    TransGen (Into next domain) a x :=
  TransGen.mono (fun _ b step => ⟨step.1, (((mem_sift names domain b).2).1 step.2).1⟩) _ _ path

/-- A path ends at one of the names that are found, or it goes on from its last visit to them without
meeting them again. -/
theorem Into.last_visit (names : List String) (path : TransGen (Into next domain) a x) :
    x ∈ (sift names domain).1 ∨ TransGen (Into next (sift names domain).2) a x ∨
      ∃ b ∈ (sift names domain).1, TransGen (Into next (sift names domain).2) b x := by
  have apart := mem_sift names domain
  induction path using TransGen.head_induction_on with
  | @single a step =>
    by_cases hx : x ∈ names
    · exact .inl ((apart x).1.2 ⟨step.2, hx⟩)
    · exact .inr (.inl (.single ⟨step.1, (apart x).2.2 ⟨step.2, hx⟩⟩))
  | @head a b step _ ih =>
    rcases ih with found | path | later
    · exact .inl found
    · by_cases hb : b ∈ names
      · exact .inr (.inr ⟨b, (apart b).1.2 ⟨step.2, hb⟩, path⟩)
      · exact .inr (.inl (.head ⟨step.1, (apart b).2.2 ⟨step.2, hb⟩⟩ path))
    · exact .inr (.inr later)

theorem mem_gather (next : String → List String) (domain queue : List String) (x : String) :
    x ∈ gather next domain queue ↔ ∃ name ∈ queue, TransGen (Into next domain) name x := by
  fun_induction gather next domain queue with
  | case1 domain => simp
  | case2 domain name queue sifted ih =>
    have apart := mem_sift (next name) domain
    rw [List.mem_append, ih]
    constructor
    · rintro (found | ⟨start, waiting, path⟩)
      · obtain ⟨inside, reached⟩ := (apart x).1.1 found
        exact ⟨name, List.mem_cons_self, .single ⟨reached, inside⟩⟩
      · rcases List.mem_append.1 waiting with fresh | waiting
        · obtain ⟨inside, reached⟩ := (apart start).1.1 (List.mem_reverse.1 fresh)
          exact ⟨name, List.mem_cons_self, .head ⟨reached, inside⟩ (Into.of_sift path)⟩
        · exact ⟨start, List.mem_cons_of_mem _ waiting, Into.of_sift path⟩
    · rintro ⟨start, waiting, path⟩
      rcases Into.last_visit (next name) path with found | path | ⟨b, fresh, path⟩
      · exact .inl found
      · rcases List.mem_cons.1 waiting with rfl | waiting
        · -- every name that is one step from the first one has been found
          obtain ⟨b, step, _⟩ := TransGen.head'_iff.1 path
          exact absurd step.1 ((apart b).2.1 step.2).2
        · exact .inr ⟨start, List.mem_append_right _ waiting, path⟩
      · exact .inr ⟨b, List.mem_append_left _ (List.mem_reverse.2 fresh), path⟩

theorem nodup_gather (next : String → List String) {domain : List String} (nodup : domain.Nodup)
    (queue : List String) : (gather next domain queue).Nodup := by
  fun_induction gather next domain queue with
  | case1 domain => exact List.nodup_nil
  | case2 domain name queue sifted ih =>
    have parts : (sifted.1.Nodup ∧ sifted.2.Nodup) := by
      simp only [sifted, sift, List.partition_eq_filter_filter]
      exact ⟨nodup.filter _, nodup.filter _⟩
    rw [List.nodup_append]
    refine ⟨parts.1, ih parts.2, ?_⟩
    rintro a found b later rfl
    obtain ⟨_, -, path⟩ := (mem_gather _ _ _ a).1 later
    have apart := mem_sift (next name) domain a
    exact (apart.2.1 (Into.mem_domain path)).2 (apart.1.1 found).2

end Gather

namespace DependencyGraph

variable {g : DependencyGraph}

theorem mem_dependents (g : DependencyGraph) (column x : String) :
    x ∈ g.dependents column ↔ x ≠ column ∧ TransGen g.Edge x column := by
  have inside : ∀ b, b ∈ g.columns.erase column ↔ b ≠ column ∧ b ∈ g.columns :=
    fun b => List.Nodup.mem_erase_iff (nodup_columns g)
  rw [dependents, Names.mem_ofList, mem_gather]
  simp only [List.mem_singleton, exists_eq_left]
  constructor
  · intro path
    refine ⟨((inside x).1 (Into.mem_domain path)).1, ?_⟩
    induction path with
    | single step => exact .single ((mem_readers g _ _).1 step.1)
    | tail _ step ih => exact .head ((mem_readers g _ _).1 step.1) ih
  · rintro ⟨hne, path⟩
    have enter : ∀ {a b : String}, b ≠ column → g.Edge b a →
        Into g.readers (g.columns.erase column) a b := fun hb edge =>
      ⟨(mem_readers g _ _).2 edge, (inside _).2 ⟨hb, (mem_columns g _).2 edge.contains⟩⟩
    induction path using TransGen.head_induction_on with
    | single edge => exact .single (enter hne edge)
    | @head x y edge _ ih =>
      by_cases hy : y = column
      · exact .single (enter hne (hy ▸ edge))
      · exact (ih hy).tail (enter hne edge)

/-- Whatever cycles the graph has and whatever names without an entry are read: the search queues every
column once at most, and what it finds are just the other columns from which one or more steps, each to
a name that is read, lead to the column. -/
theorem dependents_exact (g : DependencyGraph) (column : String) :
    (gather g.readers (g.columns.erase column) [column]).Nodup ∧
      ∀ x, x ∈ g.dependents column ↔ x ≠ column ∧ TransGen g.Edge x column := by
  refine ⟨nodup_gather g.readers ?_ [column], g.mem_dependents column⟩
  exact (nodup_columns g).erase column

-- Two columns read each other, and one of them a name without an entry.
example :
    let g := ((empty.set "a" (.ofList ["b", "x"])).set "b" (.ofList ["a"])).set "c" (.ofList ["b"])
    (g.dependents "a").toList = ["b", "c"] ∧ (g.dependents "x").toList = ["a", "b", "c"] ∧
      (g.dependents "c").toList = [] := by
  decide +kernel

theorem isSome_wayTo (g : DependencyGraph) (target : String) (fresh : List String)
    (paths : List (String × List String)) :
    (g.wayTo target fresh paths).isSome ↔
      ∃ p ∈ paths, ReflTransGen (Along g.readsOf fresh) p.1 target := by
  fun_induction wayTo g target fresh paths with
  | case1 fresh => simp
  | case2 fresh before more =>
    simp only [Option.isSome_some, List.mem_cons, true_iff]
    exact ⟨_, .inl rfl, .refl⟩
  | case3 fresh name before more hne hin ih =>
    rw [ih]
    constructor
    · rintro ⟨p, hp, path⟩
      have path := ReflTransGen.mono (fun _ _ => Along.of_erase) _ _ path
      rcases List.mem_append.1 hp with hp | hp
      · obtain ⟨next, hnext, rfl⟩ := List.mem_map.1 hp
        exact ⟨(name, before), List.mem_cons_self, path.head ⟨hin, hnext⟩⟩
      · exact ⟨p, List.mem_cons_of_mem _ hp, path⟩
    · rintro ⟨p, hp, path⟩
      have entered : ∀ c ∈ g.readsOf name, (c, before ++ [name]) ∈
          (g.readsOf name).map (fun next => (next, before ++ [name])) ++ more :=
        fun c hc => List.mem_append_left _ (List.mem_map_of_mem hc)
      rcases List.mem_cons.1 hp with rfl | hp
      · -- the path leaves `name`, which is not the target, by a last step
        rcases ReflTransGen.cases_head path with heq | ⟨c, step, path⟩
        · exact absurd heq hne
        · rcases reaches_erase name path with path | ⟨d, hd, path⟩
          · exact ⟨_, entered c step.2, path⟩
          · exact ⟨_, entered d hd, path⟩
      · rcases reaches_erase name path with path | ⟨c, hc, path⟩
        · exact ⟨p, List.mem_append_right _ hp, path⟩
        · exact ⟨_, entered c hc, path⟩
  | case4 fresh name before more hne hout ih =>
    rw [ih]
    constructor
    · rintro ⟨p, hp, path⟩
      exact ⟨p, List.mem_cons_of_mem _ hp, path⟩
    · rintro ⟨p, hp, path⟩
      rcases List.mem_cons.1 hp with rfl | hp
      · rcases ReflTransGen.cases_head path with heq | ⟨_, step, _⟩
        · exact absurd heq hne
        · exact absurd step.1 hout
      · exact ⟨p, hp, path⟩

theorem cycleThrough?_eq_none_iff (g : DependencyGraph) (column : String) :
    g.cycleThrough? column = none ↔ ¬ TransGen g.Edge column column := by
  have along : Along g.readsOf g.columns = g.Edge := by
    funext a b
    refine propext ⟨fun h => h.2, fun h => ⟨(mem_columns g a).2 (Edge.contains h), h⟩⟩
  rw [cycleThrough?, Option.map_eq_none_iff, ← Option.not_isSome_iff_eq_none, isSome_wayTo, along,
    TransGen.head'_iff]
  apply not_congr
  constructor
  · rintro ⟨_, hp, path⟩
    obtain ⟨next, hnext, rfl⟩ := List.mem_map.1 hp
    exact ⟨next, hnext, path⟩
  · rintro ⟨next, hnext, path⟩
    exact ⟨_, List.mem_map_of_mem hnext, path⟩

end DependencyGraph

end DerivedColumns
