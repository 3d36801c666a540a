import DerivedColumns.Proofs.Formula.Renaming
import DerivedColumns.Proofs.Graph.Search
import DerivedColumns.Proofs.Keyed
import DerivedColumns.Sheet.Edit

set_option autoImplicit false

namespace DerivedColumns

open Relation

def Calculation.renamed (old new : String) (c : Calculation) : Calculation :=
  { c with formula := c.formula.rename old new }

theorem Calculation.renamed_self (column : String) (c : Calculation) : c.renamed column column = c := by
  rw [Calculation.renamed, Formula.rename_self]

theorem Calculation.renamed_of_not_mem {old : String} (new : String) {c : Calculation}
    (h : old ∉ c.formula.reads) : c.renamed old new = c := by
  rw [Calculation.renamed, Formula.rename_of_not_mem new c.formula h]

namespace Sheet

variable {s t : Sheet} {column : String} {p : Patch}

def Reads (s : Sheet) (column name : String) : Prop :=
  ∃ c, s.calculations.get? column = some c ∧ name ∈ c.formula.reads

theorem Reads.mem_keys {name : String} (h : s.Reads column name) :
    column ∈ s.calculations.keys := by
  obtain ⟨c, hc, -⟩ := h
  exact Keyed.mem_keys_of_get? hc

theorem reads_congr (h : t.calculations = s.calculations) (x y : String) :
    t.Reads x y ↔ s.Reads x y := by
  unfold Reads
  rw [h]

theorem mem_readersOf (s : Sheet) (graph : DependencyGraph) (column reader : String) :
    reader ∈ s.readersOf graph column ↔
      reader ≠ column ∧ graph.contains reader = true ∧ s.Reads reader column := by
  unfold readersOf Reads
  simp only [List.mem_map, List.mem_filter, Bool.and_eq_true, bne_iff_ne, ne_eq,
    Keyed.get?_eq_some_iff, Std.ExtTreeSet.contains_iff_mem]
  constructor
  · rintro ⟨⟨_, c⟩, ⟨hm, ⟨hne, hg⟩, hr⟩, rfl⟩
    exact ⟨hne, hg, c, hm, hr⟩
  · rintro ⟨hne, hg, c, hm, hr⟩
    exact ⟨(reader, c), ⟨hm, ⟨hne, hg⟩, hr⟩, rfl⟩

theorem edge_linkAll (graph : DependencyGraph) (readers : List String) (column c n : String) :
    (linkAll graph readers column).Edge c n ↔ (c ∈ readers ∧ n = column) ∨ graph.Edge c n := by
  induction readers generalizing graph with
  | nil => simp [linkAll]
  | cons reader readers ih =>
    have := ih (graph.link reader column)
    simp only [linkAll, List.foldl_cons] at this ⊢
    rw [this, DependencyGraph.edge_link, List.mem_cons]
    grind

theorem contains_linkAll (graph : DependencyGraph) (readers : List String) (column c : String) :
    (linkAll graph readers column).contains c = true ↔ c ∈ readers ∨ graph.contains c = true := by
  induction readers generalizing graph with
  | nil => simp [linkAll]
  | cons reader readers ih =>
    have := ih (graph.link reader column)
    simp only [linkAll, List.foldl_cons] at this ⊢
    rw [this, DependencyGraph.contains_link, List.mem_cons]
    grind

/-- Edges lead from the column to one of some seeds. -/
def Reaches (s : Sheet) (seeds : List String) (x : String) : Prop :=
  ∃ seed ∈ seeds, ReflTransGen s.graph.Edge x seed

theorem Reaches.of_mem {seeds : List String} {x : String} (h : x ∈ seeds) : s.Reaches seeds x :=
  ⟨x, h, .refl⟩

theorem Reaches.head {seeds : List String} {x y : String} (edge : s.graph.Edge x y)
    (h : s.Reaches seeds y) : s.Reaches seeds x := by
  obtain ⟨seed, hseed, path⟩ := h
  exact ⟨seed, hseed, path.head edge⟩

theorem reaches_singleton (s : Sheet) (column x : String) :
    s.Reaches [column] x ↔ ReflTransGen s.graph.Edge x column := by
  simp [Reaches]

/-- The second sheet is the first without some cached columns. -/
structure Drops (gone : String → Prop) (s s' : Sheet) : Prop where
  rest : s' = { s with cache := s'.cache }
  none : ∀ x, gone x → s'.cache[x]? = none
  same : ∀ x, ¬ gone x → s'.cache[x]? = s.cache[x]?

namespace Drops

variable {gone : String → Prop}

theorem source (drops : Drops gone s t) : t.source = s.source := by rw [drops.rest]

theorem library (drops : Drops gone s t) : t.library = s.library := by rw [drops.rest]

theorem calculations (drops : Drops gone s t) : t.calculations = s.calculations := by
  rw [drops.rest]

theorem reads (drops : Drops gone s t) (x y : String) : t.Reads x y ↔ s.Reads x y :=
  reads_congr drops.calculations x y

theorem of_mem (drops : Drops gone s t) {x : String} (h : x ∈ t.cache) : ¬ gone x ∧ x ∈ s.cache := by
  have kept : ¬ gone x := by
    intro hx
    obtain ⟨values, hv⟩ := (ByName.mem_iff t.cache x).1 h
    rw [drops.none x hx] at hv
    cases hv
  exact ⟨kept, (ByName.mem_congr (drops.same x kept)).1 h⟩

end Drops

theorem drops_uncache (s : Sheet) (columns : List String) :
    Drops (· ∈ columns) s (s.uncache columns) := by
  have each : ∀ (columns : List String) (cache : ByName ColumnValues) (x : String),
      (columns.foldl (fun cache column => cache.erase column) cache)[x]? =
        if x ∈ columns then none else cache[x]? := by
    intro columns
    induction columns with
    | nil => simp
    | cons name columns ih =>
      intro cache x
      rw [List.foldl_cons, ih, Std.ExtTreeMap.getElem?_erase]
      by_cases hx : x = name
      · simp [hx]
      · have : compare name x ≠ .eq := fun e => hx (Std.compare_eq_iff_eq.1 e).symm
        simp [hx, this]
  refine ⟨rfl, ?_, ?_⟩
  · intro x hx
    exact (each columns s.cache x).trans (if_pos hx)
  · intro x hx
    exact (each columns s.cache x).trans (if_neg hx)

theorem mem_cascade (s : Sheet) (column x : String) :
    x ∈ s.cascade column ↔ s.Reaches [column] x := by
  rw [reaches_singleton, cascade, Std.ExtTreeSet.mem_insert, Std.compare_eq_iff_eq, dependents,
    DependencyGraph.mem_dependents, reflTransGen_iff_eq_or_transGen]
  by_cases h : x = column
  · simp [h]
  · simp [h, Ne.symm h]

theorem drops_uncacheCascade (s : Sheet) (column : String) :
    Drops (s.Reaches [column]) s (s.uncacheCascade column) := by
  have drops := drops_uncache s (s.cascade column).toList
  have mem : ∀ x, x ∈ (s.cascade column).toList ↔ s.Reaches [column] x := by
    intro x
    rw [Std.ExtTreeSet.mem_toList, mem_cascade]
  exact ⟨rfl, fun x hx => drops.none x ((mem x).2 hx), fun x hx => drops.same x fun h => hx ((mem x).1 h)⟩

theorem drops_uncacheCascades (s : Sheet) (seeds : List String) :
    Drops (s.Reaches seeds) s (seeds.foldl uncacheCascade s) := by
  induction seeds generalizing s with
  | nil => exact ⟨rfl, by simp [Reaches], fun _ _ => rfl⟩
  | cons seed seeds ih =>
    have first := drops_uncacheCascade s seed
    have more := ih (s.uncacheCascade seed)
    have split : ∀ x, s.Reaches (seed :: seeds) x ↔ s.Reaches [seed] x ∨ s.Reaches seeds x := by
      simp [Reaches]
    refine ⟨more.rest, ?_, ?_⟩
    · intro x hx
      by_cases later : s.Reaches seeds x
      · exact more.none x later
      · exact (more.same x later).trans (first.none x (((split x).1 hx).resolve_right later))
    · intro x hx
      rw [split, not_or] at hx
      exact (more.same x hx.2).trans (first.same x hx.1)

theorem free_of_nameFault? (h : s.nameFault? column = none) :
    column ∉ s.calculations.keys ∧ column ∉ s.source.columns := by
  unfold nameFault? at h
  split at h
  · cases h
  · split at h
    · cases h
    · rename_i taken
      simpa [Keyed.contains] using taken

def added (s : Sheet) (column : String) (c : Calculation) : Sheet :=
  let graph := s.graph.set column c.formula.reads
  { s with
    graph := linkAll graph (s.readersOf graph column) column
    calculations := s.calculations.insert column c }

theorem edge_added (s : Sheet) (column : String) (c : Calculation) (x y : String) :
    (s.added column c).graph.Edge x y ↔
      (y = column ∧ x ≠ column ∧ s.graph.contains x = true ∧ s.Reads x column) ∨
        if x = column then y ∈ c.formula.reads else s.graph.Edge x y := by
  unfold added
  rw [edge_linkAll, mem_readersOf, DependencyGraph.contains_set, DependencyGraph.edge_set]
  grind

theorem get?_added (s : Sheet) (column : String) (c : Calculation) (x : String) :
    (s.added column c).calculations.get? x =
      if x = column then some c else s.calculations.get? x :=
  Keyed.get?_insert s.calculations column c x

theorem mem_keys_added (s : Sheet) (column : String) (c : Calculation) (x : String) :
    x ∈ (s.added column c).calculations.keys ↔ x = column ∨ x ∈ s.calculations.keys :=
  Keyed.mem_keys_insert s.calculations column c x

theorem reads_added (s : Sheet) (column : String) (c : Calculation) (x y : String) :
    (s.added column c).Reads x y ↔ if x = column then y ∈ c.formula.reads else s.Reads x y := by
  unfold Reads
  rw [get?_added]
  by_cases hx : x = column <;> simp [hx]

theorem contains_added (s : Sheet) (column : String) (c : Calculation) (x : String) :
    (s.added column c).graph.contains x = true ↔ x = column ∨ s.graph.contains x = true := by
  unfold added
  rw [contains_linkAll, mem_readersOf, DependencyGraph.contains_set]
  grind

theorem add_cases (s : Sheet) (column : String) (c : Calculation) :
    (∃ e, s.add column c = (.error e, s)) ∨
      (s.nameFault? column = none ∧ ¬ TransGen (s.added column c).graph.Edge column column ∧
        s.add column c =
          if c.active then ((s.added column c).uncacheCascade column).execute
            ((s.added column c).cascade column).toList
          else (.ok .empty, (s.added column c).uncacheCascade column)) := by
  unfold add
  cases fault : s.nameFault? column with
  | some e => exact .inl ⟨e, rfl⟩
  | none =>
    dsimp only
    split
    · exact .inl ⟨_, rfl⟩
    · rename_i acyclic
      exact .inr ⟨rfl, (DependencyGraph.cycleThrough?_eq_none_iff _ _).1 acyclic, rfl⟩

def removed (s : Sheet) (column : String) : Sheet :=
  { s with
    calculations := s.calculations.erase column
    graph := (s.graph.remove column).strip column }

theorem edge_removed (s : Sheet) (column x y : String) :
    (s.removed column).graph.Edge x y ↔ y ≠ column ∧ x ≠ column ∧ s.graph.Edge x y := by
  unfold removed
  rw [DependencyGraph.edge_strip, DependencyGraph.edge_remove]

theorem get?_removed (s : Sheet) (column x : String) :
    (s.removed column).calculations.get? x =
      if x = column then none else s.calculations.get? x :=
  Keyed.get?_erase s.calculations column x

theorem mem_keys_removed (s : Sheet) (column x : String) :
    x ∈ (s.removed column).calculations.keys ↔ x ≠ column ∧ x ∈ s.calculations.keys :=
  Keyed.mem_keys_erase s.calculations column x

theorem reads_removed (s : Sheet) (column x y : String) :
    (s.removed column).Reads x y ↔ x ≠ column ∧ s.Reads x y := by
  unfold Reads
  rw [get?_removed]
  by_cases hx : x = column <;> simp [hx]

theorem contains_removed (s : Sheet) (column x : String) :
    (s.removed column).graph.contains x = true ↔ x ≠ column ∧ s.graph.contains x = true := by
  unfold removed
  rw [DependencyGraph.contains_strip, DependencyGraph.contains_remove]

theorem remove_cases (s : Sheet) (column : String) :
    (∃ e, s.remove column = (.error e, s)) ∨
      ∃ c t, s.calculations.get? column = some c ∧ s.remove column = (.ok c, t) ∧
        Drops (s.Reaches [column]) (s.removed column) t := by
  unfold remove
  cases found : s.calculations.get? column with
  | none => exact .inl ⟨_, rfl⟩
  | some c =>
    have drops := drops_uncache (s.removed column) (column :: (s.dependents column).toList)
    have mem : ∀ x, x ∈ column :: (s.dependents column).toList ↔ s.Reaches [column] x := by
      intro x
      rw [← mem_cascade, cascade, Std.ExtTreeSet.mem_insert, Std.compare_eq_iff_eq, List.mem_cons,
        Std.ExtTreeSet.mem_toList]
      exact or_congr_left eq_comm
    exact .inr ⟨c, _, rfl, rfl, drops.rest, fun x hx => drops.none x ((mem x).2 hx),
      fun x hx => drops.same x fun h => hx ((mem x).1 h)⟩

def newName? (column : String) (p : Patch) : Option String := p.column.filter (· != column)

def target (column : String) (p : Patch) : String := (newName? column p).getD column

/-- The calculations that read the new name of the column already. -/
def relinked (s : Sheet) (column : String) (p : Patch) : List String :=
  match newName? column p with
  | some new => s.readersOf (s.graph.rename column new) new
  | none => []

def editedGraph (s : Sheet) (column : String) (p : Patch) : DependencyGraph :=
  let graph := match newName? column p with
    | some new => linkAll (s.graph.rename column new) (s.relinked column p) new
    | none => s.graph
  match p.formula with
  | some formula => graph.set (target column p) formula.reads
  | none => graph

def moved (s : Sheet) (column : String) (p : Patch) : Sheet :=
  match newName? column p with
  | some new => s.renameColumn column new
  | none => s

def edited (s : Sheet) (column : String) (p : Patch) (c : Calculation) : Sheet :=
  { s.moved column p with
    graph := s.editedGraph column p
    calculations := (s.moved column p).calculations.insert (target column p)
      (patched (c.renamed column (target column p)) p) }

/-- The columns that a patch makes stale, with all that depends on them. -/
def seeds (s : Sheet) (column : String) (p : Patch) (c : Calculation) : List String :=
  (if p.formula.isSome || p.active.any (· != c.active) then [target column p] else []) ++
    s.relinked column p

theorem newName?_cases (column : String) (p : Patch) :
    (newName? column p = none ∧ target column p = column) ∨
      ∃ new, newName? column p = some new ∧ target column p = new ∧ new ≠ column := by
  unfold target
  cases h : newName? column p with
  | none => exact .inl ⟨rfl, rfl⟩
  | some new =>
    refine .inr ⟨new, rfl, rfl, ?_⟩
    have := (Option.filter_eq_some_iff.1 h).2
    simpa using this

theorem newName?_eq_some_iff (column new : String) (p : Patch) :
    newName? column p = some new ↔ target column p = new ∧ new ≠ column := by
  rcases newName?_cases column p with ⟨hn, ht⟩ | ⟨name, hn, ht, hne⟩
  · rw [hn, ht]
    exact ⟨fun h => (by cases h), fun h => absurd h.1.symm h.2⟩
  · rw [hn, ht, Option.some.injEq]
    exact ⟨fun h => ⟨h, h ▸ hne⟩, fun h => h.1⟩

structure Editable (s : Sheet) (column : String) (p : Patch) (c : Calculation) : Prop where
  found : s.calculations.get? column = some c
  unused : target column p ≠ column → target column p ∉ s.calculations.keys
  unlisted : target column p ≠ column → target column p ∉ s.source.columns

theorem calculations_renameColumn (s : Sheet) (old new : String) :
    (s.renameColumn old new).calculations =
      (s.calculations.rename old new).map fun _ c => c.renamed old new := by
  have same : ∀ c : Calculation, (if c.formula.reads.contains old then
      { c with formula := c.formula.rename old new } else c) = c.renamed old new := by
    intro c
    split
    · rfl
    · rename_i h
      exact (Calculation.renamed_of_not_mem new h).symm
  unfold renameColumn
  simp only [same]

theorem get?_renameColumn (s : Sheet) {old new : String} (hne : new ≠ old)
    (hn : new ∉ s.calculations.keys) (x : String) :
    (s.renameColumn old new).calculations.get? x =
      if x = old then none
      else (s.calculations.get? (if x = new then old else x)).map (·.renamed old new) := by
  rw [calculations_renameColumn, Keyed.get?_map]
  have placed : ∀ k, k ≠ new →
      (s.calculations.rename old new).get? (if k = old then new else k) = s.calculations.get? k :=
    fun k => s.calculations.get?_rename_of_ne old hn
  by_cases hold : x = old
  · subst hold
    rw [if_pos rfl, Keyed.get?_rename_old _ hn hne, Option.map_none]
  · rw [if_neg hold]
    by_cases hnew : x = new
    · subst hnew
      have := placed old (Ne.symm hne)
      rw [if_pos rfl] at this
      rw [if_pos rfl, this]
    · have := placed x hnew
      rw [if_neg hold] at this
      rw [if_neg hnew, this]

theorem cache_renameColumn (s : Sheet) {old new : String} (hn : s.cache[new]? = none) (x : String) :
    (s.renameColumn old new).cache[x]? =
      if x = new then s.cache[old]? else if x = old then none else s.cache[x]? := by
  unfold renameColumn
  simp only
  cases hold : s.cache[old]? with
  | none => grind
  | some values =>
    simp only [Std.ExtTreeMap.getElem?_insert, Std.ExtTreeMap.getElem?_erase,
      Std.compare_eq_iff_eq]
    grind

section Edited

variable {c : Calculation}

theorem source_edited (s : Sheet) (column : String) (p : Patch) (c : Calculation) :
    (s.edited column p c).source = s.source ∧ (s.edited column p c).library = s.library := by
  unfold edited moved
  cases newName? column p <;> exact ⟨rfl, rfl⟩

theorem get?_moved (h : s.Editable column p c) (x : String) :
    (s.moved column p).calculations.get? x =
      if x = target column p then some (c.renamed column (target column p))
      else if x = column then none
      else (s.calculations.get? x).map (·.renamed column (target column p)) := by
  unfold moved
  rcases newName?_cases column p with ⟨hn, ht⟩ | ⟨new, hn, ht, hne⟩
  · have self : Calculation.renamed column column = id := funext (Calculation.renamed_self column)
    rw [hn, ht, self]
    by_cases hx : x = column
    · rw [if_pos hx, hx, h.found]
      rfl
    · rw [if_neg hx, if_neg hx, Option.map_id]
      rfl
  · have unused := h.unused (ht ▸ hne)
    rw [ht] at unused ⊢
    simp only [hn]
    rw [get?_renameColumn s hne unused]
    by_cases hx : x = new
    · subst hx
      rw [if_neg hne, if_pos rfl, if_pos rfl, h.found]
      rfl
    · rw [if_neg hx, if_neg hx]

theorem entries_moved (h : s.Editable column p c) :
    (s.moved column p).calculations.entries = s.calculations.entries.map fun e =>
      (Formula.substitute column (target column p) e.1, e.2.renamed column (target column p)) := by
  unfold moved
  rcases newName?_cases column p with ⟨hn, ht⟩ | ⟨new, hn, ht, hne⟩
  · simp only [hn, ht, Formula.substitute_self, Calculation.renamed_self, List.map_id']
  · have unused := h.unused (ht ▸ hne)
    rw [ht] at unused ⊢
    simp only [hn, calculations_renameColumn]
    change (s.calculations.rename column new).entries.map _ = _
    rw [Keyed.entries_rename _ _ unused, List.map_map]
    rfl

theorem get?_edited (h : s.Editable column p c) (x : String) :
    (s.edited column p c).calculations.get? x =
      if x = target column p then some (patched (c.renamed column (target column p)) p)
      else if x = column then none
      else (s.calculations.get? x).map (·.renamed column (target column p)) := by
  unfold edited
  rw [Keyed.get?_insert, get?_moved h]
  split <;> rfl

theorem mem_keys_edited (h : s.Editable column p c) (x : String) :
    x ∈ (s.edited column p c).calculations.keys ↔
      x = target column p ∨ (x ≠ column ∧ x ∈ s.calculations.keys) := by
  rw [Keyed.mem_keys_iff, Keyed.mem_keys_iff, get?_edited h]
  by_cases ht : x = target column p
  · simp [ht]
  · by_cases hx : x = column
    · simp [hx]
    · cases s.calculations.get? x <;> simp [ht, hx]

theorem Editable.eq_column (h : s.Editable column p c) {a : String} (ha : a ∈ s.calculations.keys)
    (e : Formula.substitute column (target column p) a = target column p) : a = column := by
  by_cases hne : a = column
  · exact hne
  · rw [Formula.substitute, if_neg hne] at e
    exact absurd ha (e ▸ h.unused (e ▸ hne))

theorem reads_edited (h : s.Editable column p c) (x y : String) :
    (s.edited column p c).Reads x y ↔
      if x = target column p ∧ p.formula.isSome = true then ∃ f ∈ p.formula, y ∈ f.reads
      else ∃ a b, Formula.substitute column (target column p) a = x ∧
        Formula.substitute column (target column p) b = y ∧ s.Reads a b := by
  unfold Reads
  rw [get?_edited h]
  by_cases ht : x = target column p
  · subst ht
    simp only [if_true, true_and, Option.some.injEq, exists_eq_left', patched]
    cases hf : p.formula with
    | some f => simp
    | none =>
      simp only [Option.isSome_none, Bool.false_eq_true, if_false, Option.getD_none,
        Calculation.renamed, Formula.mem_reads_rename]
      constructor
      · rintro ⟨b, hb, rfl⟩
        exact ⟨column, b, if_pos rfl, rfl, c, h.found, hb⟩
      · rintro ⟨a, b, ha, rfl, d, hd, hb⟩
        obtain rfl := h.eq_column (Keyed.mem_keys_of_get? hd) ha
        rw [h.found, Option.some.injEq] at hd
        exact ⟨b, hd ▸ hb, rfl⟩
  · have origin : ∀ a, Formula.substitute column (target column p) a = x ↔ a = x ∧ x ≠ column := by
      intro a
      unfold Formula.substitute
      split
      · rename_i ha
        constructor
        · intro e
          exact absurd e.symm ht
        · rintro ⟨rfl, hne⟩
          exact absurd ha hne
      · rename_i ha
        exact ⟨fun e => ⟨e, e ▸ ha⟩, fun e => e.1⟩
    simp only [ht, if_false, false_and, origin]
    by_cases hx : x = column
    · simp [hx]
    · simp only [if_neg hx, Option.map_eq_some_iff]
      constructor
      · rintro ⟨_, ⟨d, hd, rfl⟩, hy⟩
        obtain ⟨b, hb, rfl⟩ := (Formula.mem_reads_rename column _ y d.formula).1 hy
        exact ⟨x, b, ⟨rfl, hx⟩, rfl, d, hd, hb⟩
      · rintro ⟨a, b, ⟨rfl, -⟩, rfl, d, hd, hb⟩
        exact ⟨_, ⟨d, hd, rfl⟩, (Formula.mem_reads_rename column _ _ d.formula).2 ⟨b, hb, rfl⟩⟩

theorem edge_edited (h : s.Editable column p c) (hg : ∀ x, s.graph.contains x = true →
    x ∈ s.calculations.keys) (x y : String) :
    (s.edited column p c).graph.Edge x y ↔
      if x = target column p ∧ p.formula.isSome = true then ∃ f ∈ p.formula, y ∈ f.reads
      else (x ∈ s.relinked column p ∧ y = target column p) ∨
        ∃ a b, Formula.substitute column (target column p) a = x ∧
          Formula.substitute column (target column p) b = y ∧ s.graph.Edge a b := by
  have before : (match newName? column p with
      | some new => linkAll (s.graph.rename column new) (s.relinked column p) new
      | none => s.graph).Edge x y ↔ (x ∈ s.relinked column p ∧ y = target column p) ∨
        ∃ a b, Formula.substitute column (target column p) a = x ∧
          Formula.substitute column (target column p) b = y ∧ s.graph.Edge a b := by
    rcases newName?_cases column p with ⟨hn, ht⟩ | ⟨new, hn, ht, hne⟩
    · simp [relinked, hn, ht, Formula.substitute_self]
    · have fresh : s.graph.contains new = false := by
        rw [Bool.eq_false_iff]
        intro hc
        exact h.unused (ht ▸ hne) (ht ▸ hg new hc)
      simp only [hn, ht]
      rw [edge_linkAll, DependencyGraph.edge_rename s.graph fresh hne]
  change (s.editedGraph column p).Edge x y ↔ _
  unfold editedGraph
  cases hf : p.formula with
  | none => simpa using before
  | some f =>
    simp only [DependencyGraph.edge_set, before]
    by_cases hx : x = target column p <;> simp [hx]

theorem contains_edited (hg : s.graph.contains column = true)
    (c : Calculation) (x : String) :
    (s.edited column p c).graph.contains x = true ↔
      x = target column p ∨ (x ≠ column ∧ s.graph.contains x = true) := by
  have before : (match newName? column p with
      | some new => linkAll (s.graph.rename column new) (s.relinked column p) new
      | none => s.graph).contains x = true ↔
        x = target column p ∨ (x ≠ column ∧ s.graph.contains x = true) := by
    rcases newName?_cases column p with ⟨hn, ht⟩ | ⟨new, hn, ht, hne⟩
    · simp only [hn, ht]
      by_cases hx : x = column
      · simp [hx, hg]
      · simp [hx]
    · simp only [hn, ht]
      have readers : x ∈ s.relinked column p → (s.graph.rename column new).contains x = true := by
        simp only [relinked, hn, mem_readersOf]
        exact fun hr => hr.2.1
      rw [contains_linkAll, ← DependencyGraph.contains_rename s.graph hg]
      exact or_iff_right_of_imp readers
  change (s.editedGraph column p).contains x = true ↔ _
  unfold editedGraph
  cases p.formula with
  | none => exact before
  | some f =>
    simp only [DependencyGraph.contains_set, before]
    exact or_iff_right_of_imp Or.inl

theorem cache_edited (hn : target column p ≠ column → s.cache[target column p]? = none)
    (c : Calculation) (x : String) :
    (s.edited column p c).cache[x]? =
      if x = target column p then s.cache[column]?
      else if x = column then none
      else s.cache[x]? := by
  change (s.moved column p).cache[x]? = _
  unfold moved
  rcases newName?_cases column p with ⟨hnew, ht⟩ | ⟨new, hnew, ht, hne⟩
  · simp only [hnew, ht]
    grind
  · simp only [hnew, ht]
    exact cache_renameColumn s (ht ▸ hn (ht ▸ hne)) x

theorem exists_cached_of_edited (hn : target column p ≠ column → s.cache[target column p]? = none)
    {x' : String} (h : x' ∈ (s.edited column p c).cache) :
    ∃ x ∈ s.cache, Formula.substitute column (target column p) x = x' := by
  obtain ⟨values, hv⟩ := (ByName.mem_iff _ x').1 h
  rw [cache_edited hn] at hv
  split at hv
  · rename_i ht
    exact ⟨column, (ByName.mem_iff _ _).2 ⟨values, hv⟩, (if_pos rfl).trans ht.symm⟩
  · split at hv
    · cases hv
    · rename_i hne
      exact ⟨x', (ByName.mem_iff _ _).2 ⟨values, hv⟩, if_neg hne⟩

theorem mem_relinked (hg : s.graph.contains column = true) (x : String) :
    x ∈ s.relinked column p ↔ target column p ≠ column ∧ x ≠ column ∧ x ≠ target column p ∧
      s.graph.contains x = true ∧ s.Reads x (target column p) := by
  unfold relinked
  rcases newName?_cases column p with ⟨hn, ht⟩ | ⟨new, hn, ht, hne⟩
  · simp [hn, ht]
  · simp only [hn, ht, mem_readersOf, DependencyGraph.contains_rename s.graph hg]
    grind

theorem seeds_eq (s : Sheet) (column : String) (p : Patch) (c : Calculation) (t : Sheet) :
    (s.relinked column p).foldl uncacheCascade
      (if p.formula.isSome || p.active.any (· != c.active) then t.uncacheCascade (target column p)
        else t) = (s.seeds column p c).foldl uncacheCascade t := by
  unfold seeds
  split <;> rfl

theorem editable_of_nameFault? (found : s.calculations.get? column = some c)
    (fault : (newName? column p).bind s.nameFault? = none) : s.Editable column p c := by
  rcases newName?_cases column p with ⟨-, ht⟩ | ⟨new, hn, ht, -⟩
  · exact ⟨found, fun h => absurd ht h, fun h => absurd ht h⟩
  · rw [hn, Option.bind_some] at fault
    have free := free_of_nameFault? fault
    exact ⟨found, fun _ => ht ▸ free.1, fun _ => ht ▸ free.2⟩

theorem update_eq (h : s.Editable column p c)
    (fault : (newName? column p).bind s.nameFault? = none) :
    s.update column p = ((s.editedGraph column p).cycleThrough? (target column p)).elim
      (.ok (), (s.seeds column p c).foldl uncacheCascade (s.edited column p c))
      (fun cycle => (.error (.cycle cycle), s)) := by
  have there : s.calculations.contains column = true :=
    (Keyed.contains_iff _ _).2 (Keyed.mem_keys_of_get? h.found)
  have moved := get?_moved h (target column p)
  rw [if_pos rfl] at moved
  rw [← seeds_eq]
  unfold update
  unfold newName? at fault
  simp only [there, Bool.not_true, Bool.false_eq_true, if_false, fault]
  unfold Sheet.moved at moved
  unfold edited editedGraph relinked Sheet.moved target
  rcases newName?_cases column p with ⟨hn, ht⟩ | ⟨new, hn, ht, -⟩
  · rw [ht, hn] at moved
    simp only at moved
    unfold newName? at hn
    simp only [newName?, hn, Option.getD_none, moved]
    generalize DependencyGraph.cycleThrough? _ column = cycle
    cases cycle <;> rfl
  · rw [ht, hn] at moved
    simp only at moved
    have moved' : ∀ graph, (Sheet.renameColumn { s with graph } column new).calculations.get?
        new = some (c.renamed column new) := fun _ => moved
    unfold newName? at hn
    simp only [newName?, hn, Option.getD_some, moved']
    generalize DependencyGraph.cycleThrough? _ new = cycle
    cases cycle <;> rfl

/-- A patch fails and changes nothing, or it edits the sheet and makes the seeds stale. -/
theorem update_cases (s : Sheet) (column : String) (p : Patch) :
    (∃ e, s.update column p = (.error e, s)) ∨
      ∃ c, s.Editable column p c ∧
        ¬ TransGen (s.editedGraph column p).Edge (target column p) (target column p) ∧
        s.update column p = (.ok (), (s.seeds column p c).foldl uncacheCascade
          (s.edited column p c)) := by
  cases found : s.calculations.get? column with
  | none =>
    have absent : s.calculations.contains column = false := by
      rw [Bool.eq_false_iff, ne_eq, Keyed.contains_iff]
      exact (Keyed.get?_eq_none_iff _ _).1 found
    refine .inl ⟨.unknownCalculation column, ?_⟩
    unfold update
    rw [absent]
    rfl
  | some c =>
    have there : s.calculations.contains column = true :=
      (Keyed.contains_iff _ _).2 (Keyed.mem_keys_of_get? found)
    cases fault : (newName? column p).bind s.nameFault? with
    | some e =>
      refine .inl ⟨e, ?_⟩
      unfold update
      unfold newName? at fault
      simp only [there, Bool.not_true, Bool.false_eq_true, if_false, fault]
    | none =>
      have editable := editable_of_nameFault? found fault
      have result := update_eq editable fault
      cases cyclic : (s.editedGraph column p).cycleThrough? (target column p) with
      | some cycle =>
        rw [cyclic] at result
        exact .inl ⟨.cycle cycle, result⟩
      | none =>
        rw [cyclic] at result
        have acyclic := (DependencyGraph.cycleThrough?_eq_none_iff _ _).1 cyclic
        exact .inr ⟨c, editable, acyclic, result⟩

end Edited

end Sheet

end DerivedColumns
