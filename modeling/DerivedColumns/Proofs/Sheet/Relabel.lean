import DerivedColumns.Proofs.Sheet.Current
import DerivedColumns.Proofs.Sheet.Failure
import DerivedColumns.Proofs.Sheet.Pruned

set_option autoImplicit false

namespace DerivedColumns

def Patch.renaming (new : String) : Patch := ⟨none, some new, none, none⟩

/-- The entry of one name has moved to another, where no entry was; the others are where they were. -/
structure Relabelled {α : Type} (old new : String) (m m' : ByName α) : Prop where
  free : new ≠ old → m[new]? = none
  entry : ∀ x : String, m'[x]? = if x = new then m[old]? else if x = old then none else m[x]?

namespace Sheet

variable {s : Sheet} {old new : String} {c : Calculation}

theorem target_renaming (old new : String) : target old (.renaming new) = new := by
  rw [target_eq]
  rfl

theorem calculations_renaming (editable : s.Editable old (.renaming new) c) :
    (s.edited old (.renaming new) c).calculations = (s.moved old (.renaming new)).calculations := by
  have found := get?_moved editable (target old (.renaming new))
  rw [if_pos rfl] at found
  exact Keyed.insert_of_get? found

theorem seeds_renaming (linked : s.Linked) (there : old ∈ s.calculations.keys)
    (unread : ∀ x, ¬ s.Reads x new) (c : Calculation) : s.seeds old (.renaming new) c = [] := by
  have none : s.relinked old (.renaming new) = [] := by
    rw [List.eq_nil_iff_forall_not_mem]
    intro x hx
    obtain ⟨-, -, -, -, reads⟩ := (mem_relinked ((linked.nodes old).2 there) x).1 hx
    rw [target_renaming] at reads
    exact unread x reads
  unfold seeds
  rw [none]
  rfl

theorem update_renaming (linked : s.Linked) (unread : ∀ x, ¬ s.Reads x new)
    (ok : (s.update old (.renaming new)).1 = .ok ()) :
    ∃ c, s.Editable old (.renaming new) c ∧ (s.edited old (.renaming new) c).Linked ∧
      (s.update old (.renaming new)).2 = s.edited old (.renaming new) c := by
  rcases update_cases s old (.renaming new) with ⟨e, he⟩ | ⟨c, editable, here, he⟩
  · rw [he] at ok
    cases ok
  · have there := Keyed.mem_keys_of_get? editable.found
    rw [seeds_renaming linked there unread] at he
    exact ⟨c, editable, linked.edited editable here, by rw [he]; rfl⟩

theorem isActive_renaming (editable : s.Editable old (.renaming new) c) (x : String) :
    (s.edited old (.renaming new) c).isActive x =
      if x = new then s.isActive old else if x = old then false else s.isActive x := by
  unfold isActive
  rw [get?_edited editable, target_renaming, editable.found]
  split
  · rfl
  · split
    · rfl
    · cases s.calculations.get? x <;> rfl

theorem relabelled_cache (pruned : s.Pruned) (editable : s.Editable old (.renaming new) c) :
    Relabelled old new s.cache (s.edited old (.renaming new) c).cache := by
  have uncached := pruned.uncached editable
  have entry := cache_edited uncached c
  rw [target_renaming] at uncached entry
  exact ⟨uncached, entry⟩

theorem edited_recached (s : Sheet) (cache : ByName ColumnValues) (old new : String)
    (c : Calculation) :
    ({ s with cache } : Sheet).edited old (.renaming new) c =
      { s.edited old (.renaming new) c with
        cache := (({ s with cache } : Sheet).edited old (.renaming new) c).cache } := by
  unfold edited moved
  cases newName? old (.renaming new) <;> rfl

/-- The solution before a renaming, relabelled, is cached by a sheet whose cache is up to date. -/
theorem relabelled_results (linked : s.Linked) (dateless : s.Dateless) (apart : s.Apart)
    (listed : s.source.Listed) (unread : ∀ x, ¬ s.Reads x new)
    (editable : s.Editable old (.renaming new) c)
    (linked' : (s.edited old (.renaming new) c).Linked) {report report' : Report}
    (solution : s.Solution report) (solution' : (s.edited old (.renaming new) c).Solution report') :
    Relabelled old new report.results report'.results := by
  let t := s.edited old (.renaming new) c
  let u : Sheet := { s with cache := report.results }
  let u' := u.edited old (.renaming new) c
  have there := Keyed.mem_keys_of_get? editable.found
  have editable' : u.Editable old (.renaming new) c :=
    ⟨editable.found, editable.unused, editable.unlisted⟩
  have pruned : u.Pruned := fun x hx => (solution.mem_results x).1 hx
  have same : u' = { t with cache := u'.cache } := edited_recached s report.results old new c
  have moved : Relabelled old new report.results u'.cache := relabelled_cache pruned editable'
  have fresh : u'.Fresh := by
    have drops := drops_uncacheCascades u' (u.seeds old (.renaming new) c)
    have linkedU : u.Linked := linked.of_eq rfl rfl
    have linkedU' : u'.Linked := same ▸ linked'.of_eq rfl rfl
    have kept := Fresh.edited (s := u) (solution.solves dateless) linkedU dateless apart listed editable'
      linkedU' drops
    rwa [seeds_renaming linkedU there unread] at kept
  have dateless' : t.Dateless := dateless.edited editable fun _ hf => (by cases hf)
  have hmatch : Matches t u' := by
    rw [same]
    exact ⟨rfl, rfl, fun _ => rfl⟩
  have cached : ∀ x, x ∈ u'.cache ↔ t.isActive x = true := by
    intro x
    rw [Std.ExtTreeMap.mem_iff_isSome_getElem?, moved.entry, isActive_renaming editable]
    split
    · rw [← Std.ExtTreeMap.mem_iff_isSome_getElem?, solution.mem_results]
    · split
      · exact Iff.rfl
      · rw [← Std.ExtTreeMap.mem_iff_isSome_getElem?, solution.mem_results]
  refine ⟨moved.free, fun x => ?_⟩
  rw [← moved.entry]
  cases hx : t.isActive x with
  | true =>
    exact (solves_unique linked' dateless' hmatch (solution'.solves dateless') fresh x
      ((solution'.mem_results x).2 hx) ((cached x).2 hx)).symm
  | false =>
    have absent : x ∉ u'.cache := by
      rw [cached, hx]
      exact Bool.false_ne_true
    rw [(solution'.rest x hx).1, Std.ExtTreeMap.getElem?_eq_none absent]

/-- In every session over a source without fields named like calculations, and with no formula that
calls a date function: giving a column a name that nothing reads keeps all calculations in their places,
with the name changed in them, and all cells that are cached; and computing everything after it gives
what it would have given before, with that one column under its new name. -/
theorem renaming_relabels (source : Dataset) (library : Library) (ops : List Operation)
    (old new : String)
    (listed : ((ofSource source library).after ops).source.Listed)
    (apart : ((ofSource source library).after ops).Apart)
    (dateless : ((ofSource source library).after ops).Dateless)
    (unread : ∀ x, ¬ ((ofSource source library).after ops).Reads x new)
    (ok : (((ofSource source library).after ops).update old (.renaming new)).1 = .ok ()) :
    let s := (ofSource source library).after ops
    let t := (s.update old (.renaming new)).2
    t.calculations.entries = s.calculations.entries.map (fun e =>
      (Formula.substitute old new e.1, e.2.renamed old new)) ∧
    Relabelled old new s.cache t.cache ∧
    ∃ report report', s.executeAll.1 = .ok report ∧ t.executeAll.1 = .ok report' ∧
      Relabelled old new report.results report'.results := by
  intro s t
  have linked : s.Linked := Linked.after source library ops
  have pruned : s.Pruned := Pruned.after source library ops
  obtain ⟨c, editable, linked', result⟩ := update_renaming linked unread ok
  have dateless' : (s.edited old (.renaming new) c).Dateless :=
    dateless.edited editable fun _ hf => (by cases hf)
  obtain ⟨cache, report, computed, solution, -⟩ := exists_solution linked dateless
  obtain ⟨cache', report', computed', solution', -⟩ := exists_solution linked' dateless'
  have moved := entries_moved editable
  rw [← calculations_renaming editable, target_renaming] at moved
  simp only [t, s, result]
  refine ⟨moved, relabelled_cache pruned editable, report, report', ?_, ?_, ?_⟩
  · rw [computed]
  · rw [computed']
  · exact relabelled_results linked dateless apart listed unread editable linked' solution solution'

def ranked : List Operation :=
  [.add "a" ⟨0, "a", .atom (.field "v"), true⟩, .add "g" ⟨1, "g", .group ["a"] .count none, true⟩,
    .add "r" ⟨2, "r", .rank ["a", "g"] false false, true⟩]

set_option maxRecDepth 10000 in
theorem renaming_relabels_ranked :
    let s := (ofSource twoRows .standard).after ranked
    let t := (s.update "a" (.renaming "b")).2
    t.calculations.keys = ["b", "g", "r"] ∧ t.cache.keys = ["b", "g", "r"] ∧
      ∃ report report', s.executeAll.1 = .ok report ∧ t.executeAll.1 = .ok report' ∧
        Relabelled "a" "b" report.results report'.results := by
  intro s t
  have admitted : (ofSource twoRows .standard).Allows Admits ranked := ⟨rfl, rfl, rfl, trivial⟩
  have current : s.Current := Current.after (Dataset.listed_ofRows _) .standard admitted
  have unread : ∀ x, ¬ s.Reads x "b" := by
    rintro x ⟨c, hc, hr⟩
    have all : s.calculations.entries.all (fun e => !e.2.formula.reads.contains "b") = true := by
      decide +kernel
    have none := List.all_eq_true.1 all (x, c) ((Keyed.get?_eq_some_iff _ _ _).1 hc)
    rw [Std.ExtTreeSet.contains_iff_mem.2 hr] at none
    cases none
  have ok : (s.update "a" (.renaming "b")).1 = .ok () := by decide +kernel
  have whole := renaming_relabels twoRows .standard ranked "a" "b" current.listed
    current.apart current.dateless unread ok
  exact ⟨by decide +kernel, by decide +kernel, whole.2.2⟩

end Sheet

end DerivedColumns
