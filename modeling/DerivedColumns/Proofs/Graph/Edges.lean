import DerivedColumns.Formula.Reads
import DerivedColumns.Graph.Basic

set_option autoImplicit false

namespace DerivedColumns

theorem Names.mem_ofList (names : List String) (name : String) :
    name ∈ Names.ofList names ↔ name ∈ names := by
  simp [Names.ofList, Std.ExtTreeSet.mem_ofList]

theorem ByName.mem_iff {α : Type} (m : ByName α) (name : String) :
    name ∈ m ↔ ∃ a, m[name]? = some a := by
  rw [Std.ExtTreeMap.mem_iff_isSome_getElem?, Option.isSome_iff_exists]

theorem ByName.mem_congr {α : Type} {m m' : ByName α} {name name' : String}
    (h : m'[name']? = m[name]?) : name' ∈ m' ↔ name ∈ m := by
  rw [mem_iff, mem_iff, h]

namespace DependencyGraph

variable {g : DependencyGraph}

def Edge (g : DependencyGraph) (column name : String) : Prop := name ∈ g.readsOf column

theorem edge_iff (g : DependencyGraph) (column name : String) :
    g.Edge column name ↔ ∃ reads, g.entries[column]? = some reads ∧ name ∈ reads := by
  unfold Edge readsOf reads?
  cases g.entries[column]? with
  | none => simp
  | some reads => simp

theorem contains_iff (g : DependencyGraph) (column : String) :
    g.contains column = true ↔ ∃ reads, g.entries[column]? = some reads := by
  unfold contains
  rw [← Option.isSome_iff_exists, Std.ExtTreeMap.isSome_getElem?_eq_contains]

theorem mem_columns (g : DependencyGraph) (column : String) :
    column ∈ g.columns ↔ g.contains column = true := by
  simp [columns, contains]

theorem Edge.contains {column name : String} (h : g.Edge column name) :
    g.contains column = true := by
  obtain ⟨reads, hr, -⟩ := (edge_iff g column name).1 h
  exact (contains_iff g column).2 ⟨reads, hr⟩

theorem nodup_columns (g : DependencyGraph) : g.columns.Nodup := by
  have h := g.entries.distinct_keys
  exact h.imp fun hne heq => hne (Std.compare_eq_iff_eq.2 heq)

theorem mem_readers (g : DependencyGraph) (name column : String) :
    column ∈ g.readers name ↔ g.Edge column name := by
  rw [edge_iff, readers, Std.ExtTreeMap.mem_keys, Std.ExtTreeMap.mem_iff_isSome_getElem?,
    Std.ExtTreeMap.getElem?_filter]
  cases g.entries[column]? with
  | none => simp
  | some reads =>
    change (Option.pfilter (some reads) fun _ _ => reads.contains name).isSome = true ↔ _
    have member : reads.contains name = true ↔ name ∈ reads := Std.ExtTreeSet.contains_iff_mem
    cases h : reads.contains name
    · have : name ∉ reads := fun hm => by simp [member.2 hm] at h
      simp [Option.pfilter, this]
    · simp [Option.pfilter, member.1 h]

theorem edge_set (g : DependencyGraph) (column : String) (reads : Names) (c n : String) :
    (g.set column reads).Edge c n ↔ if c = column then n ∈ reads else g.Edge c n := by
  rw [edge_iff, edge_iff, set, Std.ExtTreeMap.getElem?_insert]
  by_cases h : c = column
  · simp [h]
  · have : compare column c ≠ .eq := fun e => h (Std.compare_eq_iff_eq.1 e).symm
    simp [h, this]

theorem contains_set (g : DependencyGraph) (column : String) (reads : Names) (c : String) :
    (g.set column reads).contains c = true ↔ c = column ∨ g.contains c = true := by
  simp only [contains, set, Std.ExtTreeMap.contains_insert, Bool.or_eq_true, beq_iff_eq,
    Std.compare_eq_iff_eq]
  exact or_congr_left eq_comm

theorem edge_link (g : DependencyGraph) (column name c n : String) :
    (g.link column name).Edge c n ↔ (c = column ∧ n = name) ∨ g.Edge c n := by
  rw [link, edge_set]
  by_cases h : c = column
  · subst h
    unfold Edge readsOf
    simp only [if_true, true_and, Std.ExtTreeSet.mem_insert, Std.compare_eq_iff_eq,
      Std.ExtTreeSet.mem_toList]
    exact or_congr_left eq_comm
  · simp [h]

theorem contains_link (g : DependencyGraph) (column name c : String) :
    (g.link column name).contains c = true ↔ c = column ∨ g.contains c = true := by
  rw [link, contains_set]

theorem edge_remove (g : DependencyGraph) (column c n : String) :
    (g.remove column).Edge c n ↔ c ≠ column ∧ g.Edge c n := by
  rw [edge_iff, edge_iff, remove, Std.ExtTreeMap.getElem?_erase]
  by_cases h : c = column
  · simp [h]
  · have : compare column c ≠ .eq := fun e => h (Std.compare_eq_iff_eq.1 e).symm
    simp [h, this]

theorem contains_remove (g : DependencyGraph) (column c : String) :
    (g.remove column).contains c = true ↔ c ≠ column ∧ g.contains c = true := by
  simp only [contains, remove, Std.ExtTreeMap.contains_erase, Bool.and_eq_true, bne_iff_ne, ne_eq,
    Std.compare_eq_iff_eq]
  exact and_congr_left' (not_congr eq_comm)

theorem edge_strip (g : DependencyGraph) (name c n : String) :
    (g.strip name).Edge c n ↔ n ≠ name ∧ g.Edge c n := by
  rw [edge_iff, edge_iff, strip, Std.ExtTreeMap.getElem?_map]
  cases g.entries[c]? with
  | none => simp
  | some reads =>
    simp only [Option.map_some, Option.some.injEq, exists_eq_left', Std.ExtTreeSet.mem_erase,
      ne_eq, Std.compare_eq_iff_eq]
    exact and_congr_left fun _ => not_congr eq_comm

theorem contains_strip (g : DependencyGraph) (name c : String) :
    (g.strip name).contains c = g.contains c := by
  simp [contains, strip]

theorem edge_move (g : DependencyGraph) {old new : String} (hn : g.contains new = false)
    (hne : new ≠ old) (c n : String) :
    (g.move old new).Edge c n ↔ ∃ b, Formula.substitute old new b = c ∧ g.Edge b n := by
  have fresh : ∀ m, ¬ g.Edge new m := fun m h => by simp [h.contains] at hn
  unfold move reads?
  cases hold : g.entries[old]? with
  | none =>
    have gone : ∀ m, ¬ g.Edge old m := by simp [edge_iff, hold]
    constructor
    · intro h
      have : c ≠ old := fun e => gone n (e ▸ h)
      exact ⟨c, if_neg this, h⟩
    · rintro ⟨b, rfl, h⟩
      have : b ≠ old := fun e => gone n (e ▸ h)
      simpa [Formula.substitute, this] using h
  | some reads =>
    have moved : ∀ m, g.Edge old m ↔ m ∈ reads := by simp [edge_iff, hold]
    simp only [edge_set, edge_remove]
    by_cases hc : c = new
    · subst hc
      rw [if_pos rfl, ← moved]
      constructor
      · intro h; exact ⟨old, if_pos rfl, h⟩
      · rintro ⟨b, hb, h⟩
        unfold Formula.substitute at hb
        split at hb
        · rename_i e; exact e ▸ h
        · exact absurd (hb ▸ h) (fresh n)
    · rw [if_neg hc]
      constructor
      · rintro ⟨ho, h⟩; exact ⟨c, if_neg ho, h⟩
      · rintro ⟨b, hb, h⟩
        unfold Formula.substitute at hb
        split at hb
        · exact absurd hb.symm hc
        · rename_i hb'; exact ⟨hb ▸ hb', hb ▸ h⟩

theorem contains_move (g : DependencyGraph) {old new : String} (ho : g.contains old = true)
    (c : String) :
    (g.move old new).contains c = true ↔ c = new ∨ (c ≠ old ∧ g.contains c = true) := by
  obtain ⟨reads, hr⟩ := (contains_iff g old).1 ho
  have : g.reads? old = some reads := hr
  simp only [move, this, contains_set, contains_remove]

theorem edge_rename (g : DependencyGraph) {old new : String} (hn : g.contains new = false)
    (hne : new ≠ old) (c n : String) :
    (g.rename old new).Edge c n ↔ ∃ b m, Formula.substitute old new b = c ∧
      Formula.substitute old new m = n ∧ g.Edge b m := by
  have step : (g.rename old new).Edge c n ↔
      ∃ m, Formula.substitute old new m = n ∧ (g.move old new).Edge c m := by
    simp only [edge_iff, rename, Std.ExtTreeMap.getElem?_map]
    cases (g.move old new).entries[c]? with
    | none => simp
    | some reads =>
      have renamed : n ∈ (if reads.contains old = true then (reads.erase old).insert new else reads) ↔
          ∃ m, Formula.substitute old new m = n ∧ m ∈ reads := by
        unfold Formula.substitute
        split
        · rename_i ho
          have hold : old ∈ reads := ho
          simp only [Std.ExtTreeSet.mem_insert, Std.ExtTreeSet.mem_erase, Std.compare_eq_iff_eq,
            ne_eq]
          grind
        · rename_i ho
          have hold : old ∉ reads := ho
          grind
      simpa using renamed
  rw [step]
  constructor
  · rintro ⟨m, hm, h⟩
    obtain ⟨b, hb, h⟩ := (edge_move g hn hne c m).1 h
    exact ⟨b, m, hb, hm, h⟩
  · rintro ⟨b, m, hb, hm, h⟩
    exact ⟨m, hm, (edge_move g hn hne c m).2 ⟨b, hb, h⟩⟩

theorem contains_rename (g : DependencyGraph) {old new : String} (ho : g.contains old = true)
    (c : String) :
    (g.rename old new).contains c = true ↔ c = new ∨ (c ≠ old ∧ g.contains c = true) := by
  rw [← contains_move g ho]
  simp [contains, rename]

end DependencyGraph

end DerivedColumns
