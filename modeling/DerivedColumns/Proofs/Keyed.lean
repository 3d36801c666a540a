import DerivedColumns.Keyed

set_option autoImplicit false

namespace DerivedColumns.Keyed

variable {α β : Type}

theorem get?_eq_some_iff (d : Keyed α) (name : String) (a : α) :
    d.get? name = some a ↔ (name, a) ∈ d.entries := by
  obtain ⟨entries, nodup⟩ := d
  simp only [get?]
  induction entries with
  | nil => simp
  | cons e rest ih =>
    obtain ⟨k, b⟩ := e
    simp only [List.map_cons, List.nodup_cons] at nodup
    simp only [List.lookup_cons, List.mem_cons, Prod.mk.injEq]
    by_cases h : name = k
    · subst h
      have hrest : (name, a) ∉ rest := fun hm => nodup.1 (List.mem_map_of_mem hm)
      simp [hrest, eq_comm]
    · have hk : (name == k) = false := by simpa using h
      simp only [hk, h, false_and, false_or]
      exact ih nodup.2

theorem mem_keys_iff (d : Keyed α) (name : String) :
    name ∈ d.keys ↔ ∃ a, d.get? name = some a := by
  simp only [keys, List.mem_map, get?_eq_some_iff]
  constructor
  · rintro ⟨⟨_, a⟩, hm, rfl⟩
    exact ⟨a, hm⟩
  · rintro ⟨a, hm⟩
    exact ⟨(name, a), hm, rfl⟩

theorem mem_keys_of_get? {d : Keyed α} {name : String} {a : α} (h : d.get? name = some a) :
    name ∈ d.keys :=
  (mem_keys_iff d name).2 ⟨a, h⟩

theorem get?_eq_none_iff (d : Keyed α) (name : String) : d.get? name = none ↔ name ∉ d.keys := by
  rw [mem_keys_iff]
  cases d.get? name <;> simp

theorem contains_iff (d : Keyed α) (name : String) : d.contains name = true ↔ name ∈ d.keys :=
  List.contains_iff_mem

theorem get?_eq_of_mem_iff {d : Keyed α} {e : Keyed β} {j k : String} (f : α → β)
    (h : ∀ b, (k, b) ∈ e.entries ↔ ∃ a, (j, a) ∈ d.entries ∧ b = f a) :
    e.get? k = (d.get? j).map f := by
  cases hd : d.get? j with
  | some a =>
    rw [get?_eq_some_iff] at hd
    exact (get?_eq_some_iff e k (f a)).2 ((h (f a)).2 ⟨a, hd, rfl⟩)
  | none =>
    rw [Option.map_none, get?_eq_none_iff, mem_keys_iff]
    rintro ⟨b, hb⟩
    obtain ⟨a, ha, -⟩ := (h b).1 ((get?_eq_some_iff e k b).1 hb)
    rw [← get?_eq_some_iff, hd] at ha
    cases ha

theorem lookup_put (name : String) (a : α) (entries : List (String × α)) (k : String) :
    (put name a entries).lookup k = if k = name then some a else entries.lookup k := by
  induction entries with
  | nil => simp only [put, List.lookup_cons, List.lookup_nil]; split <;> simp_all
  | cons e rest ih =>
    obtain ⟨j, b⟩ := e
    by_cases hj : j = name
    · subst hj
      simp only [put, if_true, List.lookup_cons]
      by_cases hk : k = j
      · simp [hk]
      · have : (k == j) = false := by simpa using hk
        simp [hk, this]
    · simp only [put, if_neg hj, List.lookup_cons, ih]
      by_cases hk : k = j
      · subst hk; simp [hj]
      · have : (k == j) = false := by simpa using hk
        simp [this]

theorem get?_insert (d : Keyed α) (name : String) (a : α) (k : String) :
    (d.insert name a).get? k = if k = name then some a else d.get? k :=
  lookup_put name a d.entries k

theorem put_of_lookup {name : String} {a : α} {entries : List (String × α)}
    (h : entries.lookup name = some a) : put name a entries = entries := by
  induction entries with
  | nil => cases h
  | cons e rest ih =>
    obtain ⟨k, b⟩ := e
    rw [List.lookup_cons] at h
    by_cases hk : k = name
    · subst hk
      rw [BEq.rfl] at h
      cases h
      exact if_pos rfl
    · rw [beq_false_of_ne (Ne.symm hk)] at h
      rw [put, if_neg hk, ih h]

theorem insert_of_get? {d : Keyed α} {name : String} {a : α} (h : d.get? name = some a) :
    d.insert name a = d := by
  obtain ⟨entries, nodup⟩ := d
  rw [insert, Keyed.mk.injEq]
  exact put_of_lookup h

theorem get?_erase (d : Keyed α) (name k : String) :
    (d.erase name).get? k = if k = name then none else d.get? k := by
  split
  · rename_i h
    rw [get?_eq_none_iff]
    simp [keys, erase, h]
  · rename_i h
    have := get?_eq_of_mem_iff (d := d) (e := d.erase name) (j := k) (k := k) id
      (by intro b; simp [erase, h])
    simpa using this

theorem get?_map (f : String → α → β) (d : Keyed α) (k : String) :
    (d.map f).get? k = (d.get? k).map (f k) := by
  apply get?_eq_of_mem_iff
  intro b
  simp only [map, List.mem_map, Prod.mk.injEq, Prod.exists]
  constructor
  · rintro ⟨_, a, hm, rfl, rfl⟩
    exact ⟨a, hm, rfl⟩
  · rintro ⟨a, hm, rfl⟩
    exact ⟨k, a, hm, rfl, rfl⟩

theorem entries_rename (d : Keyed α) (old : String) {new : String} (hn : new ∉ d.keys) :
    (d.rename old new).entries =
      d.entries.map fun e => (if e.1 = old then new else e.1, e.2) := by
  unfold rename
  exact congrArg entries (dif_neg hn)

/-- The entries other than `new` are found at their names after renaming. -/
theorem get?_rename_of_ne (d : Keyed α) (old : String) {new k : String} (hn : new ∉ d.keys)
    (hk : k ≠ new) : (d.rename old new).get? (if k = old then new else k) = d.get? k := by
  rw [get?_eq_of_mem_iff (d := d) (j := k) id]
  · exact Option.map_id_apply
  · intro b
    rw [entries_rename d old hn]
    simp only [List.mem_map, Prod.mk.injEq, Prod.exists, id]
    constructor
    · rintro ⟨j, a, hm, hj, rfl⟩
      have hjn : j ≠ new := fun h => hn (h ▸ List.mem_map_of_mem hm)
      have : j = k := by grind
      exact ⟨a, this ▸ hm, rfl⟩
    · rintro ⟨_, hm, rfl⟩
      exact ⟨k, b, hm, rfl, rfl⟩

theorem get?_rename_old (d : Keyed α) {old new : String} (hn : new ∉ d.keys) (hne : new ≠ old) :
    (d.rename old new).get? old = none := by
  rw [get?_eq_none_iff, keys, entries_rename d old hn]
  simp only [List.map_map, List.mem_map, Function.comp, not_exists, not_and]
  intro e _ he
  split at he
  · exact hne he
  · rename_i h; exact h he

theorem keys_put (name : String) (a : α) (entries : List (String × α)) :
    (put name a entries).map Prod.fst =
      if name ∈ entries.map Prod.fst then entries.map Prod.fst else entries.map Prod.fst ++ [name] := by
  induction entries with
  | nil => rfl
  | cons e rest ih =>
    by_cases own : e.1 = name
    · simp [put, own]
    · simp only [put, if_neg own, List.map_cons, ih, List.mem_cons, Ne.symm own, false_or]
      split <;> rfl

theorem keys_insert (d : Keyed α) (name : String) (a : α) :
    (d.insert name a).keys = if name ∈ d.keys then d.keys else d.keys ++ [name] :=
  keys_put name a d.entries

theorem entries_eq_map {d : Keyed α} {f : String → α} (h : ∀ name ∈ d.keys, d.get? name = some (f name)) :
    d.entries = d.keys.map fun name => (name, f name) := by
  rw [keys, List.map_map]
  refine (List.map_id _).symm.trans (List.map_congr_left fun e he => ?_)
  have read := h e.1 (List.mem_map_of_mem he)
  rw [(get?_eq_some_iff d e.1 e.2).2 he] at read
  exact Prod.ext rfl (Option.some.inj read)

theorem mem_keys_insert (d : Keyed α) (name : String) (a : α) (k : String) :
    k ∈ (d.insert name a).keys ↔ k = name ∨ k ∈ d.keys :=
  mem_keys_put name a d.entries k

theorem mem_keys_erase (d : Keyed α) (name k : String) :
    k ∈ (d.erase name).keys ↔ k ≠ name ∧ k ∈ d.keys := by
  rw [mem_keys_iff, mem_keys_iff, get?_erase]
  by_cases h : k = name <;> simp [h]

theorem mem_keys_foldl_insert {γ : Type} (name : γ → String) (value : γ → α) (items : List γ)
    (d : Keyed α) (k : String) :
    k ∈ (items.foldl (fun d item => d.insert (name item) (value item)) d).keys ↔
      k ∈ items.map name ∨ k ∈ d.keys := by
  induction items generalizing d with
  | nil => simp
  | cons item items ih =>
    rw [List.foldl_cons, ih, mem_keys_insert, List.map_cons, List.mem_cons]
    grind

theorem get?_ofList {entries : List (String × α)} (nodup : (entries.map Prod.fst).Nodup) (k : String) :
    (ofList entries).get? k = entries.lookup k := by
  have onto : ∀ d : Keyed α, (entries.foldl (fun d e => d.insert e.1 e.2) d).get? k =
      (entries.lookup k).or (d.get? k) := by
    induction entries with
    | nil => exact fun _ => rfl
    | cons e rest ih =>
      intro d
      rw [List.map_cons, List.nodup_cons] at nodup
      rw [List.foldl_cons, ih nodup.2, get?_insert, List.lookup_cons]
      by_cases own : k = e.1
      · have last : rest.lookup k = none := by
          rw [List.lookup_eq_none_iff]
          intro e' he'
          rw [bne_iff_ne]
          intro same
          exact nodup.1 (own ▸ same ▸ List.mem_map_of_mem he')
        rw [last, if_pos own, beq_iff_eq.2 own]
        rfl
      · rw [if_neg own, beq_eq_false_iff_ne.2 own]
  exact (onto empty).trans (Option.or_none ..)

end DerivedColumns.Keyed
