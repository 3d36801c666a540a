set_option autoImplicit false

namespace DerivedColumns

structure Keyed (α : Type) where
  entries : List (String × α)
  nodup : (entries.map Prod.fst).Nodup

namespace Keyed

variable {α β : Type}

def empty : Keyed α := ⟨[], List.nodup_nil⟩

instance : EmptyCollection (Keyed α) := ⟨empty⟩

instance : Inhabited (Keyed α) := ⟨empty⟩

def keys (d : Keyed α) : List String := d.entries.map Prod.fst

def values (d : Keyed α) : List α := d.entries.map Prod.snd

def get? (d : Keyed α) (name : String) : Option α := d.entries.lookup name

def contains (d : Keyed α) (name : String) : Bool := d.keys.contains name

def put (name : String) (a : α) : List (String × α) → List (String × α)
  | [] => [(name, a)]
  | (k, b) :: rest => if k = name then (name, a) :: rest else (k, b) :: put name a rest

theorem mem_keys_put (name : String) (a : α) (l : List (String × α)) (k : String) :
    k ∈ (put name a l).map Prod.fst ↔ k = name ∨ k ∈ l.map Prod.fst := by
  induction l with
  | nil => simp [put]
  | cons e rest ih =>
    obtain ⟨k', b⟩ := e
    by_cases h : k' = name
    · subst h; simp [put]
    · simp only [put, if_neg h, List.map_cons, List.mem_cons, ih]
      constructor <;> intro hk <;> rcases hk with hk | hk | hk <;> simp [hk]

theorem nodup_keys_put (name : String) (a : α) (l : List (String × α))
    (h : (l.map Prod.fst).Nodup) : ((put name a l).map Prod.fst).Nodup := by
  induction l with
  | nil => simp [put]
  | cons e rest ih =>
    obtain ⟨k, b⟩ := e
    simp only [List.map_cons, List.nodup_cons] at h
    by_cases hk : k = name
    · subst hk; simpa [put] using h
    · simp only [put, if_neg hk, List.map_cons, List.nodup_cons, mem_keys_put]
      exact ⟨fun hm => hm.elim hk h.1, ih h.2⟩

def insert (d : Keyed α) (name : String) (a : α) : Keyed α :=
  ⟨put name a d.entries, nodup_keys_put name a d.entries d.nodup⟩

def erase (d : Keyed α) (name : String) : Keyed α :=
  ⟨d.entries.filter fun e => e.1 != name,
    d.nodup.sublist (List.filter_sublist.map Prod.fst)⟩

/-- Entries written one after the other: of two with the same name the later value stays, in the
earlier place. -/
def ofList (entries : List (String × α)) : Keyed α :=
  entries.foldl (fun d e => d.insert e.1 e.2) empty

def map (f : String → α → β) (d : Keyed α) : Keyed β :=
  ⟨d.entries.map fun e => (e.1, f e.1 e.2), by
    rw [List.map_map]; exact d.nodup⟩

def filter (p : String → α → Bool) (d : Keyed α) : Keyed α :=
  ⟨d.entries.filter fun e => p e.1 e.2, d.nodup.sublist (List.filter_sublist.map Prod.fst)⟩

theorem nodup_rename {l : List (String × α)} (old new : String) (h : (l.map Prod.fst).Nodup)
    (hn : new ∉ l.map Prod.fst) :
    ((l.map fun e => (if e.1 = old then new else e.1, e.2)).map Prod.fst).Nodup := by
  induction l with
  | nil => simp
  | cons e rest ih =>
    obtain ⟨k, b⟩ := e
    simp only [List.map_cons, List.nodup_cons, List.mem_cons, not_or] at h hn ⊢
    refine ⟨?_, ih h.2 hn.2⟩
    simp only [List.map_map, List.mem_map, Function.comp]
    rintro ⟨e, he, hk⟩
    have hmem : e.1 ∈ rest.map Prod.fst := List.mem_map_of_mem he
    split at hk <;> split at hk
    · rename_i h1 h2; exact h.1 (h2 ▸ h1 ▸ hmem)
    · exact hn.1 hk
    · exact hn.2 (hk ▸ hmem)
    · exact h.1 (hk ▸ hmem)

/-- Gives the entry `old` the free name `new` and leaves it in its place. A name in use changes
nothing. -/
def rename (d : Keyed α) (old new : String) : Keyed α :=
  if h : new ∈ d.entries.map Prod.fst then d
  else ⟨_, nodup_rename old new d.nodup h⟩

end Keyed

end DerivedColumns
