import DerivedColumns.Proofs.Graph.Edges

set_option autoImplicit false

namespace DerivedColumns

namespace Formula

theorem substitute_self (name n : String) : substitute name name n = n := by
  unfold substitute
  split
  · rename_i h; exact h.symm
  · rfl

theorem substitute_substitute {old new name : String} (h : name ≠ new) :
    substitute new old (substitute old new name) = name := by
  by_cases own : name = old
  · rw [own, substitute, substitute, if_pos rfl, if_pos rfl]
  · rw [substitute, substitute, if_neg own, if_neg h]

theorem forall_mem_union {a b : Names} {P : String → Prop} :
    (∀ x ∈ a ∪ b, P x) ↔ (∀ x ∈ a, P x) ∧ ∀ x ∈ b, P x := by
  simp only [Std.ExtTreeSet.mem_union_iff, or_imp, forall_and]

theorem forall_mem_ofList {names : List String} {P : String → Prop} :
    (∀ x ∈ Names.ofList names, P x) ↔ ∀ x ∈ names, P x := by
  simp only [Names.mem_ofList]

theorem map_names_eq_self {change : String → String} {names : List String}
    (h : ∀ x ∈ names, change x = x) : names.map change = names :=
  (List.map_congr_left h).trans (List.map_id' names)

theorem map_field_eq_self {change : String → String} {field : Option String}
    (h : ∀ x ∈ field.toList, change x = x) : field.map change = field := by
  cases field with
  | none => rfl
  | some x => exact congrArg some (h x List.mem_cons_self)

theorem isWhole_rename (old new : String) (f : Formula) :
    (f.rename old new).isWhole = f.isWhole := by
  cases f with
  | atom a => cases a <;> rfl
  | _ => rfl

mutual

/-- A renaming that keeps every name that is read keeps the formula. -/
theorem rename_eq_self {old new : String} : (f : Formula) →
    (∀ x ∈ f.reads, substitute old new x = x) → f.rename old new = f
  | .atom (.field n), h => by rw [rename, forall_mem_ofList.1 h n List.mem_cons_self]
  | .atom (.number _), _ | .atom (.text _), _ | .atom (.bool _), _ | .atom .null, _ => rfl
  | .binary _ l r, h => by
    rw [reads, forall_mem_union] at h
    rw [rename, rename_eq_self l h.1, rename_eq_self r h.2]
  | .unary _ x, h => by rw [rename, rename_eq_self x h]
  | .choice c t f, h => by
    rw [reads, forall_mem_union, forall_mem_union] at h
    rw [rename, rename_eq_self c h.1.1, rename_eq_self t h.1.2, rename_eq_self f h.2]
  | .call _ args, h => by rw [rename, renameAll_eq_self args h]
  | .group keys _ field, h => by
    rw [reads, forall_mem_ofList, List.forall_mem_append] at h
    rw [rename, map_names_eq_self h.1, map_field_eq_self h.2]
  | .rank keys _ _, h => by rw [rename, map_names_eq_self (forall_mem_ofList.1 h)]
  | .analysis _ inputs _, h => by rw [rename, map_names_eq_self (forall_mem_ofList.1 h)]

theorem renameAll_eq_self {old new : String} : (fs : List Formula) →
    (∀ x ∈ readsAll fs, substitute old new x = x) → renameAll old new fs = fs
  | [], _ => rfl
  | f :: fs, h => by
    rw [readsAll, forall_mem_union] at h
    rw [renameAll, rename_eq_self f h.1, renameAll_eq_self fs h.2]

end

theorem rename_self (name : String) (f : Formula) : f.rename name name = f :=
  rename_eq_self f fun x _ => substitute_self name x

theorem renameAll_self (name : String) (fs : List Formula) : renameAll name name fs = fs :=
  renameAll_eq_self fs fun x _ => substitute_self name x

theorem rename_of_not_mem {old : String} (new : String) (f : Formula) (h : old ∉ f.reads) :
    f.rename old new = f := by
  refine rename_eq_self f fun x hx => ?_
  have : x ≠ old := fun e => h (e ▸ hx)
  exact if_neg this

mutual

theorem rename_rename_eq_self {old new old' new' : String} : (f : Formula) →
    (∀ x ∈ f.reads, substitute old' new' (substitute old new x) = x) →
    (f.rename old new).rename old' new' = f
  | .atom (.field n), h => by rw [rename, rename, forall_mem_ofList.1 h n List.mem_cons_self]
  | .atom (.number _), _ | .atom (.text _), _ | .atom (.bool _), _ | .atom .null, _ => rfl
  | .binary _ l r, h => by
    rw [reads, forall_mem_union] at h
    rw [rename, rename, rename_rename_eq_self l h.1, rename_rename_eq_self r h.2]
  | .unary _ x, h => by rw [rename, rename, rename_rename_eq_self x h]
  | .choice c t f, h => by
    rw [reads, forall_mem_union, forall_mem_union] at h
    rw [rename, rename, rename_rename_eq_self c h.1.1, rename_rename_eq_self t h.1.2,
      rename_rename_eq_self f h.2]
  | .call _ args, h => by rw [rename, rename, renameAll_renameAll_eq_self args h]
  | .group keys _ field, h => by
    rw [reads, forall_mem_ofList, List.forall_mem_append] at h
    rw [rename, rename, List.map_map, Option.map_map, Function.comp_def, map_names_eq_self h.1,
      map_field_eq_self h.2]
  | .rank keys _ _, h => by
    rw [rename, rename, List.map_map, Function.comp_def, map_names_eq_self (forall_mem_ofList.1 h)]
  | .analysis _ inputs _, h => by
    rw [rename, rename, List.map_map, Function.comp_def, map_names_eq_self (forall_mem_ofList.1 h)]

theorem renameAll_renameAll_eq_self {old new old' new' : String} : (fs : List Formula) →
    (∀ x ∈ readsAll fs, substitute old' new' (substitute old new x) = x) →
    renameAll old' new' (renameAll old new fs) = fs
  | [], _ => rfl
  | f :: fs, h => by
    rw [readsAll, forall_mem_union] at h
    rw [renameAll, renameAll, rename_rename_eq_self f h.1, renameAll_renameAll_eq_self fs h.2]

end

theorem rename_rename (old : String) {new : String} {f : Formula} (h : new ∉ f.reads) :
    (f.rename old new).rename new old = f := by
  refine rename_rename_eq_self f fun x hx => ?_
  exact substitute_substitute fun e => h (e ▸ hx)

mutual

theorem mem_reads_rename (old new : String) (x : String) : (f : Formula) →
    (x ∈ (f.rename old new).reads ↔ ∃ y ∈ f.reads, substitute old new y = x)
  | .atom (.field n) => by
    simp [rename, reads, Atom.reads, Names.mem_ofList, eq_comm]
  | .atom (.number _) | .atom (.text _) | .atom (.bool _) | .atom .null => by
    simp [rename, reads, Atom.reads]
  | .binary _ l r => by
    simp only [rename, reads, Std.ExtTreeSet.mem_union_iff, mem_reads_rename old new x l,
      mem_reads_rename old new x r, or_and_right, exists_or]
  | .unary _ y => by simp only [rename, reads, mem_reads_rename old new x y]
  | .choice c t f => by
    simp only [rename, reads, Std.ExtTreeSet.mem_union_iff, mem_reads_rename old new x c,
      mem_reads_rename old new x t, mem_reads_rename old new x f, or_and_right, exists_or]
  | .call _ args => by simp only [rename, reads, mem_readsAll_renameAll old new x args]
  | .group keys _ field => by
    have moved : keys.map (substitute old new) ++ (field.map (substitute old new)).toList =
        (keys ++ field.toList).map (substitute old new) := by
      cases field <;> simp
    simp only [rename, reads, Names.mem_ofList, moved, List.mem_map]
  | .rank keys _ _ => by simp only [rename, reads, Names.mem_ofList, List.mem_map]
  | .analysis _ inputs _ => by simp only [rename, reads, Names.mem_ofList, List.mem_map]

theorem mem_readsAll_renameAll (old new : String) (x : String) : (fs : List Formula) →
    (x ∈ readsAll (renameAll old new fs) ↔ ∃ y ∈ readsAll fs, substitute old new y = x)
  | [] => by simp [renameAll, readsAll]
  | f :: fs => by
    simp only [renameAll, readsAll, Std.ExtTreeSet.mem_union_iff, mem_reads_rename old new x f,
      mem_readsAll_renameAll old new x fs, or_and_right, exists_or]

end

theorem reads_rename (old new : String) (f : Formula) :
    (f.rename old new).reads = Names.ofList (f.reads.toList.map (substitute old new)) := by
  apply Std.ExtTreeSet.ext_mem
  intro x
  rw [mem_reads_rename, Names.mem_ofList, List.mem_map]
  simp only [Std.ExtTreeSet.mem_toList]

mutual

theorem height_rename (old new : String) : (f : Formula) → (f.rename old new).height = f.height
  | .atom (.field _) | .atom (.number _) | .atom (.text _) | .atom (.bool _) | .atom .null => rfl
  | .binary _ l r => by
    rw [rename, height, height, height_rename old new l, height_rename old new r]
  | .unary _ x => by rw [rename, height, height, height_rename old new x]
  | .choice c t f => by
    rw [rename, height, height, height_rename old new c, height_rename old new t,
      height_rename old new f]
  | .call _ args => by rw [rename, height, height, heightAll_renameAll old new args]
  | .group .. | .rank .. | .analysis .. => rfl

theorem heightAll_renameAll (old new : String) : (fs : List Formula) →
    heightAll (renameAll old new fs) = heightAll fs
  | [] => rfl
  | f :: fs => by
    rw [renameAll, heightAll, heightAll, height_rename old new f, heightAll_renameAll old new fs]

end

end Formula

end DerivedColumns
