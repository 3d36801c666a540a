import Mathlib.Data.List.Perm.Subperm
import Std.Data.ExtTreeMap.Lemmas

set_option autoImplicit false

namespace DerivedColumns

variable {α : Type} [BEq α] [LawfulBEq α]

theorem nodup_eraseDups (as : List α) : as.eraseDups.Nodup := by
  match as with
  | [] => simp
  | a :: more =>
    rw [List.eraseDups_cons, List.nodup_cons]
    exact ⟨by simp [List.mem_eraseDups], nodup_eraseDups _⟩
termination_by as.length
decreasing_by
  have := List.length_filter_le (fun b => !b == a) more
  simp only [List.length_cons]
  omega

theorem length_eraseDups_le (as : List α) : as.eraseDups.length ≤ as.length :=
  ((nodup_eraseDups as).subperm fun _ => List.mem_eraseDups.1).length_le

theorem eraseDups_concat [DecidableEq α] (as : List α) (a : α) :
    (as ++ [a]).eraseDups = if a ∈ as then as.eraseDups else as.eraseDups ++ [a] := by
  rw [List.eraseDups_append]
  by_cases seen : a ∈ as
  · simp [List.removeAll, seen]
  · simp [List.removeAll, seen, List.eraseDups_cons]

theorem getElem?_ofList {κ β : Type} [Ord κ] [Std.TransOrd κ] [Std.LawfulEqOrd κ] {entries : List (κ × β)}
    (distinct : (entries.map Prod.fst).Nodup) {k : κ} {v : β} (h : (k, v) ∈ entries) :
    (Std.ExtTreeMap.ofList entries)[k]? = some v := by
  refine Std.ExtTreeMap.getElem?_ofList_of_mem Std.ReflCmp.compare_self ?_ h
  exact (List.pairwise_map.1 distinct).imp fun apart same => apart (Std.LawfulEqCmp.eq_of_compare same)

end DerivedColumns
