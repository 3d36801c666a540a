import DerivedColumns.Proofs.Distinct
import DerivedColumns.Proofs.Evaluation.Whole
import DerivedColumns.Proofs.Number.Whole
import DerivedColumns.Proofs.Value.Sorting

set_option autoImplicit false

namespace DerivedColumns.Evaluation

open Std (TransCmp OrientedCmp)

/-- The values by which a row is ranked. A missing field counts as null. -/
def tuple (keys : List String) (row : Row) : List Value := keys.map (fieldValue row.fields)

theorem rankCompare_lex (keys : List String) (a b : Row) :
    rankCompare keys a b = List.compareLex Value.sortCompare (tuple keys a) (tuple keys b) := by
  induction keys with
  | nil => rfl
  | cons name more ih =>
    rw [rankCompare, ih]
    exact List.compareLex_cons_cons.symm

instance (keys : List String) : TransCmp (rankCompare keys) where
  eq_swap := by
    intro a b
    rw [rankCompare_lex, rankCompare_lex]
    exact OrientedCmp.eq_swap
  isLE_trans := by
    intro a b c
    rw [rankCompare_lex, rankCompare_lex, rankCompare_lex]
    exact TransCmp.isLE_trans

/-- Of two rows with their positions, the first is ranked before the second. -/
def isAhead (keys : List String) (a b : Row × Nat) : Bool :=
  match List.compareLex Value.sortCompare (tuple keys a.1) (tuple keys b.1) with
  | .lt => true
  | .eq => a.2 < b.2
  | .gt => false

theorem isAhead_irrefl (keys : List String) (a : Row × Nat) : isAhead keys a a = false := by
  have same : rankCompare keys a.1 a.1 = .eq := Std.ReflCmp.compare_self
  unfold isAhead
  rw [← rankCompare_lex, same]
  exact decide_eq_false (Nat.lt_irrefl _)

def notAfter (keys : List String) (a b : Row) : Bool := rankCompare keys a b != .gt

theorem notAfter_iff {keys : List String} {a b : Row} :
    notAfter keys a b = true ↔ (rankCompare keys a b).isLE = true := by
  unfold notAfter
  cases rankCompare keys a b <;> decide

theorem notAfter_trans (keys : List String) (a b c : Row) (hab : notAfter keys a b = true)
    (hbc : notAfter keys b c = true) : notAfter keys a c = true :=
  notAfter_iff.2 (TransCmp.isLE_trans (notAfter_iff.1 hab) (notAfter_iff.1 hbc))

theorem notAfter_total (keys : List String) (a b : Row) :
    (notAfter keys a b || notAfter keys b a) = true := by
  have swap : rankCompare keys b a = (rankCompare keys a b).swap := OrientedCmp.eq_swap
  unfold notAfter
  rw [swap]
  cases rankCompare keys a b <;> decide

theorem isAhead_of_zipIdxLE {keys : List String} {a b : Row × Nat} (other : a.2 ≠ b.2)
    (h : List.zipIdxLE (notAfter keys) a b = true) : isAhead keys a b = true ∧ isAhead keys b a = false := by
  have swap : rankCompare keys b.1 a.1 = (rankCompare keys a.1 b.1).swap := OrientedCmp.eq_swap
  unfold List.zipIdxLE notAfter at h
  unfold isAhead
  rw [← rankCompare_lex, ← rankCompare_lex]
  rw [swap] at h ⊢
  cases order : rankCompare keys a.1 b.1 with
  | lt => exact ⟨rfl, rfl⟩
  | eq =>
    rw [order] at h
    have le : a.2 ≤ b.2 := of_decide_eq_true h
    exact ⟨decide_eq_true (by omega), decide_eq_false (by omega)⟩
  | gt =>
    rw [order] at h
    cases h

def ahead (keys : List String) (rows : List Row) (i : Fin rows.length) : Nat :=
  rows.zipIdx.countP fun other => isAhead keys other (rows[i], i)

theorem countP_getElem {α : Type} {before : α → α → Bool} (irrefl : ∀ a, before a a = false) {as : List α}
    (sorted : as.Pairwise fun a b => before a b = true ∧ before b a = false) {p : Nat} (h : p < as.length) :
    as.countP (fun a => before a as[p]) = p := by
  induction as generalizing p with
  | nil => cases h
  | cons a more ih =>
    obtain ⟨first, rest⟩ := List.pairwise_cons.1 sorted
    cases p with
    | zero =>
      rw [List.countP_eq_zero]
      intro b hb
      rcases List.mem_cons.1 hb with rfl | hb
      · simp [irrefl]
      · simp [(first b hb).2]
    | succ p =>
      have inside : p < more.length := Nat.lt_of_succ_lt_succ h
      have one : before a more[p] = true := (first _ (List.getElem_mem inside)).1
      simp only [List.getElem_cons_succ]
      rw [List.countP_cons, ih rest inside, if_pos one]

def rankedIdx (keys : List String) (rows : List Row) : List (Row × Nat) :=
  rows.zipIdx.mergeSort (List.zipIdxLE (notAfter keys))

section Rows

variable (keys : List String) (rows : List Row)

theorem map_rankedIdx : (rankedIdx keys rows).map Prod.fst = ranked keys rows := List.mergeSort_zipIdx

theorem ranked_perm : (ranked keys rows).Perm rows := List.mergeSort_perm _ _

theorem rankedIdx_perm : (rankedIdx keys rows).Perm rows.zipIdx := List.mergeSort_perm _ _

theorem length_rankedIdx : (rankedIdx keys rows).length = rows.length := by
  rw [(rankedIdx_perm keys rows).length_eq, List.length_zipIdx]

theorem pairwise_rankedIdx :
    (rankedIdx keys rows).Pairwise fun a b => isAhead keys a b = true ∧ isAhead keys b a = false := by
  have sorted := List.pairwise_mergeSort (List.zipIdxLE_trans (notAfter_trans keys))
    (List.zipIdxLE_total (notAfter_total keys)) rows.zipIdx
  have positions : ((rankedIdx keys rows).map Prod.snd).Nodup := by
    rw [((rankedIdx_perm keys rows).map _).nodup_iff, List.zipIdx_map_snd]
    exact List.nodup_range'
  exact (sorted.and (List.pairwise_map.1 positions)).imp fun both => isAhead_of_zipIdxLE both.2 both.1

/-- Sorting puts a row behind as many rows as are ranked before it. -/
theorem countP_rankedIdx {p : Nat} (h : p < (rankedIdx keys rows).length) :
    rows.zipIdx.countP (fun other => isAhead keys other (rankedIdx keys rows)[p]) = p := by
  rw [← (rankedIdx_perm keys rows).countP_eq]
  exact countP_getElem (isAhead_irrefl keys) (pairwise_rankedIdx keys rows) h

theorem getElem?_rankedIdx (i : Fin rows.length) :
    (rankedIdx keys rows)[ahead keys rows i]? = some (rows[i], i.val) := by
  have listed : (rows[i], i.val) ∈ rankedIdx keys rows :=
    (rankedIdx_perm keys rows).mem_iff.2 (List.mem_zipIdx_iff_getElem?.2 (List.getElem?_eq_getElem i.isLt))
  obtain ⟨p, h, found⟩ := List.getElem_of_mem listed
  have count := countP_rankedIdx keys rows h
  rw [found] at count
  rw [ahead, count, List.getElem?_eq_getElem h, found]

theorem ahead_lt (i : Fin rows.length) : ahead keys rows i < rows.length := by
  obtain ⟨h, -⟩ := List.getElem?_eq_some_iff.1 (getElem?_rankedIdx keys rows i)
  rwa [length_rankedIdx] at h

theorem exists_ahead {p : Nat} (h : p < rows.length) : ∃ i, ahead keys rows i = p := by
  have inside : p < (rankedIdx keys rows).length := by rwa [length_rankedIdx]
  obtain ⟨⟨row, i⟩, entry⟩ : ∃ entry, (rankedIdx keys rows)[p] = entry := ⟨_, rfl⟩
  have listed : (row, i) ∈ rows.zipIdx := by
    rw [← entry]
    exact (rankedIdx_perm keys rows).mem_iff.1 (List.getElem_mem inside)
  obtain ⟨hi, own⟩ := List.getElem?_eq_some_iff.1 (List.mem_zipIdx_iff_getElem?.1 listed)
  have count := countP_rankedIdx keys rows inside
  change rows[i] = row at own
  rw [entry, ← own] at count
  exact ⟨⟨i, hi⟩, count⟩

theorem ahead_inj {i j : Fin rows.length} (same : ahead keys rows i = ahead keys rows j) : i = j := by
  have hi := getElem?_rankedIdx keys rows i
  rw [same, getElem?_rankedIdx keys rows j] at hi
  exact Fin.ext (congrArg Prod.snd (Option.some.inj hi)).symm

theorem bijOn_places : Set.BijOn (fun i => ahead keys rows i + 1) Set.univ (Set.Icc 1 rows.length) := by
  refine ⟨?_, ?_, ?_⟩
  · intro i _
    exact ⟨Nat.succ_pos _, ahead_lt keys rows i⟩
  · intro i _ j _ same
    exact ahead_inj keys rows (Nat.succ.inj same)
  · intro k hk
    obtain ⟨pos, le⟩ := hk
    obtain ⟨i, own⟩ := exists_ahead keys rows (show k - 1 < rows.length by omega)
    refine ⟨i, trivial, ?_⟩
    dsimp only
    omega

end Rows

def share (normalized : Bool) (total : Float) (place : Nat) : Float :=
  if normalized then Float.ofNat place / total else Float.ofNat place

def summed (share : Nat → Float) : Nat → Float
  | 0 => 0
  | place + 1 => summed share place + share (place + 1)

/-- The numbers of sorted rows, where those of the places up to `start` are added up already. -/
theorem getElem?_numbered_from (normalized cumulative : Bool) (total : Float) {start : Nat} {running : Float}
    (sum : cumulative = true → running = summed (share normalized total) start) (rows : List Row) (p : Nat) :
    (numbered normalized cumulative total start running rows)[p]? = rows[p]?.map fun row =>
      (row.id, .number (.ofFloat (if cumulative then summed (share normalized total) (start + p + 1)
        else share normalized total (start + p + 1)))) := by
  induction rows generalizing start running p with
  | nil => rfl
  | cons row more ih =>
    have next : cumulative = true → (if cumulative then running + share normalized total (start + 1)
        else running) = summed (share normalized total) (start + 1) := by
      intro on
      rw [if_pos on, sum on]
      rfl
    cases p with
    | zero =>
      change some (row.id, Value.number (.ofFloat (if cumulative then
        (if cumulative then running + share normalized total (start + 1) else running)
        else share normalized total (start + 1)))) = _
      cases cumulative with
      | false => rfl
      | true =>
        rw [next rfl]
        rfl
    | succ p =>
      have rest := ih next p
      rw [Nat.add_right_comm start 1 p] at rest
      exact rest

theorem getElem?_numbered (normalized cumulative : Bool) (total : Float) (rows : List Row) (p : Nat) :
    (numbered normalized cumulative total 0 0 rows)[p]? = rows[p]?.map fun row =>
      (row.id, .number (.ofFloat (if cumulative then summed (share normalized total) (p + 1)
        else share normalized total (p + 1)))) := by
  have first : cumulative = true → (0 : Float) = summed (share normalized total) 0 := fun _ => rfl
  rw [getElem?_numbered_from normalized cumulative total first, Nat.zero_add]

theorem map_fst_numbered (normalized cumulative : Bool) (total : Float) (rows : List Row) :
    (numbered normalized cumulative total 0 0 rows).map Prod.fst = rows.map Row.id := by
  refine List.ext_getElem? fun p => ?_
  rw [List.getElem?_map, getElem?_numbered, Option.map_map, List.getElem?_map]
  rfl

theorem getElem?_rank (keys : List String) {rows : List Row} (distinct : (rows.map Row.id).Nodup)
    (normalized cumulative : Bool) (i : Fin rows.length) :
    (rank keys normalized cumulative rows)[rows[i].id]? = some (.number (.ofFloat
      (if cumulative then summed (share normalized (Float.ofNat rows.length)) (ahead keys rows i + 1)
        else share normalized (Float.ofNat rows.length) (ahead keys rows i + 1)))) := by
  have found : (ranked keys rows)[ahead keys rows i]? = some rows[i] := by
    rw [← map_rankedIdx, List.getElem?_map, getElem?_rankedIdx]
    rfl
  have listed := getElem?_numbered normalized cumulative (Float.ofNat rows.length)
    (ranked keys rows) (ahead keys rows i)
  rw [found, Option.map_some] at listed
  have ids : ((numbered normalized cumulative (Float.ofNat rows.length) 0 0 (ranked keys rows)).map
      Prod.fst).Nodup := by
    rw [map_fst_numbered, ((ranked_perm keys rows).map _).nodup_iff]
    exact distinct
  exact getElem?_ofList ids (List.mem_of_getElem? listed)

/-- Sorting is by a total preorder of all values. The ranks of rows are the numbers from 1 on, without error,
each one more than the number of rows with smaller values, or with the same values and before the row. The
normalized rank is this over the number of rows, and the cumulative rank adds up from the first rank on. -/
theorem rank_stable (keys : List String) {rows : List Row} (distinct : (rows.map Row.id).Nodup)
    (few : rows.length ≤ 2 ^ 53) :
    ((∀ v : Value, v.sortCompare v = .eq) ∧
      (∀ v w : Value, w.sortCompare v = (v.sortCompare w).swap) ∧
      (∀ v w : Value, (v.sortCompare w).isLE = true ∨ (w.sortCompare v).isLE = true) ∧
      ∀ u v w : Value, (u.sortCompare v).isLE = true → (v.sortCompare w).isLE = true →
        (u.sortCompare w).isLE = true) ∧
    Set.BijOn (fun i => ahead keys rows i + 1) Set.univ (Set.Icc 1 rows.length) ∧
    ∀ i : Fin rows.length, let place := ahead keys rows i + 1
      (∃ x, (rank keys false false rows)[rows[i].id]? = some (.number x) ∧ x.IsWhole place) ∧
      (rank keys true false rows)[rows[i].id]? =
        some (.number (.ofFloat (Float.ofNat place / Float.ofNat rows.length))) ∧
      ∀ normalized, (rank keys normalized true rows)[rows[i].id]? =
        some (.number (.ofFloat (summed (share normalized (Float.ofNat rows.length)) place))) := by
  refine ⟨⟨fun v => Std.ReflCmp.compare_self, Value.sortCompare_swap, Value.sortCompare_total,
    fun u v w => TransCmp.isLE_trans⟩, bijOn_places keys rows, ?_⟩
  intro i place
  have plain := getElem?_rank keys distinct false false i
  have shared := getElem?_rank keys distinct true false i
  have within : place ≤ 2 ^ 53 := Nat.le_trans (ahead_lt keys rows i) few
  refine ⟨⟨.ofNat place, plain, Number.isWhole_ofNat within⟩, shared, ?_⟩
  intro normalized
  exact getElem?_rank keys distinct normalized true i

def unevenRows : List Row :=
  [⟨8, .ofList [("s", .text "2")]⟩, ⟨3, .ofList [("s", .number .nan)]⟩,
    ⟨5, .ofList [("s", .number ⟨0⟩), ("t", .bool true)]⟩, ⟨2, .ofList []⟩,
    ⟨6, .ofList [("s", .number ⟨0⟩)]⟩, ⟨1, .ofList [("t", .null)]⟩, ⟨7, .ofList [("s", .number (-⟨0⟩))]⟩]

theorem rank_stable_uneven : (unevenRows.map Row.id).Nodup ∧ unevenRows.length ≤ 2 ^ 53 ∧
    (∃ x, (rank ["s", "t"] false false unevenRows)[(1 : RowId)]? = some (.number x) ∧ x.IsWhole 2) ∧
    (∃ x, (rank ["s", "t"] false false unevenRows)[(5 : RowId)]? = some (.number x) ∧ x.IsWhole 5) ∧
    (rank ["s", "t"] true false unevenRows)[(8 : RowId)]? =
      some (.number (.ofFloat (Float.ofNat 7 / Float.ofNat 7))) ∧
    (rank ["s", "t"] false true unevenRows)[(8 : RowId)]? =
      some (.number (.ofFloat (summed (share false (Float.ofNat 7)) 7))) := by
  have distinct : (unevenRows.map Row.id).Nodup := by decide
  have few : unevenRows.length ≤ 2 ^ 53 := by decide
  have places : ahead ["s", "t"] unevenRows (5 : Fin 7) = 1 ∧ ahead ["s", "t"] unevenRows (2 : Fin 7) = 4 ∧
      ahead ["s", "t"] unevenRows (0 : Fin 7) = 6 := by decide +kernel
  obtain ⟨-, -, ranks⟩ := rank_stable ["s", "t"] distinct few
  obtain ⟨second, -⟩ := ranks (5 : Fin 7)
  obtain ⟨fifth, -⟩ := ranks (2 : Fin 7)
  obtain ⟨-, last, all⟩ := ranks (0 : Fin 7)
  rw [places.1] at second
  rw [places.2.1] at fifth
  rw [places.2.2] at last all
  exact ⟨distinct, few, second, fifth, last, all false⟩

end DerivedColumns.Evaluation
