import DerivedColumns.Evaluation.Whole
import DerivedColumns.Proofs.Keyed
import DerivedColumns.Proofs.Value.Display

set_option autoImplicit false

/-!
The key of a row is all it is grouped by. A key is cut at its bars into pieces, and two rows have one key
if the texts of their fields are cut into the same pieces. Without bars in the texts, this is to say that
the fields look alike one by one.
-/

namespace DerivedColumns.Evaluation

def part (keys : List String) (rows : List Row) (key : String) : List Row :=
  rows.filter fun row => groupKey keys row.fields == key

theorem mem_part {keys : List String} {rows : List Row} {key : String} {row : Row} :
    row ∈ part keys rows key ↔ row ∈ rows ∧ groupKey keys row.fields = key := by
  rw [part, List.mem_filter, beq_iff_eq]

def gather (keys : List String) (groups : Keyed (List Row)) (rows : List Row) : Keyed (List Row) :=
  rows.foldl (fun groups row =>
    let key := groupKey keys row.fields
    groups.insert key (row :: (groups.get? key).getD [])) groups

theorem get?_gather (keys : List String) (groups : Keyed (List Row)) (rows : List Row) (key : String) :
    (gather keys groups rows).get? key =
      if part keys rows key = [] then groups.get? key
      else some ((part keys rows key).reverse ++ (groups.get? key).getD []) := by
  induction rows generalizing groups with
  | nil => rfl
  | cons row rows ih =>
    have next := ih (groups.insert (groupKey keys row.fields)
      (row :: (groups.get? (groupKey keys row.fields)).getD []))
    change (gather keys groups (row :: rows)).get? key = _ at next
    rw [next, Keyed.get?_insert]
    by_cases own : groupKey keys row.fields = key
    · have more : part keys (row :: rows) key = row :: part keys rows key :=
        List.filter_cons_of_pos (beq_iff_eq.2 own)
      rw [more, if_neg (List.cons_ne_nil _ _), if_pos own.symm, own, List.reverse_cons,
        List.append_assoc, Option.getD_some, List.singleton_append]
      split
      · rename_i none
        rw [none]
        rfl
      · rfl
    · have same : part keys (row :: rows) key = part keys rows key :=
        List.filter_cons_of_neg (by rw [beq_iff_eq]; exact own)
      rw [same, if_neg (Ne.symm own)]

/-- A group has all rows with its key, in their order. -/
theorem get?_partition (keys : List String) (rows : List Row) (key : String) :
    (partition keys rows).get? key =
      if part keys rows key = [] then none else some (part keys rows key) := by
  change ((gather keys .empty rows).map fun _ members => members.reverse).get? key = _
  rw [Keyed.get?_map, get?_gather]
  split
  · rfl
  · change some ((part keys rows key).reverse ++ []).reverse = _
    rw [List.append_nil, List.reverse_reverse]

def Together (keys : List String) (rows : List Row) (a b : Row) : Prop :=
  ∃ key members, (partition keys rows).get? key = some members ∧ a ∈ members ∧ b ∈ members

section Rows

variable {keys : List String} {rows : List Row} {a b : Row}

theorem together_iff (ha : a ∈ rows) (hb : b ∈ rows) :
    Together keys rows a b ↔ groupKey keys a.fields = groupKey keys b.fields := by
  constructor
  · rintro ⟨key, members, found, ha', hb'⟩
    rw [get?_partition] at found
    split at found
    · cases found
    · cases found
      rw [(mem_part.1 ha').2, (mem_part.1 hb').2]
  · intro same
    have own : a ∈ part keys rows (groupKey keys a.fields) := mem_part.2 ⟨ha, rfl⟩
    refine ⟨groupKey keys a.fields, part keys rows (groupKey keys a.fields), ?_, own,
      mem_part.2 ⟨hb, same.symm⟩⟩
    rw [get?_partition, if_neg (List.ne_nil_of_mem own)]

end Rows

/-- The text of a field, cut at its bars. -/
def pieces (fields : Fields) (name : String) : List (List Char) :=
  (fieldValue fields name).display.toList.splitOn '|'

theorem splitOn_intercalate {ls : List (List Char)} (ne_nil : ls ≠ []) :
    (['|'].intercalate ls).splitOn '|' = ls.flatMap (List.splitOn '|') := by
  induction ls with
  | nil => exact absurd rfl ne_nil
  | cons l more ih =>
    cases more with
    | nil => simp
    | cons l' more =>
      rw [List.intercalate_cons_cons, List.append_assoc, List.singleton_append,
        List.splitOn_append_cons_self, ih (List.cons_ne_nil _ _)]
      rfl

theorem splitOn_groupKey {keys : List String} (ne_nil : keys ≠ []) (fields : Fields) :
    (groupKey keys fields).toList.splitOn '|' = keys.flatMap (pieces fields) := by
  have texts : (keys.map fun name => (fieldValue fields name).display).map String.toList ≠ [] := by
    simpa using ne_nil
  rw [groupKey, String.toList_intercalate]
  change (['|'].intercalate _).splitOn '|' = _
  rw [splitOn_intercalate texts, List.flatMap_map, List.flatMap_map]
  rfl

theorem splitOn_inj {s t : List Char} : s.splitOn '|' = t.splitOn '|' ↔ s = t := by
  constructor
  · intro same
    have joined : ['|'].intercalate (s.splitOn '|') = s := List.intercalate_splitOn '|'
    rw [← joined, same, List.intercalate_splitOn]
  · rintro rfl
    rfl

theorem groupKey_eq_iff (keys : List String) (f g : Fields) :
    groupKey keys f = groupKey keys g ↔ keys.flatMap (pieces f) = keys.flatMap (pieces g) := by
  by_cases none : keys = []
  · rw [none]
    exact iff_of_true rfl rfl
  · rw [← splitOn_groupKey none, ← splitOn_groupKey none, splitOn_inj, String.toList_inj]

/-- No bar is in the fields by which the row is grouped. -/
def Unbarred (keys : List String) (fields : Fields) : Prop :=
  ∀ name ∈ keys, ∀ s, fieldValue fields name = .text s → '|' ∉ s.toList

theorem Unbarred.pieces {keys : List String} {fields : Fields} (h : Unbarred keys fields) {name : String}
    (hn : name ∈ keys) : pieces fields name = [(fieldValue fields name).display.toList] := by
  refine List.splitOn_eq_singleton fun bar => ?_
  obtain ⟨s, e⟩ := Value.exists_text_of_bar bar
  rw [e] at bar
  exact h name hn s e bar

theorem pieces_eq_iff (f g : Fields) (name : String) :
    pieces f name = pieces g name ↔ (fieldValue f name).LooksLike (fieldValue g name) := by
  rw [pieces, pieces, splitOn_inj, String.toList_inj, Value.display_eq_iff]

theorem flatMap_pieces_eq_iff {keys : List String} {f g : Fields}
    (h : keys.length ≤ 1 ∨ Unbarred keys f ∧ Unbarred keys g) :
    keys.flatMap (pieces f) = keys.flatMap (pieces g) ↔
      ∀ name ∈ keys, (fieldValue f name).LooksLike (fieldValue g name) := by
  simp only [← pieces_eq_iff]
  refine ⟨fun same => ?_, List.flatMap_congr⟩
  rcases h with few | ⟨hf, hg⟩
  · match keys, few with
    | [], _ => exact fun name hn => by cases hn
    | [name], _ =>
      rw [List.flatMap_singleton, List.flatMap_singleton] at same
      exact fun name' hn => List.mem_singleton.1 hn ▸ same
  · induction keys with
    | nil => exact fun name hn => by cases hn
    | cons name more ih =>
      have first := hf.pieces List.mem_cons_self
      have first' := hg.pieces List.mem_cons_self
      rw [List.flatMap_cons, List.flatMap_cons, first, first'] at same
      obtain ⟨own, rest⟩ := List.cons.inj same
      have later := ih rest (fun n hn => hf n (List.mem_cons_of_mem _ hn))
        fun n hn => hg n (List.mem_cons_of_mem _ hn)
      intro n hn
      rcases List.mem_cons.1 hn with rfl | hn
      · rw [first, first', own]
      · exact later n hn

/-- Two rows are in one group if the texts of their fields, missing ones counted as null, are cut at their
bars into the same pieces. With at most one key, or without bars in the texts, this is to say that the
fields look alike one by one; and that they are equal one by one, where equality and looks agree. -/
theorem together_iff_alike (keys : List String) (rows : List Row) {a b : Row} (ha : a ∈ rows)
    (hb : b ∈ rows) :
    (Together keys rows a b ↔ keys.flatMap (pieces a.fields) = keys.flatMap (pieces b.fields)) ∧
    (keys.length ≤ 1 ∨ Unbarred keys a.fields ∧ Unbarred keys b.fields →
      (Together keys rows a b ↔
        ∀ name ∈ keys, (fieldValue a.fields name).LooksLike (fieldValue b.fields name)) ∧
      ((∀ name ∈ keys, ¬ Value.Misjudged (fieldValue a.fields name) (fieldValue b.fields name)) →
        (Together keys rows a b ↔
          ∀ name ∈ keys, (fieldValue a.fields name == fieldValue b.fields name) = true))) := by
  have cut : Together keys rows a b ↔ _ := (together_iff ha hb).trans (groupKey_eq_iff keys a.fields b.fields)
  refine ⟨cut, fun clear => ?_⟩
  have alike := cut.trans (flatMap_pieces_eq_iff clear)
  refine ⟨alike, fun fair => alike.trans ?_⟩
  exact forall₂_congr fun name hn => (Value.not_misjudged_iff _ _).1 (fair name hn)

def gapped : List Row :=
  [⟨1, .ofList [("x", .text "a"), ("y", .null)]⟩, ⟨2, .ofList [("x", .text "a")]⟩]

theorem together_gapped :
    gapped[0] ∈ gapped ∧ gapped[1] ∈ gapped ∧
      Unbarred ["x", "y"] gapped[0].fields ∧ Unbarred ["x", "y"] gapped[1].fields ∧
      (∀ name ∈ ["x", "y"],
        ¬ Value.Misjudged (fieldValue gapped[0].fields name) (fieldValue gapped[1].fields name)) ∧
      Together ["x", "y"] gapped gapped[0] gapped[1] := by
  have first : gapped[0] ∈ gapped := List.getElem_mem _
  have second : gapped[1] ∈ gapped := List.getElem_mem _
  have x : fieldValue gapped[0].fields "x" = .text "a" ∧ fieldValue gapped[1].fields "x" = .text "a" :=
    ⟨rfl, rfl⟩
  have y : fieldValue gapped[0].fields "y" = .null ∧ fieldValue gapped[1].fields "y" = .null :=
    ⟨rfl, rfl⟩
  have clear : ∀ f : Fields, fieldValue f "x" = .text "a" → fieldValue f "y" = .null →
      Unbarred ["x", "y"] f := by
    intro f hx hy name hn s e
    rcases List.mem_cons.1 hn with rfl | hn
    · rw [hx] at e
      cases e
      decide
    · rw [List.mem_singleton.1 hn, hy] at e
      cases e
  have fair : ∀ name ∈ ["x", "y"],
      ¬ Value.Misjudged (fieldValue gapped[0].fields name) (fieldValue gapped[1].fields name) := by
    intro name hn misjudged
    rcases List.mem_cons.1 hn with rfl | hn
    · rw [x.1, x.2] at misjudged
      cases misjudged with
      | text _ _ kind _ => exact kind "a" rfl
      | spelled _ _ kind _ => exact kind "a" rfl
    · rw [List.mem_singleton.1 hn, y.1, y.2] at misjudged
      cases misjudged
  have clear0 := clear _ x.1 y.1
  have clear1 := clear _ x.2 y.2
  refine ⟨first, second, clear0, clear1, fair, ?_⟩
  refine (((together_iff_alike ["x", "y"] gapped first second).2 (.inr ⟨clear0, clear1⟩)).2 fair).2 ?_
  intro name hn
  rcases List.mem_cons.1 hn with rfl | hn
  · rw [x.1, x.2]
    decide
  · rw [List.mem_singleton.1 hn, y.1, y.2]
    rfl

def barred : List Row :=
  [⟨1, .ofList [("x", .text "a|b"), ("y", .text "c")]⟩,
    ⟨2, .ofList [("x", .text "a"), ("y", .text "b|c")]⟩]

theorem together_barred : ¬ (Together ["x", "y"] barred barred[0] barred[1] ↔
    ∀ name ∈ ["x", "y"],
      (fieldValue barred[0].fields name == fieldValue barred[1].fields name) = true) := by
  intro same
  have joined : Together ["x", "y"] barred barred[0] barred[1] :=
    (together_iff (List.getElem_mem _) (List.getElem_mem _)).2 (by decide)
  exact absurd (same.1 joined "x" List.mem_cons_self) (by decide)

end DerivedColumns.Evaluation
