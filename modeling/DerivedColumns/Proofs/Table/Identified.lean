import DerivedColumns.Proofs.Keyed
import DerivedColumns.Table.Frame
import Mathlib.Data.List.Nodup

set_option autoImplicit false

namespace DerivedColumns

open Calendar (Moment)

namespace Cell

def isNumeric : Cell → Bool
  | .integer _ | .real _ => true
  | _ => false

def isTemporal : Cell → Bool
  | .day _ | .ticks _ _ => true
  | _ => false

def isOther : Cell → Bool
  | .other _ _ => true
  | _ => false

/-- What a cell is converted to, kind by kind. -/
inductive Becomes (cast : CellCast) : Option Cell → Value → Prop where
  | empty : Becomes cast none .null
  | bool (b : Bool) : Becomes cast (some (.bool b)) (.bool b)
  | text (s : String) : Becomes cast (some (.text s)) (.text s)
  | number {c : Cell} {x : Number} (kind : c.isNumeric = true) (own : cast.number? c = some x) :
    Becomes cast (some c) (.number x)
  | noNumber {c : Cell} (kind : c.isNumeric = true) (lost : cast.number? c = none) :
    Becomes cast (some c) .null
  | date {c : Cell} {n : Int} {m : Moment} (kind : c.isTemporal = true) (own : cast.millis? c = some n)
    (there : cast.moment? n = some m) : Becomes cast (some c) (.date m)
  | noMillis {c : Cell} (kind : c.isTemporal = true) (lost : cast.millis? c = none) :
    Becomes cast (some c) .null
  | noMoment {c : Cell} {n : Int} (kind : c.isTemporal = true) (own : cast.millis? c = some n)
    (out : cast.moment? n = none) : Becomes cast (some c) .null
  | shown {c : Cell} {s : String} (kind : c.isOther = true) (own : cast.text? c = some s) :
    Becomes cast (some c) (.text s)
  | noText {c : Cell} (kind : c.isOther = true) (lost : cast.text? c = none) : Becomes cast (some c) .null

theorem becomes_number (cast : CellCast) {c : Cell} (kind : c.isNumeric = true) :
    Becomes cast (some c) (((cast.number? c).map Value.number).getD .null) := by
  cases own : cast.number? c with
  | none => exact .noNumber kind own
  | some x => exact .number kind own

theorem becomes_date (cast : CellCast) {c : Cell} (kind : c.isTemporal = true) :
    Becomes cast (some c) ((((cast.millis? c).bind cast.moment?).map Value.date).getD .null) := by
  cases own : cast.millis? c with
  | none => exact .noMillis kind own
  | some n =>
    rw [Option.bind_some]
    cases there : cast.moment? n with
    | none => exact .noMoment kind own there
    | some m => exact .date kind own there

theorem becomes_text (cast : CellCast) {c : Cell} (kind : c.isOther = true) :
    Becomes cast (some c) (((cast.text? c).map Value.text).getD .null) := by
  cases own : cast.text? c with
  | none => exact .noText kind own
  | some s => exact .shown kind own

theorem becomes_valueOf (cast : CellCast) (cell : Option Cell) : Becomes cast cell (valueOf cast cell) := by
  cases cell with
  | none => exact .empty
  | some c =>
    cases c with
    | bool b => exact .bool b
    | text s => exact .text s
    | integer n => exact becomes_number cast rfl
    | real x => exact becomes_number cast rfl
    | day n => exact becomes_date cast rfl
    | ticks unit n => exact becomes_date cast rfl
    | other text number => exact becomes_text cast rfl

end Cell

/-- The row has one field for each column, in their order, with what the cell at the position becomes. -/
structure Row.Holds (row : Row) (cast : CellCast) (columns : List Column) (position : Nat) : Prop where
  keys : row.fields.keys = columns.map Column.name
  get? : ∀ c ∈ columns, ∃ cell v, c.cells[position]? = some cell ∧ Cell.Becomes cast cell v ∧
    row.fields.get? c.name = some v

theorem Row.Holds.insert {cast : CellCast} {row : Row} {columns : List Column} {position : Nat}
    (h : row.Holds cast columns position) {c : Column} (new : c.name ∉ columns.map Column.name)
    {cell : Option Cell} (there : c.cells[position]? = some cell) {v : Value} (becomes : Cell.Becomes cast cell v) :
    { row with fields := row.fields.insert c.name v : Row }.Holds cast (columns ++ [c]) position where
  keys := by
    rw [Keyed.keys_insert, h.keys, if_neg new, List.map_append, List.map_singleton]
  get? c' hc' := by
    rw [Keyed.get?_insert]
    rcases List.mem_append.1 hc' with old | last
    · have other : c'.name ≠ c.name := fun same => new (same ▸ List.mem_map_of_mem old)
      rw [if_neg other]
      exact h.get? c' old
    · obtain rfl := List.mem_singleton.1 last
      exact ⟨cell, v, there, becomes, if_pos rfl⟩

namespace Frame

variable {values : CellCast}

/-! ### Columns written into rows -/

theorem getElem?_fill (name : String) (rows : List Row) (values : List Value) (i : Nat) :
    (fill name rows values)[i]? = rows[i]?.map fun row =>
      match values[i]? with
      | some v => { row with fields := row.fields.insert name v }
      | none => row := by
  fun_induction fill name rows values generalizing i with
  | case1 row rows v values ih =>
    cases i with
    | zero => rfl
    | succ i => exact ih i
  | case2 rows values short =>
    cases rows with
    | nil => rfl
    | cons row rows =>
      cases values with
      | nil => simp
      | cons v values => exact (short row rows v values rfl rfl).elim

theorem map_id_fill (name : String) (rows : List Row) (values : List Value) :
    (fill name rows values).map Row.id = rows.map Row.id := by
  fun_induction fill name rows values with
  | case1 row rows v values ih => rw [List.map_cons, List.map_cons, ih]
  | case2 => rfl

theorem length_fill (name : String) (rows : List Row) (values : List Value) :
    (fill name rows values).length = rows.length := by
  simpa only [List.length_map] using congrArg List.length (map_id_fill name rows values)

theorem map_id_foldl_fill (columns : List Column) (rows : List Row) :
    (columns.foldl (fun rows c => fill c.name rows (c.values values)) rows).map Row.id = rows.map Row.id := by
  induction columns generalizing rows with
  | nil => rfl
  | cons c columns ih => rw [List.foldl_cons, ih, map_id_fill]

/-- Rows that hold some columns hold the columns written after them too, if these are as high as there
are rows and all names are distinct. -/
theorem holds_foldl_fill (columns done : List Column) (rows : List Row)
    (nodup : ((done ++ columns).map Column.name).Nodup)
    (heights : ∀ c ∈ columns, c.cells.length = rows.length)
    (held : ∀ (i : Nat) (row : Row), rows[i]? = some row → row.Holds values done i) (i : Nat) (row : Row)
    (hrow : (columns.foldl (fun rows c => fill c.name rows (c.values values)) rows)[i]? = some row) :
    row.Holds values (done ++ columns) i := by
  induction columns generalizing done rows with
  | nil =>
    rw [List.append_nil]
    exact held i row hrow
  | cons c columns ih =>
    have split : done ++ c :: columns = (done ++ [c]) ++ columns := List.append_cons ..
    rw [split] at nodup ⊢
    refine ih (done ++ [c]) (fill c.name rows (c.values values)) nodup ?_ ?_ hrow
    · intro c' hc'
      rw [length_fill]
      exact heights c' (List.mem_cons_of_mem c hc')
    · intro j filled hfilled
      rw [getElem?_fill] at hfilled
      obtain ⟨before, hbefore, rfl⟩ := Option.map_eq_some_iff.1 hfilled
      have below : j < c.cells.length := by
        rw [heights c List.mem_cons_self]
        exact (List.getElem?_eq_some_iff.1 hbefore).1
      have cell : c.cells[j]? = some c.cells[j] := List.getElem?_eq_getElem below
      have value : (c.values values)[j]? = some (Cell.valueOf values c.cells[j]) := by
        rw [Column.values, List.getElem?_map, cell, Option.map_some]
      have new : c.name ∉ done.map Column.name := by
        rw [List.map_append, List.map_append, List.map_singleton] at nodup
        have apart := (List.nodup_append.1 (List.nodup_append.1 nodup).1).2.2
        exact fun old => apart _ old _ (List.mem_singleton_self _) rfl
      rw [value]
      exact (held j before hbefore).insert new cell (Cell.becomes_valueOf values c.cells[j])

theorem map_id_withIds (f : Frame) (ids : List RowId) : (f.withIds values ids).rows.map Row.id = ids := by
  refine (map_id_foldl_fill f.columns _).trans ?_
  rw [List.map_map]
  exact List.map_id' ids

theorem holds_withIds (f : Frame) {ids : List RowId} (enough : ids.length = f.height) (i : Nat)
    (row : Row) (hrow : (f.withIds values ids).rows[i]? = some row) : row.Holds values f.columns i := by
  refine holds_foldl_fill f.columns [] _ f.nodup ?_ ?_ i row hrow
  · intro c hc
    rw [List.length_map, f.heights c hc, enough]
  · intro j bare hbare
    rw [List.getElem?_map] at hbare
    obtain ⟨id, -, rfl⟩ := Option.map_eq_some_iff.1 hbare
    exact ⟨rfl, fun _ none => (List.not_mem_nil none).elim⟩

/-! ### Ids that are there and new -/

/-- The id at a position cannot be taken: there is none, or it stands at an earlier position too. -/
inductive Refused (column : String) (ids : List (Option RowId)) : Nat → TableError → Prop where
  | missing {position : Nat} (here : ids[position]? = some none) :
    Refused column ids position (.nullId position column)
  | repeated {position : Nat} {id : RowId} (here : ids[position]? = some (some id))
    (before : some id ∈ ids.take position) : Refused column ids position (.duplicateId id column)

structure FirstRefused (column : String) (ids : List (Option RowId)) (position : Nat)
    (e : TableError) : Prop where
  here : Refused column ids position e
  first : ∀ earlier < position, ∀ e', ¬Refused column ids earlier e'

theorem Refused.below {column : String} {ids : List (Option RowId)} {position : Nat} {e : TableError}
    (h : Refused column ids position e) : position < ids.length := by
  cases h with
  | missing here => exact (List.getElem?_eq_some_iff.1 here).1
  | repeated here => exact (List.getElem?_eq_some_iff.1 here).1

theorem Refused.of_append {column : String} {ids more : List (Option RowId)} {position : Nat}
    {e : TableError} (h : Refused column (ids ++ more) position e) (below : position < ids.length) :
    Refused column ids position e := by
  cases h with
  | missing here =>
    rw [List.getElem?_append_left below] at here
    exact .missing here
  | repeated here before =>
    rw [List.getElem?_append_left below] at here
    rw [List.take_append_of_le_length (Nat.le_of_lt below)] at before
    exact .repeated here before

theorem not_refused {column : String} {ids : List (Option RowId)} (complete : none ∉ ids)
    (nodup : ids.Nodup) (position : Nat) (e : TableError) : ¬Refused column ids position e := by
  rintro (here | ⟨here, before⟩)
  · exact complete (List.mem_of_getElem? here)
  · obtain ⟨below, there⟩ := List.getElem?_eq_some_iff.1 here
    obtain ⟨j, hj, earlier⟩ := List.mem_take_iff_getElem.1 before
    exact List.pairwise_iff_getElem.1 nodup j position (by omega) below (by omega)
      (earlier.trans there.symm)

theorem none_notMem_map_some (ids : List RowId) : none ∉ ids.map some := by simp

theorem nodup_map_some {ids : List RowId} (nodup : ids.Nodup) : (ids.map some).Nodup :=
  nodup.map fun _ _ => Option.some.inj

theorem not_refused_append {column : String} {taken : List RowId} (nodup : taken.Nodup)
    (more : List (Option RowId)) {position : Nat} (below : position < taken.length) (e : TableError) :
    ¬Refused column (taken.map some ++ more) position e := fun h =>
  not_refused (none_notMem_map_some taken) (nodup_map_some nodup) position e
    (h.of_append (by rwa [List.length_map]))

theorem getElem?_taken (taken : List RowId) (head : Option RowId) (rest : List (Option RowId)) :
    (taken.map some ++ head :: rest)[taken.length]? = some head := by
  rw [List.getElem?_append_right (Nat.le_of_eq (List.length_map some)), List.length_map, Nat.sub_self]
  rfl

/-- Behind distinct ids that are taken, either all others are taken too and none is repeated, or the
first that cannot be taken is reported. -/
theorem checkIds_cases (column : String) (rest : List (Option RowId)) (taken : List RowId)
    (nodup : taken.Nodup) :
    (∃ found, checkIds column taken.reverse taken.length rest = .ok found ∧
      rest = found.map some ∧ (taken ++ found).Nodup) ∨
    ∃ position e, checkIds column taken.reverse taken.length rest = .error e ∧
      FirstRefused column (taken.map some ++ rest) position e := by
  induction rest generalizing taken with
  | nil =>
    refine .inl ⟨[], rfl, rfl, ?_⟩
    rwa [List.append_nil]
  | cons head rest ih =>
    cases head with
    | none =>
      exact .inr ⟨taken.length, _, rfl, .missing (getElem?_taken taken none rest),
        fun earlier below => not_refused_append nodup _ below⟩
    | some id =>
      by_cases seen : id ∈ taken
      · refine .inr ⟨taken.length, .duplicateId id column, ?_,
          .repeated (getElem?_taken taken (some id) rest) ?_,
          fun earlier below => not_refused_append nodup _ below⟩
        · exact if_pos (List.contains_iff_mem.2 (List.mem_reverse.2 seen))
        · rw [List.take_left' (List.length_map ..)]
          exact List.mem_map_of_mem seen
      · have more : (taken ++ [id]).Nodup := by
          rw [List.nodup_append]
          refine ⟨nodup, List.nodup_singleton id, fun old hold last hlast same => ?_⟩
          exact seen (List.mem_singleton.1 hlast ▸ same ▸ hold)
        have step : checkIds column taken.reverse taken.length (some id :: rest) =
            (checkIds column (taken ++ [id]).reverse (taken ++ [id]).length rest).map (id :: ·) := by
          rw [List.reverse_append, List.length_append]
          exact if_neg fun known => seen (List.mem_reverse.1 (List.contains_iff_mem.1 known))
        have onward : taken.map some ++ some id :: rest = (taken ++ [id]).map some ++ rest := by
          rw [List.map_append, List.append_assoc]
          rfl
        rw [step, onward]
        rcases ih (taken ++ [id]) more with ⟨found, ok, rfl, distinct⟩ | ⟨position, e, error, refused⟩
        · refine .inl ⟨id :: found, by rw [ok]; rfl, rfl, ?_⟩
          rwa [List.append_cons]
        · exact .inr ⟨position, e, by rw [error]; rfl, refused⟩

theorem checkIds_outcome (column : String) (ids : List (Option RowId)) :
    (∃ found, checkIds column [] 0 ids = .ok found ∧ ids = found.map some ∧ found.Nodup) ∨
    ∃ position e, checkIds column [] 0 ids = .error e ∧ FirstRefused column ids position e :=
  checkIds_cases column ids [] List.nodup_nil

theorem checkIds_of_nodup (column : String) {ids : List (Option RowId)} (complete : none ∉ ids)
    (nodup : ids.Nodup) : ∃ found, checkIds column [] 0 ids = .ok found ∧ ids = found.map some := by
  rcases checkIds_outcome column ids with ⟨found, ok, same, -⟩ | ⟨position, e, -, refused⟩
  · exact ⟨found, ok, same⟩
  · exact (not_refused complete nodup position e refused.here).elim

/-! ### Frames with ids from a column -/

theorem column?_eq_some_iff (f : Frame) (name : String) (c : Column) :
    f.column? name = some c ↔ c ∈ f.columns ∧ c.name = name := by
  constructor
  · intro h
    exact ⟨List.mem_of_find?_eq_some h, by simpa using List.find?_some h⟩
  · rintro ⟨hc, rfl⟩
    cases found : f.column? c.name with
    | none => exact (List.find?_eq_none.1 found c hc (beq_self_eq_true c.name)).elim
    | some c' =>
      have same : c'.name = c.name := by simpa using List.find?_some found
      rw [List.inj_on_of_nodup_map f.nodup (List.mem_of_find?_eq_some found) hc same]

theorem toDatasetBy_of_cast {f : Frame} {cast : IdCast} {c : Column} (hc : c ∈ f.columns)
    {ids : List (Option RowId)} (hids : cast.ids? c = some ids) :
    f.toDatasetBy values cast c.name = (checkIds c.name [] 0 ids).map (f.withIds values) := by
  rw [toDatasetBy, (f.column?_eq_some_iff c.name c).2 ⟨hc, rfl⟩]
  simp only [hids]

theorem toDatasetBy_eq_ok_iff (f : Frame) (values : CellCast) (cast : IdCast) (column : String) (d : Dataset) :
    f.toDatasetBy values cast column = .ok d ↔ ∃ c ∈ f.columns, c.name = column ∧
      ∃ ids : List RowId, cast.ids? c = some (ids.map some) ∧ ids.Nodup ∧ d = f.withIds values ids := by
  constructor
  · intro h
    cases hc : f.column? column with
    | none => rw [toDatasetBy, hc] at h; cases h
    | some c =>
      obtain ⟨there, rfl⟩ := (f.column?_eq_some_iff column c).1 hc
      cases hids : cast.ids? c with
      | none => rw [toDatasetBy, hc] at h; simp only [hids] at h; cases h
      | some ids =>
        rw [toDatasetBy_of_cast there hids] at h
        rcases checkIds_outcome c.name ids with ⟨found, ok, rfl, nodup⟩ | ⟨position, e, error, -⟩
        · rw [ok] at h
          exact ⟨c, there, rfl, found, hids, nodup, (Except.ok.inj h).symm⟩
        · rw [error] at h
          cases h
  · rintro ⟨c, hc, rfl, ids, hids, nodup, rfl⟩
    obtain ⟨found, ok, same⟩ := checkIds_of_nodup c.name (none_notMem_map_some ids)
      (nodup_map_some nodup)
    rw [toDatasetBy_of_cast hc hids, ok, List.map_inj_right (fun _ _ => Option.some.inj) |>.1 same]
    rfl

theorem length_ids {f : Frame} {cast : IdCast} {c : Column} (hc : c ∈ f.columns) {ids : List RowId}
    (hids : cast.ids? c = some (ids.map some)) : ids.length = f.height := by
  rw [← f.heights c hc, ← cast.length_ids c _ hids, List.length_map]

/-- Taking ids from a column succeeds just if the column is there, is cast, and its ids are all there and
distinct. If it is cast but its ids are not taken, the first position at fault is reported. The dataset
has the rows of the frame in order, known by the ids of the column, each with what all columns hold at
its position. -/
theorem toDatasetBy_exact (f : Frame) (values : CellCast) (cast : IdCast) (column : String) :
    ((∃ d, f.toDatasetBy values cast column = .ok d) ↔ ∃ c ∈ f.columns, c.name = column ∧
      ∃ ids, cast.ids? c = some ids ∧ none ∉ ids ∧ ids.Nodup) ∧
    (∀ c ∈ f.columns, c.name = column → ∀ ids, cast.ids? c = some ids →
      ∀ e, f.toDatasetBy values cast column = .error e → ∃ position, FirstRefused column ids position e) ∧
    ∀ d, f.toDatasetBy values cast column = .ok d →
      d.columns = f.names ∧ d.rows.length = f.height ∧ (d.rows.map Row.id).Nodup ∧
      (∃ c ∈ f.columns, c.name = column ∧
        cast.ids? c = some (d.rows.map fun row => some row.id)) ∧
      ∀ (position : Nat) (row : Row), d.rows[position]? = some row → row.Holds values f.columns position := by
  refine ⟨⟨?_, ?_⟩, ?_, ?_⟩
  · rintro ⟨d, h⟩
    obtain ⟨c, hc, named, ids, hids, nodup, -⟩ := (f.toDatasetBy_eq_ok_iff values cast column d).1 h
    exact ⟨c, hc, named, ids.map some, hids, none_notMem_map_some ids, nodup_map_some nodup⟩
  · rintro ⟨c, hc, rfl, ids, hids, complete, nodup⟩
    obtain ⟨found, ok, -⟩ := checkIds_of_nodup c.name complete nodup
    exact ⟨f.withIds values found, by rw [toDatasetBy_of_cast hc hids, ok]; rfl⟩
  · rintro c hc rfl ids hids e h
    rw [toDatasetBy_of_cast hc hids] at h
    rcases checkIds_outcome c.name ids with ⟨found, ok, -, -⟩ | ⟨position, e', error, refused⟩
    · rw [ok] at h
      cases h
    · rw [error] at h
      obtain rfl := Except.error.inj h
      exact ⟨position, refused⟩
  · intro d h
    obtain ⟨c, hc, named, ids, hids, nodup, rfl⟩ := (f.toDatasetBy_eq_ok_iff values cast column d).1 h
    have ids_eq : (f.withIds values ids).rows.map Row.id = ids := f.map_id_withIds ids
    have enough := length_ids hc hids
    refine ⟨rfl, ?_, ids_eq.symm ▸ nodup, ⟨c, hc, named, ?_⟩, fun position row => ?_⟩
    · rw [← enough, ← congrArg List.length ids_eq, List.length_map]
    · rw [hids, ← ids_eq, List.map_map, ids_eq]
      rfl
    · exact f.holds_withIds enough position row

/-- Three rows with codes that are distinct and prices that lose their fraction to the same number. -/
def priced : Frame where
  columns :=
    [⟨"code", [some (.text "7"), some (.text "+8"), some (.text "09")]⟩,
      ⟨"price", [some (.real ⟨0x3FF8000000000000⟩), some (.integer 2), some (.real ⟨0x3FF4000000000000⟩)]⟩,
      ⟨"since", [some (.day 19000), none, some (.ticks .micro (-1))]⟩,
      ⟨"stock", [some (.bool true), some (.other (some "12:00:00") none), none]⟩]
  height := 3
  nodup := by decide
  heights := by decide

def pricedRows : List (RowId × List (String × Value)) :=
  [(7, [("code", .text "7"), ("price", .number ⟨0x3FF8000000000000⟩),
      ("since", .date (.atMidnight ⟨2022, 1, 8, by decide, by decide, by decide⟩)), ("stock", .bool true)]),
    (8, [("code", .text "+8"), ("price", .number (.ofInt 2)), ("since", .null), ("stock", .text "12:00:00")]),
    (9, [("code", .text "09"), ("price", .number ⟨0x3FF4000000000000⟩),
      ("since", .date ⟨⟨1969, 12, 31, by decide, by decide, by decide⟩, .ofMillis 86399999 (by decide)⟩),
      ("stock", .null)])]

/-- The prices 1.5 and 1.25 both stand for 1. -/
theorem toDatasetBy_exact_priced :
    (∃ d, priced.toDatasetBy .standard .cellwise "code" = .ok d ∧
      (d.rows.map fun row => (row.id, row.fields.entries)) = pricedRows ∧
      ∀ (position : Nat) (row : Row), d.rows[position]? = some row →
        row.Holds .standard priced.columns position) ∧
    ∃ position, FirstRefused "price" [some 1, some 2, some 1] position (.duplicateId 1 "price") := by
  have price : IdCast.cellwise.ids? priced.columns[1] = some [some 1, some 2, some 1] := by decide +kernel
  obtain ⟨accepted, -, held⟩ := priced.toDatasetBy_exact .standard .cellwise "code"
  obtain ⟨d, made⟩ := accepted.2
    ⟨priced.columns[0], List.getElem_mem _, rfl, [some 7, some 8, some 9], by decide +kernel, by decide, by decide⟩
  have told : (priced.toDatasetBy .standard .cellwise "code").toOption.map
      (fun d => d.rows.map fun row => (row.id, row.fields.entries)) = some pricedRows := by rfl
  rw [made] at told
  obtain ⟨-, -, -, -, holds⟩ := held d made
  refine ⟨⟨d, made, Option.some.inj told, holds⟩,
    (priced.toDatasetBy_exact .standard .cellwise "price").2.1 priced.columns[1] (List.getElem_mem _) rfl _ price
      _ ?_⟩
  exact toDatasetBy_of_cast (List.getElem_mem _) price

end Frame

end DerivedColumns
