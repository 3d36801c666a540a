import DerivedColumns.Proofs.Sheet.Current
import DerivedColumns.Proofs.Sheet.Faithful
import DerivedColumns.Proofs.Sheet.Pruned

set_option autoImplicit false

namespace DerivedColumns

open Relation

namespace Sheet

variable {s : Sheet} {column : String} {c : Calculation}

/-- The columns after an execution are those before it with what the report has in their place. -/
structure Overlay (before after : ByName ColumnValues) (report : Report) : Prop where
  column : ∀ x : String, after[x]? = (report.results[x]?).or before[x]?
  affected : ∀ x, x ∈ report.affected ↔ x ∈ report.results

namespace Overlay

variable {before : ByName ColumnValues} {p : Progress}

theorem start (cache : ByName ColumnValues) : Overlay cache cache .empty := by
  refine ⟨fun x => ?_, fun x => ?_⟩
  · simp [Report.empty]
  · simp [Report.empty]

/-- A column that is computed goes into the cache and into the report alike. -/
theorem compute (h : Overlay before p.cache p.report) (library : Library) (column : String)
    (f : Formula) :
    Overlay before (p.compute library column f).cache (p.compute library column f).report := by
  refine ⟨fun x => ?_, fun x => ?_⟩
  · by_cases hx : x = column
    · subst hx
      obtain ⟨cached, reported, -⟩ := p.compute_self library x f
      rw [cached, reported, Option.some_or]
    · obtain ⟨cached, reported, -⟩ := p.compute_of_ne library f hx
      rw [cached, reported]
      exact h.column x
  · simp only [Progress.compute, Std.ExtTreeSet.mem_insert, Std.ExtTreeMap.mem_insert]
    exact or_congr_right (h.affected x)

theorem foldl (h : Overlay before p.cache p.report) (s : Sheet) (order : List String) :
    let q := order.foldl (fun p column =>
      match s.calculations.get? column with
      | some c => p.compute s.library column c.formula
      | none => p) p
    Overlay before q.cache q.report := by
  induction order generalizing p with
  | nil => exact h
  | cons column order ih =>
    rw [List.foldl_cons]
    split
    · exact ih (h.compute s.library column _)
    · exact ih h

end Overlay

theorem overlay_cache (s : Sheet) (targets : List String) {report : Report}
    (ok : (s.execute targets).1 = .ok report) :
    Overlay s.cache (s.execute targets).2.cache report := by
  unfold execute at ok ⊢
  dsimp only at ok ⊢
  split at ok
  · cases ok
  · rename_i order ordered
    cases ok
    exact (Overlay.start s.cache).foldl s order

theorem Linked.overlay_execute (linked : s.Linked) {targets : List String} {report : Report}
    (ok : (s.execute targets).1 = .ok report) :
    Overlay s.virtualColumns (s.execute targets).2.virtualColumns report := by
  have cached := overlay_cache s targets ok
  have active : ∀ x, (s.execute targets).2.isActive x = s.isActive x := by
    intro x
    rw [execute_rest]
    rfl
  refine ⟨fun x => ?_, cached.affected⟩
  rw [getElem?_virtualColumns, getElem?_virtualColumns, active]
  split
  · exact cached.column x
  · rename_i inactive
    have unreported : x ∉ report.results := by
      rw [← cached.affected, linked.affected_execute ok]
      exact fun h => inactive (isActive_of_mem_closure h)
    rw [Std.ExtTreeMap.getElem?_eq_none unreported, Option.or_none]

theorem getElem?_virtualColumns_added (s : Sheet) (column : String) (c : Calculation) :
    (∀ x, (s.added column c).Reaches [column] x →
      ((s.added column c).uncacheCascade column).virtualColumns[x]? = none) ∧
    ∀ x, ¬ (s.added column c).Reaches [column] x →
      ((s.added column c).uncacheCascade column).virtualColumns[x]? = s.virtualColumns[x]? := by
  have drops := drops_uncacheCascade (s.added column c) column
  refine ⟨fun x reached => ?_, fun x reached => ?_⟩
  · rw [getElem?_virtualColumns, drops.none x reached, ite_self]
  · have hx : x ≠ column := fun e => reached (.of_mem (List.mem_singleton.2 e))
    have active : ((s.added column c).uncacheCascade column).isActive x = s.isActive x :=
      isActive_added s c hx
    rw [getElem?_virtualColumns, getElem?_virtualColumns, drops.same x reached, active]
    rfl

/-- The columns that the addition of a column, from the sheet `s` to the sheet `t`, calls for. -/
inductive Due (s t : Sheet) (column : String) : String → Prop where
  | added : Due s t column column
  | reader {x : String} : t.isActive x = true → TransGen t.Depends x column → Due s t column x
  | needed {x y : String} : Due s t column x → t.Depends x y → t.isActive y = true →
      s.isCached y = false → Due s t column y

structure TellsAddition (s t : Sheet) (column : String) (report : Report) : Prop where
  shown : Overlay s.virtualColumns t.virtualColumns report
  due : ∀ x, x ∈ report.affected ↔ s.Due t column x

/-- An addition computes just what is due. -/
theorem Linked.mem_closure_added_iff (linked : (s.added column c).Linked) (active : c.active = true)
    (cache : ByName ColumnValues) (x : String) :
    x ∈ ((s.added column c).uncacheCascade column).closure ((s.added column c).cascade column).toList ↔
      s.Due { (s.added column c).uncacheCascade column with cache } column x := by
  let u := (s.added column c).uncacheCascade column
  have drops : Drops _ (s.added column c) u := drops_uncacheCascade (s.added column c) column
  have there := (mem_keys_added s column c column).2 (.inl rfl)
  have here : (s.added column c).isActive column = true := (isActive_added_self s column c).trans active
  have target : ∀ y, y ∈ ((s.added column c).cascade column).toList ↔
      (s.added column c).Reaches [column] y := by
    intro y
    rw [Std.ExtTreeSet.mem_toList, mem_cascade]
  have reached_iff := linked.reaches_iff there
  have first : ∀ y, (s.added column c).Reaches [column] y → u.isActive y = true →
      s.Due { u with cache } column y := by
    intro y hy hact
    rcases (reached_iff y).1 hy with rfl | path
    · exact .added
    · exact .reader hact path
  constructor
  · refine closure_induction (P := s.Due { u with cache } column)
      (fun y hy => first y ((target y).1 hy)) ?_ x
    intro y z due edge hact uncached
    by_cases reached : (s.added column c).Reaches [column] z
    · exact first z reached hact
    · refine .needed due ⟨linked.sound y z edge, mem_keys_of_isActive hact⟩ hact ?_
      rw [isCached_eq_false_iff] at uncached ⊢
      exact (drops.same z reached).symm.trans uncached
  · intro due
    induction due with
    | added => exact mem_closure_of_mem ((target column).2 ((reached_iff column).2 (.inl rfl))) here
    | @reader x hact path =>
      exact mem_closure_of_mem ((target x).2 ((reached_iff x).2 (.inr path))) hact
    | @needed x y _ reads hact uncached ih =>
      by_cases self : y = x
      · rwa [self]
      · have edge := linked.complete x y reads.1 reads.2 self
        refine closure_closed ih edge hact ((isCached_eq_false_iff u y).2 ?_)
        rw [isCached_eq_false_iff] at uncached
        by_cases reached : (s.added column c).Reaches [column] y
        · exact drops.none y reached
        · exact (drops.same y reached).trans uncached

theorem hidden_of_added (unused : column ∉ s.calculations.keys) {x : String}
    (inactive : (s.added column c).isActive x ≠ true) : s.virtualColumns[x]? = none := by
  rw [getElem?_virtualColumns]
  refine if_neg fun active => ?_
  have old : x ≠ column := by
    rintro rfl
    exact unused (mem_keys_of_isActive active)
  exact inactive ((isActive_added s c old).trans active)

/-- Whether a column that becomes stale is computed again or left stale and inactive, the report of an
addition tells of it. -/
theorem Linked.overlay_add (linked : s.Linked) (active : c.active = true) {report : Report}
    (ok : (s.add column c).1 = .ok report) :
    s.TellsAddition (s.add column c).2 column report := by
  rcases add_cases s column c with ⟨e, he⟩ | ⟨free, here, he⟩
  · rw [he] at ok
    cases ok
  · let u := (s.added column c).uncacheCascade column
    have unused := (free_of_nameFault? free).1
    have linked' : (s.added column c).Linked := linked.added unused c here
    have dropped : u.Linked := linked'.of_drops (drops_uncacheCascade _ _)
    obtain ⟨gone, same⟩ := getElem?_virtualColumns_added s column c
    rw [if_pos active] at he
    rw [he] at ok ⊢
    have computed := dropped.overlay_execute ok
    have affected := dropped.affected_execute ok
    refine ⟨⟨fun x => ?_, computed.affected⟩, fun x => ?_⟩
    · rw [computed.column]
      by_cases reached : (s.added column c).Reaches [column] x
      · rw [gone x reached]
        by_cases shown : u.isActive x = true
        · have target : x ∈ ((s.added column c).cascade column).toList := by
            rw [Std.ExtTreeSet.mem_toList, mem_cascade]
            exact reached
          have reported := (computed.affected x).1 ((affected x).2 (mem_closure_of_mem target shown))
          obtain ⟨values, hv⟩ := (ByName.mem_iff _ x).1 reported
          rw [hv, Option.some_or, Option.some_or]
        · rw [hidden_of_added unused shown]
      · rw [same x reached]
    · rw [execute_rest]
      exact (affected x).trans (linked'.mem_closure_added_iff active _ x)

theorem Linked.overlay_addText (linked : s.Linked) {id : Nat} {name column text : String}
    {report : Report} (ok : (s.addText id name column text).1 = .ok report) :
    s.TellsAddition (s.addText id name column text).2 column report := by
  unfold addText at ok ⊢
  split at ok
  · cases ok
  · rename_i formula parsed
    simp only at ok ⊢
    cases result : (s.add column ⟨id, name, formula, true⟩).1 with
    | error e => rw [result] at ok; cases ok
    | ok r =>
      rw [result] at ok
      cases ok
      exact linked.overlay_add rfl result

/-- In every session, also over a source that changes by itself: whoever puts the results of the report
into the columns shown before has the columns shown after, for an addition, for the computation of all
columns and for that of the stale ones. The report of an addition has just the new column, what reads
it, and what these need. -/
theorem reports_tell_all (source : Dataset) (library : Library) (ops : List Operation) :
    let s := (ofSource source library).after ops
    (∀ column c report, c.active = true → (s.add column c).1 = .ok report →
      s.TellsAddition (s.add column c).2 column report) ∧
    (∀ id name column text report, (s.addText id name column text).1 = .ok report →
      s.TellsAddition (s.addText id name column text).2 column report) ∧
    (∀ report, s.executeAll.1 = .ok report →
      Overlay s.virtualColumns s.executeAll.2.virtualColumns report) ∧
    ∀ report, s.refresh.1 = .ok report →
      Overlay s.virtualColumns s.refresh.2.virtualColumns report := by
  intro s
  have linked : s.Linked := Linked.after source library ops
  exact ⟨fun _ _ _ active => linked.overlay_add active, fun _ _ _ _ _ => linked.overlay_addText,
    fun _ => linked.overlay_execute, fun _ => linked.overlay_execute⟩

/-- The column x reads b before b is there, and w, which is stale; u is stale too, and k is not. The
column z depends on b through y, which is inactive. -/
def mixed : List Operation :=
  [.addText 0 "w" "w" "v", .addText 1 "u" "u" "v",
    .addText 2 "x" "x" "b == w", .add "y" ⟨3, "y", .atom (.field "x"), false⟩,
    .addText 4 "z" "z" "y", .invalidate "w", .invalidate "u", .addText 5 "k" "k" "v"]

set_option maxRecDepth 10000 in
theorem reports_tell_all_mixed :
    let s := (ofSource twoRows .standard).after mixed
    let c : Calculation := ⟨6, "b", .atom (.field "v"), true⟩
    s.virtualColumns.keys = ["k"] ∧ ∃ report, (s.add "b" c).1 = .ok report ∧
      report.affected.toList = ["b", "w", "x", "z"] ∧ s.TellsAddition (s.add "b" c).2 "b" report := by
  intro s c
  have computed : (s.add "b" c).1.toOption.map (·.affected.toList) = some ["b", "w", "x", "z"] := by
    decide +kernel
  obtain ⟨report, ok, affected⟩ := Option.map_eq_some_iff.1 computed
  have result : (s.add "b" c).1 = .ok report := by
    cases h : (s.add "b" c).1 with
    | error e => rw [h] at ok; cases ok
    | ok r => rw [h] at ok; cases ok; rfl
  have told := (reports_tell_all twoRows .standard mixed).1 "b" c report rfl result
  exact ⟨by decide +kernel, report, result, affected, told⟩

end Sheet

end DerivedColumns
