import DerivedColumns.Proofs.Service.Failure
import DerivedColumns.Proofs.Sheet.Difference

set_option autoImplicit false

namespace DerivedColumns

open Relation

namespace Service

variable {v : Service} {request : NewCalculation} {report : Report}

def Told (v w : Service) (x : String) : Prop := ∃ names, w.sent = v.sent ++ [names] ∧ x ∈ names

theorem told_notify_iff (v : Service) (sheet : Sheet) (nextId : Nat) (changed : List String) (x : String) :
    v.Told (({ v with sheet, nextId } : Service).notify changed) x ↔ x ∈ changed := by
  have members : x ∈ (Names.ofList changed).toList ↔ x ∈ changed := by
    rw [Std.ExtTreeSet.mem_toList, Names.mem_ofList]
  unfold notify
  split
  · rename_i none
    rw [none] at members
    rw [← members]
    constructor
    · rintro ⟨names, e, -⟩
      exact absurd (List.self_eq_append_right.1 e) (List.cons_ne_nil _ _)
    · intro h
      cases h
  · rw [← members]
    constructor
    · rintro ⟨names, e, h⟩
      obtain rfl := List.singleton_inj.1 (List.append_cancel_left e)
      exact h
    · intro h
      exact ⟨_, rfl, h⟩

/-- An inactive addition that succeeds, of a column on which an active and cached one depends. -/
def Hides (v : Service) : Command → Prop
  | .add request => request.active = false ∧ (∃ report, (v.add request).1 = .ok report) ∧
      ∃ x, v.sheet.isActive x = true ∧ v.sheet.isCached x = true ∧
        TransGen (v.add request).2.sheet.Depends x request.column
  | _ => False

theorem not_hides_of_error {command : Command} {f : Failure} (failed : (v.obey command).1 = .error f) :
    ¬ v.Hides command := by
  cases command with
  | add request =>
    rintro ⟨-, ⟨report, ok⟩, -⟩
    rw [(quiet_eq_error_iff _ f).1 failed] at ok
    cases ok
  | _ => exact id

/-- Only the column is named, and nothing is shown any longer of those that depend on it. -/
structure Silenced (v w : Service) (column : String) : Prop where
  named : ∀ x, v.Told w x ↔ x = column
  differs : ∀ x, x ≠ column → (v.sheet.Differs w.sheet x ↔
    v.sheet.isActive x = true ∧ v.sheet.isCached x = true ∧ TransGen w.sheet.Depends x column)
  gone : ∀ x, x ≠ column → v.sheet.Differs w.sheet x → w.sheet.virtualColumns[x]? = none

theorem told_add (ok : (v.add request).1 = .ok report) (x : String) :
    v.Told (v.add request).2 x ↔ x ∈ report.affected ∨ x = request.column := by
  obtain ⟨c, -, -, whole⟩ := add_eq_ok ok
  rw [whole, told_notify_iff, List.mem_append, Std.ExtTreeSet.mem_toList, List.mem_singleton]

theorem silenced_add (linked : v.sheet.Linked) (inactive : request.active = false)
    (ok : (v.add request).1 = .ok report) : v.Silenced (v.add request).2 request.column := by
  obtain ⟨c, same, added, whole⟩ := add_eq_ok ok
  rw [inactive] at same
  have sheet : (v.add request).2.sheet = (v.sheet.add request.column c).2 := by
    rw [whole, sheet_notify]
  refine ⟨fun x => ?_, fun x hx => ?_, fun x hx => ?_⟩
  · rw [told_add ok, Sheet.report_add_inactive same added]
    exact or_iff_right Std.ExtTreeSet.not_mem_empty
  · rw [sheet]
    exact (Sheet.differs_add_inactive_iff linked same added hx).1
  · rw [sheet]
    exact (Sheet.differs_add_inactive_iff linked same added hx).2

theorem told_add_iff (linked : v.sheet.Linked) (ok : (v.add request).1 = .ok report) :
    (∀ x, v.sheet.Differs (v.add request).2.sheet x → v.Told (v.add request).2 x) ↔
      ¬ v.Hides (.add request) := by
  cases active : request.active with
  | true =>
    obtain ⟨c, same, added, whole⟩ := add_eq_ok ok
    refine iff_of_true (fun x differs => ?_) fun h => ?_
    · rw [whole, sheet_notify] at differs
      exact (told_add ok x).2 (Sheet.differs_add linked (same.trans active) added differs)
    · rw [h.1] at active
      cases active
  | false =>
    have silenced := silenced_add linked active ok
    constructor
    · rintro all ⟨-, -, x, shown⟩
      have hx : x ≠ request.column := by
        rintro rfl
        obtain ⟨c, -, added, -⟩ := add_eq_ok ok
        exact Sheet.unused_of_add added (Sheet.mem_keys_of_isActive shown.1)
      exact hx ((silenced.named x).1 (all x ((silenced.differs x hx).2 shown)))
    · intro none x differs
      by_contra untold
      have hx := fun e => untold ((silenced.named x).2 e)
      exact none ⟨active, ⟨report, ok⟩, x, (silenced.differs x hx).1 differs⟩

theorem told_update (linked : v.sheet.Linked) (pruned : v.sheet.Pruned) {column : String}
    {changes : CalculationUpdate} {view : CalculationView} (ok : (v.update column changes).1 = .ok view)
    {x : String} (differs : v.sheet.Differs (v.update column changes).2.sheet x) :
    v.Told (v.update column changes).2 x := by
  obtain ⟨p, -, updated, whole⟩ := update_eq_ok ok
  rw [whole] at differs ⊢
  rw [sheet_notify] at differs
  rw [told_notify_iff, List.mem_cons, List.mem_cons, Std.ExtTreeSet.mem_toList]
  exact Sheet.differs_update linked pruned updated differs

theorem told_remove {column : String} {view : CalculationView} (ok : (v.remove column).1 = .ok view)
    {x : String} (differs : v.sheet.Differs (v.remove column).2.sheet x) :
    v.Told (v.remove column).2 x := by
  rw [remove_eq_ok ok] at differs ⊢
  rw [sheet_notify] at differs
  rw [told_notify_iff, List.mem_cons, Std.ExtTreeSet.mem_toList]
  exact Sheet.differs_remove differs

theorem told_executed {result : Except SheetError Report × Sheet} {report : Report}
    (ok : (complete (v.executed result)).1 = .ok report) {x : String}
    (reported : result.1 = .ok report → v.sheet.Differs result.2 x → x ∈ report.affected)
    (differs : v.sheet.Differs (complete (v.executed result)).2.sheet x) :
    v.Told (complete (v.executed result)).2 x := by
  obtain ⟨computed, whole⟩ := executed_eq_ok ok
  rw [whole] at differs ⊢
  rw [sheet_notify] at differs
  rw [told_notify_iff, Std.ExtTreeSet.mem_toList]
  exact reported computed differs

/-- A command names all columns that differ after it, unless it hides some. -/
theorem told_iff_not_hides (linked : v.sheet.Linked) (pruned : v.sheet.Pruned) (command : Command) :
    (∀ x, v.sheet.Differs (v.obey command).2.sheet x → v.Told (v.obey command).2 x) ↔
      ¬ v.Hides command := by
  cases answer : (v.obey command).1 with
  | error f =>
    have same := (untouched_obey linked command answer).sheet
    rw [same]
    exact ⟨fun _ => not_hides_of_error answer, fun _ x h => absurd h (v.sheet.not_differs_self x)⟩
  | ok _ =>
    cases command with
    | add request =>
      obtain ⟨report, ok⟩ := exists_ok_of_quiet answer
      exact told_add_iff linked ok
    | update column changes =>
      obtain ⟨view, ok⟩ := exists_ok_of_quiet answer
      exact iff_of_true (fun _ => told_update linked pruned ok) id
    | remove column =>
      obtain ⟨view, ok⟩ := exists_ok_of_quiet answer
      exact iff_of_true (fun _ => told_remove ok) id
    | executeAll =>
      obtain ⟨report, ok⟩ := exists_ok_of_quiet answer
      exact iff_of_true (fun _ => told_executed ok (Sheet.differs_execute linked)) id
    | refresh =>
      obtain ⟨report, ok⟩ := exists_ok_of_quiet answer
      exact iff_of_true (fun _ => told_executed ok (Sheet.differs_execute linked)) id
    | replaceSource source =>
      obtain ⟨report, ok⟩ := exists_ok_of_quiet answer
      exact iff_of_true (fun _ => told_executed ok (Sheet.differs_setSource linked source)) id

/-- In every session, with any source: a command names to the subscribers all columns whose definition or
whose shown cells differ after it, except an inactive addition of a column on which a shown one depends:
that names its own column alone. A command that fails does nothing and sends nothing. -/
theorem notices_complete_iff (source : Dataset) (library : Library) (ops : List Operation)
    (nextId : Nat) (sent : List Notification) :
    let v : Service := ⟨(Sheet.ofSource source library).after ops, nextId, sent⟩
    ∀ command,
      ((∀ x, v.sheet.Differs (v.obey command).2.sheet x → v.Told (v.obey command).2 x) ↔
        ¬ v.Hides command) ∧
      (∀ request report, command = .add request → request.active = false →
        (v.add request).1 = .ok report → v.Silenced (v.obey command).2 request.column) ∧
      ∀ f, (v.obey command).1 = .error f → v.Untouched (v.obey command).2 := by
  intro v command
  have linked : v.sheet.Linked := Sheet.Linked.after source library ops
  have pruned : v.sheet.Pruned := Sheet.Pruned.after source library ops
  refine ⟨told_iff_not_hides linked pruned command, ?_, fun f failed => untouched_obey linked command failed⟩
  rintro request report rfl inactive ok
  exact silenced_add linked inactive ok

def unfinished : Service :=
  (ofSheet (.ofSource Sheet.twoRows .standard)).follow [.add ⟨none, "b", "a + 1", true⟩]

set_option maxRecDepth 10000 in
theorem not_told_unfinished :
    let command := Command.add ⟨none, "a", "v", false⟩
    ¬ ∀ x, unfinished.sheet.Differs (unfinished.obey command).2.sheet x →
      unfinished.Told (unfinished.obey command).2 x := by
  intro command all
  have shown : unfinished.sheet.virtualColumns.contains "b" = true := by decide +kernel
  have hidden : (unfinished.obey command).2.sheet.virtualColumns.contains "b" = false := by
    decide +kernel
  have sent : unfinished.sent = [["b"]] ∧ (unfinished.obey command).2.sent = [["b"], ["a"]] := by
    decide +kernel
  obtain ⟨names, more, named⟩ := all "b" (.inr fun same => by
    rw [Std.ExtTreeMap.contains_eq_isSome_getElem?] at shown hidden
    rw [same, shown] at hidden
    cases hidden)
  rw [sent.1, sent.2] at more
  obtain rfl : names = ["a"] := by
    cases more
    rfl
  exact absurd named (by decide)

end Service

end DerivedColumns
