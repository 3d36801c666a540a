import DerivedColumns.Proofs.Sheet.Failure
import DerivedColumns.Service.Http

set_option autoImplicit false

namespace DerivedColumns

inductive Command where
  | add (request : NewCalculation)
  | update (column : String) (changes : CalculationUpdate)
  | remove (column : String)
  | executeAll
  | refresh
  | replaceSource (source : Dataset)

def Formula.Parsed (f : Formula) : Prop := ∃ text, parse text = .ok f

namespace Service

def quiet {α : Type} (outcome : Except Failure α × Service) : Except Failure Unit × Service :=
  (outcome.1.map fun _ => (), outcome.2)

def obey (v : Service) : Command → Except Failure Unit × Service
  | .add request => quiet (v.add request)
  | .update column changes => quiet (v.update column changes)
  | .remove column => quiet (v.remove column)
  | .executeAll => quiet v.executeAll
  | .refresh => quiet v.refresh
  | .replaceSource source => quiet (v.replaceSource source)

def follow (v : Service) (commands : List Command) : Service :=
  commands.foldl (fun v command => (v.obey command).2) v

def Allows (allowed : Service → Command → Prop) (v : Service) : List Command → Prop
  | [] => True
  | command :: commands => allowed v command ∧ Allows allowed (v.obey command).2 commands

theorem follow_of_obey {P : Service → Prop} (step : ∀ v command, P v → P (v.obey command).2)
    {v : Service} (h : P v) (commands : List Command) : P (v.follow commands) := by
  induction commands generalizing v with
  | nil => exact h
  | cons command commands ih => exact ih (step v command h)

theorem Allows.follow {allowed : Service → Command → Prop} {P : Service → Prop}
    (step : ∀ v command, allowed v command → P v → P (v.obey command).2) {v : Service} (h : P v)
    {commands : List Command} (allows : v.Allows allowed commands) : P (v.follow commands) := by
  induction commands generalizing v with
  | nil => exact h
  | cons command commands ih => exact ih (step v command allows.1 h) allows.2

variable {v : Service}

theorem quiet_eq_error_iff {α : Type} (outcome : Except Failure α × Service) (f : Failure) :
    (quiet outcome).1 = .error f ↔ outcome.1 = .error f := by
  unfold quiet
  cases outcome.1 with
  | error e => exact ⟨fun h => (by cases h; rfl), fun h => (by cases h; rfl)⟩
  | ok a => exact ⟨fun h => (by cases h), fun h => (by cases h)⟩

theorem exists_ok_of_quiet {α : Type} {outcome : Except Failure α × Service}
    (h : (quiet outcome).1 = .ok ()) : ∃ a, outcome.1 = .ok a := by
  unfold quiet at h
  cases result : outcome.1 with
  | error e => rw [result] at h; cases h
  | ok a => exact ⟨a, rfl⟩

theorem sheet_notify (v : Service) (changed : List String) : (v.notify changed).sheet = v.sheet := by
  unfold notify
  split <;> rfl

theorem sheet_executed (v : Service) (result : Except SheetError Report × Sheet) :
    (complete (v.executed result)).2.sheet = result.2 := by
  unfold executed
  dsimp only
  split
  · exact sheet_notify _ _
  · exact sheet_notify _ _

theorem sheet_add (v : Service) (request : NewCalculation) :
    (v.add request).2.sheet = v.sheet ∨ ∃ f, Formula.parse request.formula = .ok f ∧
      (v.add request).2.sheet = (v.sheet.add request.column
        ⟨v.nextId, request.name.getD request.column, f, request.active⟩).2 := by
  unfold add commitAdd
  split
  · exact .inl (sheet_notify v [])
  · rename_i f parsed
    refine .inr ⟨f, parsed, ?_⟩
    dsimp only
    split
    · exact sheet_notify _ _
    · exact sheet_notify _ _

theorem sheet_update (v : Service) (column : String) (changes : CalculationUpdate) :
    (v.update column changes).2.sheet = v.sheet ∨ ∃ p, patchOf changes = .ok p ∧
      (v.update column changes).2.sheet = (v.sheet.update column p).2 := by
  unfold update commitUpdate
  split
  · exact .inl (sheet_notify v [])
  · rename_i p patched
    refine .inr ⟨p, patched, ?_⟩
    dsimp only
    split
    · exact sheet_notify _ _
    · exact sheet_notify _ _
    · exact sheet_notify _ _

theorem sheet_remove (v : Service) (column : String) :
    (v.remove column).2.sheet = (v.sheet.remove column).2 := by
  unfold remove commitRemove
  dsimp only
  split
  · exact sheet_notify _ _
  · exact sheet_notify _ _

structure PatchOf (changes : CalculationUpdate) (p : Patch) : Prop where
  column : p.column = changes.column
  formula : p.formula = none ↔ changes.formula = none
  parsed : ∀ f ∈ p.formula, f.Parsed

theorem patchOf_cases {changes : CalculationUpdate} {p : Patch} (h : patchOf changes = .ok p) :
    PatchOf changes p := by
  unfold patchOf at h
  split at h
  · rename_i none
    cases h
    exact ⟨rfl, iff_of_true rfl none, fun f hf => by cases hf⟩
  · rename_i text some
    cases parsed : Formula.parse text with
    | error e => rw [parsed] at h; cases h
    | ok g =>
      rw [parsed] at h
      cases h
      refine ⟨rfl, ?_, fun f hf => by cases hf; exact ⟨text, parsed⟩⟩
      rw [some]
      exact iff_of_false (fun e => by cases e) fun e => by cases e

section Success

variable {column : String} {request : NewCalculation} {changes : CalculationUpdate}
  {view : CalculationView} {report : Report}

theorem add_eq_ok (ok : (v.add request).1 = .ok report) :
    ∃ c : Calculation, c.active = request.active ∧
      (v.sheet.add request.column c).1 = .ok report ∧
      (v.add request).2 =
        ({ v with sheet := (v.sheet.add request.column c).2, nextId := v.nextId + 1 } : Service).notify
          (report.affected.toList ++ [request.column]) := by
  unfold add commitAdd at ok ⊢
  split at ok
  · cases ok
  · rename_i f parsed
    dsimp only at ok ⊢
    split at ok
    · cases ok
    · rename_i report' result
      cases ok
      exact ⟨⟨v.nextId, request.name.getD request.column, f, request.active⟩, rfl, result, rfl⟩

theorem update_eq_ok (ok : (v.update column changes).1 = .ok view) :
    ∃ p, PatchOf changes p ∧ (v.sheet.update column p).1 = .ok () ∧
      (v.update column changes).2 =
        ({ v with sheet := (v.sheet.update column p).2 } : Service).notify
          (column :: Sheet.target column p ::
            ((v.sheet.update column p).2.dependents (Sheet.target column p)).toList) := by
  unfold update commitUpdate at ok ⊢
  split at ok
  · cases ok
  · rename_i p patched
    have read := patchOf_cases patched
    dsimp only at ok ⊢
    split at ok
    · cases ok
    · cases ok
    · rename_i c result found
      refine ⟨p, read, result, ?_⟩
      rw [Sheet.target_eq, read.column]
      rfl

theorem remove_eq_ok (ok : (v.remove column).1 = .ok view) :
    (v.remove column).2 = ({ v with sheet := (v.sheet.remove column).2 } : Service).notify
      (column :: (v.sheet.dependents column).toList) := by
  unfold remove commitRemove at ok ⊢
  dsimp only at ok ⊢
  split at ok
  · cases ok
  · rfl

theorem executed_eq_ok {result : Except SheetError Report × Sheet}
    (ok : (complete (v.executed result)).1 = .ok report) :
    result.1 = .ok report ∧ (complete (v.executed result)).2 =
      ({ v with sheet := result.2 } : Service).notify report.affected.toList := by
  unfold executed at ok ⊢
  dsimp only at ok ⊢
  split at ok
  · rename_i report' computed
    cases ok
    exact ⟨computed, rfl⟩
  · cases ok

end Success

/-- A command does to the sheet what operations with formulas that were read do to it. -/
theorem obey_operations (v : Service) (command : Command) :
    ∃ ops : List Operation, (v.obey command).2.sheet = v.sheet.after ops ∧
      ∀ op ∈ ops, op.Enters Formula.Parsed := by
  have none : ∀ {s : Sheet}, s = v.sheet → ∃ ops : List Operation, s = v.sheet.after ops ∧
      ∀ op ∈ ops, op.Enters Formula.Parsed := fun e => ⟨[], e, fun op hop => by cases hop⟩
  have one : ∀ {s : Sheet} (op : Operation), s = v.sheet.perform op → op.Enters Formula.Parsed →
      ∃ ops : List Operation, s = v.sheet.after ops ∧ ∀ op ∈ ops, op.Enters Formula.Parsed := by
    intro s op e enters
    exact ⟨[op], e, fun op' hop => List.mem_singleton.1 hop ▸ enters⟩
  cases command with
  | add request =>
    rcases v.sheet_add request with e | ⟨f, parsed, e⟩
    · exact none e
    · exact one (.add request.column _) e ⟨request.formula, parsed⟩
  | update column changes =>
    rcases v.sheet_update column changes with e | ⟨p, patched, e⟩
    · exact none e
    · exact one (.update column p) e (patchOf_cases patched).parsed
  | remove column => exact one (.remove column) (v.sheet_remove column) trivial
  | executeAll => exact one .executeAll (v.sheet_executed _) trivial
  | refresh => exact one .refresh (v.sheet_executed _) trivial
  | replaceSource source =>
    refine ⟨[.setSource source, .refresh], v.sheet_executed _, ?_⟩
    intro op hop
    rcases List.mem_cons.1 hop with rfl | hop
    · trivial
    · exact List.mem_singleton.1 hop ▸ trivial

theorem linked_obey (linked : v.sheet.Linked) (command : Command) :
    (v.obey command).2.sheet.Linked := by
  obtain ⟨ops, e, -⟩ := v.obey_operations command
  rw [e]
  exact linked.becomes (.after _ ops)

/-- A request that does anything is a command, and is answered with success if the command is. -/
def Obeys (v : Service) (outcome : Reply × Service) : Prop :=
  outcome.2 = v ∨ ∃ command, outcome.2 = (v.obey command).2 ∧
    (outcome.1.status ≠ 200 → ∃ f, (v.obey command).1 = .error f)

theorem obeys_self (v : Service) (r : Reply) : v.Obeys (r, v) := .inl rfl

theorem obeys_of {α : Type} (toJson : α → Json) {outcome : Except Failure α × Service}
    (command : Command) (h : v.obey command = quiet outcome) :
    v.Obeys (.of toJson outcome.1, outcome.2) := by
  refine .inr ⟨command, by rw [h]; rfl, fun refused => ?_⟩
  cases result : outcome.1 with
  | error f => exact ⟨f, by rw [h, quiet_eq_error_iff, result]⟩
  | ok a =>
    rw [result] at refused
    exact absurd rfl refused

theorem obeys_withBody {α : Type} (v : Service) (r : Request)
    (ofBody : String → Except Json.Scan.Fault α) {carryOut : α → Reply × Service}
    (h : ∀ a, v.Obeys (carryOut a)) : v.Obeys (v.withBody r ofBody carryOut) := by
  unfold withBody
  split
  · split
    · exact h _
    · exact v.obeys_self _
    · exact v.obeys_self _
  · exact v.obeys_self _

theorem obeys_respondOn (v : Service) (r : Request) (method : Method) (column : String) :
    v.Obeys (v.respondOn r method column) := by
  unfold respondOn
  split
  · exact v.obeys_withBody r _ fun changes => obeys_of _ (.update column changes) rfl
  · exact obeys_of _ (.remove column) rfl
  · split
    · exact v.obeys_self _
    · exact v.obeys_self _

theorem obeys_respondTo (v : Service) (r : Request) (method : Method) (resource : Resource) :
    v.Obeys (v.respondTo r method resource) := by
  unfold respondTo
  split
  · exact v.obeys_withBody r _ fun request => v.obeys_self _
  · split
    · exact v.obeys_withBody r _ fun request => obeys_of _ (.add request) rfl
    · exact v.obeys_self _
  · split
    · exact v.obeys_self _
    · exact v.obeys_respondOn r method _
  · exact obeys_of _ .executeAll rfl
  · exact obeys_of _ .refresh rfl
  · exact v.obeys_self _
  · exact v.obeys_self _
  · exact v.obeys_self _

theorem obeys_respond (v : Service) (r : Request) : v.Obeys (v.respond r) := by
  unfold respond
  split
  · exact v.obeys_self _
  · split
    · exact v.obeys_self _
    · rename_i resource _ _ method _
      rcases v.obeys_respondTo r method resource with same | ⟨command, same, refused⟩
      · exact .inl same
      · refine .inr ⟨command, same, fun status => refused ?_⟩
        dsimp only at status
        split at status
        · unfold Reply.withheld at status
          split at status <;> exact status
        · exact status

end Service

end DerivedColumns
