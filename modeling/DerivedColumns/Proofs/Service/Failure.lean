import DerivedColumns.Proofs.Service.Command

set_option autoImplicit false

namespace DerivedColumns

namespace Service

variable {v : Service}

/-- The same sheet, and nothing more sent to subscribers. -/
structure Untouched (v w : Service) : Prop where
  sheet : w.sheet = v.sheet
  sent : w.sent = v.sent

theorem untouched_self (v : Service) : v.Untouched v := ⟨rfl, rfl⟩

theorem untouched_failed {α : Type} {w : Service} (h : v.Untouched w) (f : Failure) :
    v.Untouched (complete (w.failed f : Commit α)).2 := h

theorem untouched_add (linked : v.sheet.Linked) (request : NewCalculation) {f : Failure}
    (failed : (v.add request).1 = .error f) : v.Untouched (v.add request).2 := by
  unfold add commitAdd at failed ⊢
  split
  · exact untouched_failed v.untouched_self _
  · rename_i formula parsed
    simp only [parsed] at failed
    let added := v.sheet.add request.column
      ⟨v.nextId, request.name.getD request.column, formula, request.active⟩
    dsimp only
    split
    · rename_i e result
      have same : v.Untouched { v with sheet := added.2, nextId := v.nextId + 1 } :=
        ⟨linked.atomic_add _ _ e result, rfl⟩
      exact untouched_failed same _
    · rename_i report result
      simp only [result] at failed
      cases failed

theorem untouched_update (column : String) (changes : CalculationUpdate) {f : Failure}
    (failed : (v.update column changes).1 = .error f) :
    v.Untouched (v.update column changes).2 := by
  unfold update commitUpdate at failed ⊢
  cases patched : patchOf changes with
  | error e => exact untouched_failed v.untouched_self _
  | ok patch =>
    have renamed : Sheet.target column patch = changes.column.getD column := by
      rw [Sheet.target_eq]
      unfold patchOf at patched
      split at patched
      · cases patched
        rfl
      · rename_i text _
        cases parsed : Formula.parse text with
        | error e => rw [parsed] at patched; cases patched
        | ok formula => rw [parsed] at patched; cases patched; rfl
    simp only [patched] at failed ⊢
    cases result : (v.sheet.update column patch).1 with
    | error e =>
      have same : v.Untouched { v with sheet := (v.sheet.update column patch).2 } :=
        ⟨Sheet.atomic_update v.sheet column patch e result, rfl⟩
      exact untouched_failed same _
    | ok _ =>
      obtain ⟨c, hc⟩ := Sheet.get?_update_target result
      rw [renamed] at hc
      simp only [result, hc] at failed
      cases failed

theorem untouched_remove (column : String) {f : Failure}
    (failed : (v.remove column).1 = .error f) : v.Untouched (v.remove column).2 := by
  unfold remove commitRemove at failed ⊢
  dsimp only at failed ⊢
  split
  · rename_i e result
    have same : v.Untouched { v with sheet := (v.sheet.remove column).2 } :=
      ⟨Sheet.atomic_remove v.sheet column e result, rfl⟩
    exact untouched_failed same _
  · rename_i c result
    simp only [result] at failed
    cases failed

theorem exists_executed (linked : v.sheet.Linked) (targets : List String) :
    ∃ report, (complete (v.executed (v.sheet.execute targets))).1 = .ok report := by
  obtain ⟨report, cache, result, -⟩ := linked.exists_execute targets
  unfold executed
  rw [result]
  exact ⟨report, rfl⟩

/-- A command that fails is one that does nothing. -/
theorem untouched_obey (linked : v.sheet.Linked) (command : Command) {f : Failure}
    (failed : (v.obey command).1 = .error f) : v.Untouched (v.obey command).2 := by
  have computed : ∀ {w : Service} (targets : List String), w.sheet.Linked →
      (quiet (complete (w.executed (w.sheet.execute targets)))).1 ≠ .error f := by
    intro w targets linked failed
    obtain ⟨report, result⟩ := exists_executed linked targets
    rw [quiet_eq_error_iff, result] at failed
    cases failed
  cases command with
  | add request => exact untouched_add linked request ((quiet_eq_error_iff _ f).1 failed)
  | update column changes => exact untouched_update column changes ((quiet_eq_error_iff _ f).1 failed)
  | remove column => exact untouched_remove column ((quiet_eq_error_iff _ f).1 failed)
  | executeAll => exact absurd failed (computed _ linked)
  | refresh => exact absurd failed (computed _ linked)
  | replaceSource source =>
    exact absurd failed
      (computed (w := { v with sheet := v.sheet.setSource source }) _ (linked.of_eq rfl rfl))

/-- The service is as before unless the reply says that the request was carried out. -/
def Spared (v : Service) (outcome : Reply × Service) : Prop :=
  outcome.1.status ≠ 200 → v.Untouched outcome.2

theorem spared_respond (linked : v.sheet.Linked) (r : Request) : v.Spared (v.respond r) := by
  intro status
  rcases v.obeys_respond r with same | ⟨command, same, refused⟩
  · rw [same]
    exact v.untouched_self
  · obtain ⟨f, failed⟩ := refused status
    rw [same]
    exact untouched_obey linked command failed

/-- An edit that fails changes nothing, in any session with any source; and a request that is not
answered with success leaves the sheet as it is, and no notification is sent. -/
theorem failures_change_nothing (source : Dataset) (library : Library) (ops : List Operation)
    (nextId : Nat) (sent : List Notification) :
    let s := (Sheet.ofSource source library).after ops
    (∀ column c, s.Atomic (s.add column c)) ∧
    (∀ id name column text, s.Atomic (s.addText id name column text)) ∧
    (∀ column p, s.Atomic (s.update column p)) ∧
    (∀ column, s.Atomic (s.remove column)) ∧
    (∀ column, s.Atomic (s.invalidate column)) ∧
    ∀ r, (⟨s, nextId, sent⟩ : Service).Spared ((⟨s, nextId, sent⟩ : Service).respond r) := by
  intro s
  have linked : s.Linked := Sheet.Linked.after source library ops
  exact ⟨linked.atomic_add, linked.atomic_addText, s.atomic_update, s.atomic_remove,
    s.atomic_invalidate, fun r => spared_respond linked r⟩

end Service

end DerivedColumns
