import DerivedColumns.Proofs.Sheet.Edit
import DerivedColumns.Proofs.Sheet.Session

set_option autoImplicit false

namespace DerivedColumns

namespace Sheet

def EveryFormula (P : Formula → Prop) (s : Sheet) : Prop :=
  ∀ x c, s.calculations.get? x = some c → P c.formula

namespace EveryFormula

variable {P : Formula → Prop} {s t : Sheet} {column : String} {p : Patch} {c : Calculation}

theorem of_eq (h : s.EveryFormula P) (same : t.calculations = s.calculations) :
    t.EveryFormula P := by
  unfold EveryFormula
  rw [same]
  exact h

theorem ofSource (source : Dataset) (library : Library) :
    (Sheet.ofSource source library).EveryFormula P := by
  intro x c hc
  cases hc

theorem added (h : s.EveryFormula P) (hc : P c.formula) : (s.added column c).EveryFormula P := by
  intro x d hd
  rw [get?_added] at hd
  split at hd
  · obtain rfl := Option.some.inj hd
    exact hc
  · exact h x d hd

theorem removed (h : s.EveryFormula P) : (s.removed column).EveryFormula P := by
  intro x d hd
  rw [get?_removed] at hd
  split at hd
  · cases hd
  · exact h x d hd

theorem edited (h : s.EveryFormula P) (renamed : ∀ f, P f → P (f.rename column (target column p)))
    (editable : s.Editable column p c) (hp : ∀ f ∈ p.formula, P f) :
    (s.edited column p c).EveryFormula P := by
  intro x d hd
  rw [get?_edited editable] at hd
  split at hd
  · obtain rfl := Option.some.inj hd
    cases hf : p.formula with
    | none =>
      rw [patched, hf, Option.getD_none]
      exact renamed c.formula (h column c editable.found)
    | some f =>
      rw [patched, hf, Option.getD_some]
      exact hp f hf
  · split at hd
    · cases hd
    · obtain ⟨e, he, rfl⟩ := Option.map_eq_some_iff.1 hd
      exact renamed e.formula (h x e he)

theorem execute (h : s.EveryFormula P) (targets : List String) :
    (s.execute targets).2.EveryFormula P := by
  rw [execute_rest]
  exact h

theorem add (h : s.EveryFormula P) (column : String) (hc : P c.formula) :
    (s.add column c).2.EveryFormula P := by
  rcases add_cases s column c with ⟨e, he⟩ | ⟨-, -, he⟩
  · rw [he]
    exact h
  · have entered : ((s.added column c).uncacheCascade column).EveryFormula P :=
      (h.added hc).of_eq rfl
    rw [he]
    split
    · exact entered.execute _
    · exact entered

theorem remove (h : s.EveryFormula P) (column : String) : (s.remove column).2.EveryFormula P := by
  rcases remove_cases s column with ⟨e, he⟩ | ⟨c, t, -, he, drops⟩
  · rw [he]
    exact h
  · rw [he]
    exact h.removed.of_eq drops.calculations

theorem update (h : s.EveryFormula P) (renamed : ∀ f, P f → P (f.rename column (target column p)))
    (hp : ∀ f ∈ p.formula, P f) : (s.update column p).2.EveryFormula P := by
  rcases update_cases s column p with ⟨e, he⟩ | ⟨c, editable, -, he⟩
  · rw [he]
    exact h
  · rw [he]
    exact (h.edited renamed editable hp).of_eq (drops_uncacheCascades _ _).calculations

theorem perform (renamed : ∀ f old new, P f → P (f.rename old new)) (h : s.EveryFormula P)
    {op : Operation} (enters : op.Enters P) : (s.perform op).EveryFormula P := by
  cases op with
  | add column c => exact h.add column enters
  | addText id name column text =>
    rcases addText_cases s id name column text with he | ⟨formula, parsed, he⟩
    · exact h.of_eq (congrArg calculations he)
    · exact (h.add column (enters formula parsed)).of_eq (congrArg calculations he)
  | update column p => exact h.update (fun f => renamed f _ _) enters
  | remove column => exact h.remove column
  | invalidate column =>
    change (s.invalidate column).2.EveryFormula P
    unfold Sheet.invalidate
    split
    · exact h.of_eq (drops_uncacheCascade s column).calculations
    · exact h
  | executeAll => exact h.execute _
  | refresh => exact h.execute _
  | setSource source => exact h
  | drift source => exact h

theorem after (renamed : ∀ f old new, P f → P (f.rename old new)) (h : s.EveryFormula P)
    {ops : List Operation} (enter : ∀ op ∈ ops, op.Enters P) : (s.after ops).EveryFormula P := by
  induction ops generalizing s with
  | nil => exact h
  | cons op ops ih =>
    exact ih (h.perform renamed (enter op List.mem_cons_self))
      fun op' hop => enter op' (List.mem_cons_of_mem _ hop)

end EveryFormula

end Sheet

end DerivedColumns
