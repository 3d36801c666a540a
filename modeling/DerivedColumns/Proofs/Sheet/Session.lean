import DerivedColumns.Sheet.Edit

set_option autoImplicit false

namespace DerivedColumns

inductive Operation where
  | add (column : String) (c : Calculation)
  | addText (id : Nat) (name column text : String)
  | update (column : String) (p : Patch)
  | remove (column : String)
  | invalidate (column : String)
  | executeAll
  | refresh
  | setSource (source : Dataset)
  | drift (source : Dataset)

def Operation.Enters (P : Formula → Prop) : Operation → Prop
  | .add _ c => P c.formula
  | .addText _ _ _ text => ∀ f, Formula.parse text = .ok f → P f
  | .update _ p => ∀ f ∈ p.formula, P f
  | _ => True

theorem Operation.Enters.mono {P Q : Formula → Prop} (imp : ∀ f, P f → Q f) {op : Operation}
    (h : op.Enters P) : op.Enters Q := by
  cases op with
  | add column c => exact imp _ h
  | addText id name column text => exact fun f parsed => imp f (h f parsed)
  | update column p => exact fun f hf => imp f (h f hf)
  | _ => trivial

namespace Sheet

def perform (s : Sheet) : Operation → Sheet
  | .add column c => (s.add column c).2
  | .addText id name column text => (s.addText id name column text).2
  | .update column p => (s.update column p).2
  | .remove column => (s.remove column).2
  | .invalidate column => (s.invalidate column).2
  | .executeAll => s.executeAll.2
  | .refresh => s.refresh.2
  | .setSource source => s.setSource source
  | .drift source => s.drift source

def after (s : Sheet) (ops : List Operation) : Sheet := ops.foldl perform s

def Allows (allowed : Sheet → Operation → Prop) (s : Sheet) : List Operation → Prop
  | [] => True
  | op :: ops => allowed s op ∧ Allows allowed (s.perform op) ops

theorem after_of_step {P : Sheet → Prop} (step : ∀ s op, P s → P (s.perform op)) {s : Sheet}
    (h : P s) (ops : List Operation) : P (s.after ops) := by
  induction ops generalizing s with
  | nil => exact h
  | cons op ops ih => exact ih (step s op h)

theorem Allows.after {allowed : Sheet → Operation → Prop} {P : Sheet → Prop}
    (step : ∀ s op, allowed s op → P s → P (s.perform op)) {s : Sheet} (h : P s)
    {ops : List Operation} (hops : s.Allows allowed ops) : P (s.after ops) := by
  induction ops generalizing s with
  | nil => exact h
  | cons op ops ih => exact ih (step s op hops.1 h) hops.2

theorem addText_cases (s : Sheet) (id : Nat) (name column text : String) :
    (s.addText id name column text).2 = s ∨ ∃ formula, Formula.parse text = .ok formula ∧
      (s.addText id name column text).2 = (s.add column ⟨id, name, formula, true⟩).2 := by
  unfold addText
  split
  · exact .inl rfl
  · rename_i formula parsed
    exact .inr ⟨formula, parsed, rfl⟩

theorem execute_rest (s : Sheet) (targets : List String) :
    (s.execute targets).2 = { s with cache := (s.execute targets).2.cache } := by
  unfold execute
  dsimp only
  split <;> rfl

end Sheet

end DerivedColumns
