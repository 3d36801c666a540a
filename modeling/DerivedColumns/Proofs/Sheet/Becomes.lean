import DerivedColumns.Proofs.Sheet.Edit
import DerivedColumns.Proofs.Sheet.Session

set_option autoImplicit false

/-!
Every operation is a few changes of the sheet, one after the other. What none of these changes breaks is
kept in every session.
-/

namespace DerivedColumns

open Relation

namespace Sheet

variable {s t : Sheet}

/-- A calculation is added, removed or edited only together with dropping what it makes stale. -/
inductive Becomes (s : Sheet) : Sheet → Prop where
  | same : s.Becomes s
  | shown {t : Sheet} (before : s.Becomes t) (source : Dataset) : s.Becomes { t with source }
  | dropped {t u : Sheet} {gone : String → Prop} (before : s.Becomes t) (drops : Drops gone t u)
    (upward : ∀ x y, t.graph.Edge x y → gone y → gone x) : s.Becomes u
  | computed {t : Sheet} (before : s.Becomes t) (targets : List String) :
    s.Becomes (t.execute targets).2
  | added {t : Sheet} {column : String} {c : Calculation} (before : s.Becomes t)
    (free : t.nameFault? column = none)
    (here : ¬ TransGen (t.added column c).graph.Edge column column) :
    s.Becomes ((t.added column c).uncacheCascade column)
  | removed {t u : Sheet} {column : String} (before : s.Becomes t)
    (drops : Drops (t.Reaches [column]) (t.removed column) u) : s.Becomes u
  | edited {t : Sheet} {column : String} {p : Patch} {c : Calculation} (before : s.Becomes t)
    (editable : t.Editable column p c)
    (here : ¬ TransGen (t.editedGraph column p).Edge (target column p) (target column p)) :
    s.Becomes ((t.seeds column p c).foldl uncacheCascade (t.edited column p c))

namespace Becomes

theorem uncacheCascade (before : s.Becomes t) (column : String) : s.Becomes (t.uncacheCascade column) :=
  before.dropped (drops_uncacheCascade t column) fun _ _ edge => .head edge

theorem setSource (before : s.Becomes t) (source : Dataset) : s.Becomes (t.setSource source) := by
  have drops : Drops (fun _ => True) { t with source } (t.setSource source) :=
    ⟨rfl, fun _ _ => Std.ExtTreeMap.getElem?_empty, fun _ kept => (kept trivial).elim⟩
  exact (before.shown source).dropped drops fun _ _ _ _ => trivial

theorem add (before : s.Becomes t) (column : String) (c : Calculation) :
    s.Becomes (t.add column c).2 := by
  rcases add_cases t column c with ⟨e, he⟩ | ⟨free, here, he⟩
  · rw [he]
    exact before
  · rw [he]
    split
    · exact (before.added free here).computed _
    · exact before.added free here

theorem update (before : s.Becomes t) (column : String) (p : Patch) :
    s.Becomes (t.update column p).2 := by
  rcases update_cases t column p with ⟨e, he⟩ | ⟨c, editable, here, he⟩
  · rw [he]
    exact before
  · rw [he]
    exact before.edited editable here

theorem remove (before : s.Becomes t) (column : String) : s.Becomes (t.remove column).2 := by
  rcases remove_cases t column with ⟨e, he⟩ | ⟨c, u, -, he, drops⟩
  · rw [he]
    exact before
  · rw [he]
    exact before.removed drops

theorem invalidate (before : s.Becomes t) (column : String) : s.Becomes (t.invalidate column).2 := by
  unfold Sheet.invalidate
  split
  · exact before.uncacheCascade column
  · exact before

theorem perform (before : s.Becomes t) (op : Operation) : s.Becomes (t.perform op) := by
  cases op with
  | add column c => exact before.add column c
  | addText id name column text =>
    rcases addText_cases t id name column text with he | ⟨formula, -, he⟩
    · exact (congrArg s.Becomes he).mpr before
    · exact (congrArg s.Becomes he).mpr (before.add column _)
  | update column p => exact before.update column p
  | remove column => exact before.remove column
  | invalidate column => exact before.invalidate column
  | executeAll => exact before.computed _
  | refresh => exact before.computed _
  | setSource source => exact before.setSource source
  | drift source => exact before.shown source

theorem after (s : Sheet) (ops : List Operation) : s.Becomes (s.after ops) :=
  after_of_step (fun _ op before => before.perform op) .same ops

end Becomes

end Sheet

end DerivedColumns
