import DerivedColumns.Proofs.Sheet.Recompute

set_option autoImplicit false

namespace DerivedColumns

namespace Sheet

variable {s : Sheet} {column : String}

def Atomic {ε α : Type} (s : Sheet) (edit : Except ε α × Sheet) : Prop :=
  ∀ e, edit.1 = .error e → edit.2 = s

theorem atomic_error {ε α : Type} (s : Sheet) (e : ε) :
    s.Atomic ((.error e, s) : Except ε α × Sheet) :=
  fun _ _ => rfl

theorem atomic_ok {ε α : Type} (s t : Sheet) (a : α) : s.Atomic ((.ok a, t) : Except ε α × Sheet) := by
  intro e failed
  cases failed

theorem Linked.atomic_add (linked : s.Linked) (column : String) (c : Calculation) :
    s.Atomic (s.add column c) := by
  rcases add_cases s column c with ⟨e, he⟩ | ⟨free, here, he⟩
  · rw [he]
    exact atomic_error s e
  · have dropped : ((s.added column c).uncacheCascade column).Linked :=
      (linked.added (free_of_nameFault? free).1 c here).of_drops (drops_uncacheCascade _ _)
    obtain ⟨report, cache, executed, -⟩ :=
      dropped.exists_execute ((s.added column c).cascade column).toList
    rw [he]
    split
    · rw [executed]
      exact atomic_ok s _ report
    · exact atomic_ok s _ Report.empty

theorem Linked.atomic_addText (linked : s.Linked) (id : Nat) (name column text : String) :
    s.Atomic (s.addText id name column text) := by
  unfold addText
  split
  · exact atomic_error s _
  · rename_i formula _
    intro e failed
    have added := linked.atomic_add column ⟨id, name, formula, true⟩
    cases result : (s.add column ⟨id, name, formula, true⟩).1 with
    | error cause => exact added cause result
    | ok report =>
      simp only [result] at failed
      cases failed

theorem atomic_update (s : Sheet) (column : String) (p : Patch) : s.Atomic (s.update column p) := by
  rcases update_cases s column p with ⟨e, he⟩ | ⟨c, -, -, he⟩
  · rw [he]
    exact atomic_error s e
  · rw [he]
    exact atomic_ok s _ ()

theorem atomic_remove (s : Sheet) (column : String) : s.Atomic (s.remove column) := by
  rcases remove_cases s column with ⟨e, he⟩ | ⟨c, t, -, he, -⟩
  · rw [he]
    exact atomic_error s e
  · rw [he]
    exact atomic_ok s t c

theorem atomic_invalidate (s : Sheet) (column : String) : s.Atomic (s.invalidate column) := by
  unfold invalidate
  split
  · exact atomic_ok s _ _
  · exact atomic_error s _

theorem target_eq (column : String) (p : Patch) : target column p = p.column.getD column := by
  unfold target newName?
  cases p.column with
  | none => rfl
  | some new =>
    by_cases h : new = column <;> simp [Option.filter, h]

theorem get?_update_target {p : Patch} (h : (s.update column p).1 = .ok ()) :
    ∃ c, (s.update column p).2.calculations.get? (target column p) = some c := by
  rcases update_cases s column p with ⟨e, he⟩ | ⟨c, editable, -, he⟩
  · rw [he] at h
    cases h
  · have drops := drops_uncacheCascades (s.edited column p c) (s.seeds column p c)
    rw [he, drops.calculations, get?_edited editable, if_pos rfl]
    exact ⟨_, rfl⟩

end Sheet

end DerivedColumns
