import DerivedColumns.Proofs.Evaluation.Whole
import DerivedColumns.Proofs.Keyed
import DerivedColumns.Table.Frame

set_option autoImplicit false

namespace DerivedColumns

open List (Forall₂)

/-- Two contexts with the same values for some names, row by row, and the same ids. -/
structure Agree (names : Names) (fields fields' : Fields) (rows rows' : List Row) : Prop where
  here : ∀ x ∈ names, fields.get? x = fields'.get? x
  table : Forall₂ (fun row row' => row.id = row'.id ∧
    ∀ x ∈ names, row.fields.get? x = row'.fields.get? x) rows rows'

/-- The formula has the same result in contexts that agree on what it reads. -/
def Formula.ReadsDecide (library : Library) (f : Formula) : Prop :=
  ∀ (fields fields' : Fields) (rows rows' : List Row), Agree f.reads fields fields' rows rows' →
    Evaluation.evaluate ⟨library, fields⟩ rows f = Evaluation.evaluate ⟨library, fields'⟩ rows' f

theorem renaming_self (name : String) : Renaming name name Eq where
  refl _ := rfl
  undefined n := by rw [Formula.substitute_self]
  whole f _ := by rw [Formula.rename_self]

theorem Agree.rowMatch {names : Names} {fields fields' : Fields} {rows rows' : List Row}
    (h : Agree names fields fields' rows rows') (name : String) :
    Forall₂ (RowMatch name name names) rows rows' := by
  refine h.table.imp fun row row' same => ⟨same.1.symm, fun x hx => ?_⟩
  rw [Formula.substitute_self, same.2 x hx]

namespace Evaluation

variable {library : Library} {fields fields' : Fields}

theorem evaluate_congr {rows rows' : List Row} {f : Formula}
    (agree : Agree f.reads fields fields' rows rows')
    (dates : ∀ x ∈ f.dateFields ⟨library, fields⟩, fields.get? x = fields'.get? x) :
    evaluate ⟨library, fields⟩ rows f = evaluate ⟨library, fields'⟩ rows' f := by
  have reads : ∀ x ∈ f.reads, fields'.get? (Formula.substitute "" "" x) = fields.get? x := by
    intro x hx
    rw [Formula.substitute_self, agree.here x hx]
  have named : ∀ x ∈ f.dateFields ⟨library, fields⟩, fields'.get? x = fields.get? x :=
    fun x hx => (dates x hx).symm
  have alike := alike_evaluate (renaming_self "") f (agree.rowMatch "") reads named
  rw [Formula.rename_self] at alike
  exact alike.eq

section Misread

variable {x : String} {v : Value}

theorem get?_insert_of_mem_reads {names : Names} (hx : x ∉ names) (v : Value) :
    ∀ y ∈ names, (fields.insert x v).get? (Formula.substitute "" "" y) = fields.get? y := by
  intro y hy
  have hne : y ≠ x := fun e => hx (e ▸ hy)
  rw [Formula.substitute_self, Keyed.get?_insert, if_neg hne]

theorem get?_insert_of_mem_dates {names : List String} (hx : x ∉ names) (v : Value) :
    ∀ y ∈ names, (fields.insert x v).get? y = fields.get? y := by
  intro y hy
  have hne : y ≠ x := fun e => hx (e ▸ hy)
  rw [Keyed.get?_insert, if_neg hne]

theorem scalar_insert_of_not_mem (f : Formula) (hr : x ∉ f.reads)
    (hd : x ∉ f.dateFields ⟨library, fields⟩) :
    scalar ⟨library, fields.insert x v⟩ f = scalar ⟨library, fields⟩ f := by
  have alike := alike_scalar (renaming_self "") f (get?_insert_of_mem_reads hr v)
    (get?_insert_of_mem_dates hd v)
  rw [Formula.rename_self] at alike
  exact alike.eq.symm

theorem scalars_insert_of_not_mem (fs : List Formula) (hr : x ∉ Formula.readsAll fs)
    (hd : x ∉ Formula.dateFieldsAll ⟨library, fields⟩ fs) :
    scalars ⟨library, fields.insert x v⟩ fs = scalars ⟨library, fields⟩ fs := by
  have alike := alike_scalars (renaming_self "") fs (get?_insert_of_mem_reads hr v)
    (get?_insert_of_mem_dates hd v)
  rw [Formula.renameAll_self] at alike
  exact alike.eq.symm

theorem mem_afterwards {α : Type} {o : Evaluated α} {names : α → List String}
    (h : x ∈ Formula.afterwards o names) : ∃ a, o = .ok a ∧ x ∈ names a := by
  cases o with
  | error e => cases h
  | ok a => exact ⟨a, rfl, h⟩

theorem mem_namedField {scope : Scope} {name : String} {args : List Formula}
    (h : x ∈ Formula.namedField scope name args) :
    ∃ f more, scope.library.get? name = some f ∧ scalars scope args = .ok (.text x :: more) ∧
      f.takesDate = true ∧ Formula.isWord x.toList = true := by
  unfold Formula.namedField at h
  split at h
  · rename_i f s more hf hs
    split at h
    · rename_i hdate
      rw [Bool.and_eq_true] at hdate
      rw [List.mem_singleton] at h
      subst h
      exact ⟨f, more, hf, hs, hdate.1, hdate.2⟩
    · cases h
  · cases h

mutual

/-- A field that is not read but looked up must hold a date. -/
theorem scalar_insert_of_mem (hv : v.toMoment? = none) : (f : Formula) → x ∉ f.reads →
    x ∈ f.dateFields ⟨library, fields⟩ →
    scalar ⟨library, fields.insert x v⟩ f = .error (.invalidDate v.display)
  | .binary op l r, hr, hd => by
    simp only [Formula.reads, Std.ExtTreeSet.mem_union_iff, not_or] at hr
    simp only [Formula.dateFields, List.mem_append] at hd
    rw [scalar]
    by_cases left : x ∈ l.dateFields ⟨library, fields⟩
    · rw [scalar_insert_of_mem hv l hr.1 left]
      rfl
    · obtain ⟨a, ha, right⟩ := mem_afterwards (hd.resolve_left left)
      rw [scalar_insert_of_not_mem l hr.1 left, ha, scalar_insert_of_mem hv r hr.2 right]
      rfl
  | .unary op y, hr, hd => by
    rw [scalar, scalar_insert_of_mem hv y hr hd]
    rfl
  | .choice c t f, hr, hd => by
    simp only [Formula.reads, Std.ExtTreeSet.mem_union_iff, not_or] at hr
    simp only [Formula.dateFields, List.mem_append] at hd
    rw [scalar]
    by_cases condition : x ∈ c.dateFields ⟨library, fields⟩
    · rw [scalar_insert_of_mem hv c hr.1.1 condition]
      rfl
    · obtain ⟨a, ha, branch⟩ := mem_afterwards (hd.resolve_left condition)
      rw [scalar_insert_of_not_mem c hr.1.1 condition, ha]
      change (if a.isTruthy = true then scalar _ t else scalar _ f) = _
      split at branch
      · rename_i hb
        rw [if_pos hb, scalar_insert_of_mem hv t hr.1.2 branch]
      · rename_i hb
        rw [if_neg hb, scalar_insert_of_mem hv f hr.2 branch]
  | .call name args, hr, hd => by
    simp only [Formula.dateFields] at hd
    rw [scalar]
    cases hf : library.get? name with
    | none =>
      rw [hf] at hd
      cases hd
    | some f =>
      simp only [hf, List.mem_append] at hd
      by_cases inside : x ∈ Formula.dateFieldsAll ⟨library, fields⟩ args
      · simp only [scalars_insert_of_mem hv args hr inside]
        rfl
      · obtain ⟨g, more, hg, hs, hdate, hword⟩ := mem_namedField (hd.resolve_left inside)
        obtain rfl : f = g := Option.some.inj (hf.symm.trans hg)
        have looked : dateArgument (fields.insert x v) (.text x) = .error (.invalidDate v.display) := by
          simp only [dateArgument, hword, if_true, Keyed.get?_insert, Option.getD_some, hv]
        have prepared : arguments ⟨library, fields.insert x v⟩ f (.text x :: more) =
            .error (.invalidDate v.display) := by
          simp only [arguments, hdate, if_true, looked]
          rfl
        simp only [scalars_insert_of_not_mem args hr inside, hs]
        change (arguments ⟨library, fields.insert x v⟩ f (.text x :: more) >>= _) = _
        rw [prepared]
        rfl
  | .atom _, _, hd | .group _ _ _, _, hd | .rank _ _ _, _, hd | .analysis _ _ _, _, hd => by
    simp [Formula.dateFields] at hd

theorem scalars_insert_of_mem (hv : v.toMoment? = none) : (fs : List Formula) →
    x ∉ Formula.readsAll fs → x ∈ Formula.dateFieldsAll ⟨library, fields⟩ fs →
    scalars ⟨library, fields.insert x v⟩ fs = .error (.invalidDate v.display)
  | [], _, hd => by simp [Formula.dateFieldsAll] at hd
  | f :: fs, hr, hd => by
    simp only [Formula.readsAll, Std.ExtTreeSet.mem_union_iff, not_or] at hr
    simp only [Formula.dateFieldsAll, List.mem_append] at hd
    rw [scalars]
    by_cases first : x ∈ f.dateFields ⟨library, fields⟩
    · rw [scalar_insert_of_mem hv f hr.1 first]
      rfl
    · obtain ⟨a, ha, rest⟩ := mem_afterwards (hd.resolve_left first)
      rw [scalar_insert_of_not_mem f hr.1 first, ha, scalars_insert_of_mem hv fs hr.2 rest]
      rfl

end

theorem evaluate_insert_of_mem (hv : v.toMoment? = none) {f : Formula} (hr : x ∉ f.reads)
    (hd : x ∈ f.dateFields ⟨library, fields⟩) (rows : List Row) :
    evaluate ⟨library, fields.insert x v⟩ rows f = .error (.invalidDate v.display) := by
  have failed := scalar_insert_of_mem hv f hr hd
  cases f with
  | group => simp [Formula.dateFields] at hd
  | rank => simp [Formula.dateFields] at hd
  | _ =>
    rw [evaluate, failed]
    · rfl
    all_goals simp

end Misread

/-- The result of a formula depends on the names that it reads and on the fields that date functions
look up. The names alone decide it exactly if these fields are always among them, in particular if the
formula calls no date function. -/
theorem evaluate_reads_only (library : Library) (f : Formula) :
    (∀ (fields fields' : Fields) (rows rows' : List Row), Agree f.reads fields fields' rows rows' →
      (∀ x ∈ f.dateFields ⟨library, fields⟩, fields.get? x = fields'.get? x) →
      evaluate ⟨library, fields⟩ rows f = evaluate ⟨library, fields'⟩ rows' f) ∧
    (f.ReadsDecide library ↔ ∀ fields, ∀ x ∈ f.dateFields ⟨library, fields⟩, x ∈ f.reads) ∧
    (f.callsDate library = false → f.ReadsDecide library) := by
  have inside : (∀ fields, ∀ x ∈ f.dateFields ⟨library, fields⟩, x ∈ f.reads) →
      f.ReadsDecide library := by
    intro covered fields fields' rows rows' agree
    exact evaluate_congr agree fun x hx => agree.here x (covered fields x hx)
  refine ⟨fun _ _ _ _ => evaluate_congr, ⟨?_, inside⟩, ?_⟩
  · intro decides fields x hd
    by_cases hr : x ∈ f.reads
    · exact hr
    · have agree : Agree f.reads (fields.insert x .null) (fields.insert x (.bool true)) [] [] := by
        refine ⟨fun y hy => ?_, .nil⟩
        have hne : y ≠ x := fun e => hr (e ▸ hy)
        rw [Keyed.get?_insert, Keyed.get?_insert, if_neg hne, if_neg hne]
      have same := decides _ _ _ _ agree
      rw [evaluate_insert_of_mem rfl hr hd, evaluate_insert_of_mem rfl hr hd] at same
      injection same with same
      injection same with same
      exact absurd same (by decide)
  · intro dateless
    refine inside fun fields x hx => ?_
    rw [Formula.dateFields_eq_nil ⟨library, fields⟩ f dateless] at hx
    cases hx

def formatNamed : Formula := .call "formatdate" [.atom (.text "d")]

/-- Where a row has a date in the field d, it is that date which is formatted. -/
theorem formatdate_looks_up_field : ¬ formatNamed.ReadsDecide Library.standard := by
  intro decides
  have agree : Agree formatNamed.reads Keyed.empty (Keyed.empty.insert "d" ((Cell.day 0).value .standard)) [] [] := by
    refine ⟨fun x hx => ?_, .nil⟩
    simp [formatNamed, Formula.reads, Formula.readsAll, Atom.reads] at hx
  have same := decides _ _ _ _ agree
  have failed : (evaluate ⟨Library.standard, Keyed.empty⟩ [] formatNamed).isOk = false := by
    decide +kernel
  have formatted : (evaluate ⟨Library.standard, Keyed.empty.insert "d" ((Cell.day 0).value .standard)⟩ []
      formatNamed).isOk = true := by
    decide +kernel
  rw [same, formatted] at failed
  cases failed

end Evaluation

end DerivedColumns
