import DerivedColumns.Function.Builtin
import DerivedColumns.Proofs.Evaluation.Whole
import DerivedColumns.Proofs.Formula.Equality
import DerivedColumns.Proofs.Keyed

set_option autoImplicit false

namespace DerivedColumns

open List (Forall₂)

/-- The entry of one name is found under another, where no entry was; the others are found where they
were. -/
structure Rekeyed {α : Type} (old new : String) (d d' : Keyed α) : Prop where
  free : d.get? new = none
  entry : ∀ x : String, d'.get? x =
    if x = new then d.get? old else if x = old then none else d.get? x

def RowRekeyed (old new : String) (row row' : Row) : Prop :=
  row'.id = row.id ∧ Rekeyed old new row.fields row'.fields

/-- Errors of one kind, which may show different names and formulas. -/
def EvalError.SameKind (d e : EvalError) : Prop := d.ctorIdx = e.ctorIdx

variable {old new : String}

theorem Rekeyed.get?_substitute {α : Type} {d d' : Keyed α} (h : Rekeyed old new d d') {x : String}
    (hx : x ≠ new) : d'.get? (Formula.substitute old new x) = d.get? x := by
  unfold Formula.substitute
  by_cases own : x = old
  · rw [if_pos own, h.entry, if_pos rfl, own]
  · rw [if_neg own, h.entry, if_neg hx, if_neg own]

theorem Keyed.rekeyed_rename {α : Type} {d : Keyed α} (hn : new ∉ d.keys) (hne : new ≠ old) :
    Rekeyed old new d (d.rename old new) := by
  have other : ∀ k, k ≠ new → (d.rename old new).get? (if k = old then new else k) = d.get? k :=
    fun k => d.get?_rename_of_ne old hn
  refine ⟨(get?_eq_none_iff d new).2 hn, fun x => ?_⟩
  by_cases taken : x = new
  · have moved := other old hne.symm
    rw [if_pos rfl] at moved
    rw [if_pos taken, taken, moved]
  · rw [if_neg taken]
    by_cases left : x = old
    · rw [if_pos left, left, d.get?_rename_old hn hne]
    · have kept := other x taken
      rw [if_neg left] at kept
      rw [if_neg left, kept]

theorem renaming_sameKind (old new : String) : Renaming old new EvalError.SameKind where
  refl _ := rfl
  undefined _ := rfl
  whole _ _ := rfl

namespace Evaluation

theorem evaluate_rename {library : Library} {f : Formula} (fresh : new ∉ f.reads)
    (dateless : f.callsDate library = false) {fields fields' : Fields} {rows rows' : List Row}
    (here : Rekeyed old new fields fields') (table : Forall₂ (RowRekeyed old new) rows rows') :
    Alike EvalError.SameKind (evaluate ⟨library, fields⟩ rows f)
      (evaluate ⟨library, fields'⟩ rows' (f.rename old new)) := by
  have other : ∀ x ∈ f.reads, x ≠ new := fun x hx e => fresh (e ▸ hx)
  have seen : Forall₂ (RowMatch old new f.reads) rows rows' := by
    refine table.imp fun row row' same => ⟨same.1, fun x hx => ?_⟩
    exact same.2.get?_substitute (other x hx)
  refine alike_evaluate (renaming_sameKind old new) f seen
    (fun x hx => here.get?_substitute (other x hx)) fun x hx => ?_
  rw [Formula.dateFields_eq_nil ⟨library, fields⟩ f dateless] at hx
  cases hx

/-- A formula takes a name that it does not read for one that it may read. It then reads the same names
but for this one and is as high, and renaming it back gives the formula itself, so one that equals it
unless it holds a NaN. If it calls no date function, it has over fields that are renamed with it the
result that it had before, or fails as before with an error of the same kind. -/
theorem rename_keeps_meaning (f : Formula) (old new : String) (fresh : new ∉ f.reads) :
    (f.rename old new).reads = Names.ofList (f.reads.toList.map (Formula.substitute old new)) ∧
    (f.rename old new).height = f.height ∧
    (f.rename old new).rename new old = f ∧
    (((f.rename old new).rename new old == f) = true ↔ f.hasNaN = false) ∧
    ∀ library : Library, f.callsDate library = false →
      ∀ (fields fields' : Fields) (rows rows' : List Row), Rekeyed old new fields fields' →
        Forall₂ (RowRekeyed old new) rows rows' →
        Alike EvalError.SameKind (evaluate ⟨library, fields⟩ rows f)
          (evaluate ⟨library, fields'⟩ rows' (f.rename old new)) := by
  have back := Formula.rename_rename old fresh
  refine ⟨f.reads_rename old new, f.height_rename old new, back, ?_, ?_⟩
  · rw [back]
    exact f.beq_self_iff
  · intro library dateless fields fields' rows rows' here table
    exact evaluate_rename fresh dateless here table

def greatestByKey : Formula := .group ["x", "n"] .max (some "n")

def keyedFields : Fields := .ofList [("n", .number ⟨0⟩), ("x", .text "a")]

def keyedRows : List Row :=
  [⟨4, keyedFields⟩, ⟨2, .ofList [("x", .text "b")]⟩, ⟨3, .ofList [("x", .text "a"), ("n", .text "7")]⟩]

theorem rename_keeps_meaning_grouped :
    let fields := keyedFields.rename "n" "m"
    let rows := keyedRows.map fun row => { row with fields := row.fields.rename "n" "m" }
    "m" ∉ greatestByKey.reads ∧ (greatestByKey.rename "n" "m").reads = Names.ofList ["m", "x"] ∧
    (evaluate ⟨.standard, keyedFields⟩ keyedRows greatestByKey).isOk = true ∧
    Alike EvalError.SameKind (evaluate ⟨.standard, keyedFields⟩ keyedRows greatestByKey)
      (evaluate ⟨.standard, fields⟩ rows (greatestByKey.rename "n" "m")) := by
  intro fields rows
  have fresh : "m" ∉ greatestByKey.reads := by decide +kernel
  have free : ∀ row ∈ keyedRows, "m" ∉ row.fields.keys := by decide
  have rekeyed : ∀ row ∈ keyedRows, Rekeyed "n" "m" row.fields (row.fields.rename "n" "m") :=
    fun row hrow => Keyed.rekeyed_rename (free row hrow) (by decide)
  have table : Forall₂ (RowRekeyed "n" "m") keyedRows rows :=
    List.forall₂_map_right_iff.2 (List.forall₂_same.2 fun row hrow => ⟨rfl, rekeyed row hrow⟩)
  obtain ⟨reads, -, -, -, alike⟩ := rename_keeps_meaning greatestByKey "n" "m" fresh
  refine ⟨fresh, ?_, by decide +kernel, ?_⟩
  · rw [reads]
    decide +kernel
  · exact alike .standard rfl keyedFields fields keyedRows rows (rekeyed _ List.mem_cons_self) table

end Evaluation

end DerivedColumns
