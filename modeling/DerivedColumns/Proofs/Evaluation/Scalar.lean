import DerivedColumns.Evaluation.Scalar
import DerivedColumns.Proofs.Formula.Renaming

set_option autoImplicit false

namespace DerivedColumns

def Alike (E : EvalError → EvalError → Prop) {α : Type} : Evaluated α → Evaluated α → Prop
  | .ok a, .ok b => a = b
  | .error d, .error e => E d e
  | _, _ => False

namespace Alike

variable {E : EvalError → EvalError → Prop} {α β : Type} {x y : Evaluated α}

theorem refl (hE : ∀ e, E e e) (x : Evaluated α) : Alike E x x := by
  cases x with
  | ok a => rfl
  | error e => exact hE e

theorem bind {f g : α → Evaluated β} (h : Alike E x y)
    (hfg : ∀ a, x = .ok a → Alike E (f a) (g a)) : Alike E (x >>= f) (y >>= g) := by
  cases x with
  | error d => cases y with
    | error e => exact h
    | ok b => exact h.elim
  | ok a => cases y with
    | error e => exact h.elim
    | ok b =>
      obtain rfl : a = b := h
      exact hfg a rfl

theorem map (f : α → β) (h : Alike E x y) : Alike E (x.map f) (y.map f) := by
  cases x <;> cases y
  · exact h
  · exact h.elim
  · exact h.elim
  · exact congrArg f h

theorem toOption_eq (h : Alike E x y) : x.toOption = y.toOption := by
  cases x <;> cases y
  · rfl
  · exact h.elim
  · exact h.elim
  · exact congrArg some h

theorem eq (h : Alike Eq x y) : x = y := by
  cases x <;> cases y
  · exact congrArg Except.error h
  · exact h.elim
  · exact h.elim
  · exact congrArg Except.ok h

end Alike

/-- Errors that may take each other's place when `old` is renamed to `new`: any error for itself, and
those that show a name or a formula for those that show it renamed. -/
structure Renaming (old new : String) (E : EvalError → EvalError → Prop) : Prop where
  refl : ∀ e, E e e
  undefined : ∀ name, E (.undefinedVariable name)
    (.undefinedVariable (Formula.substitute old new name))
  whole : ∀ f : Formula, f.isWhole → E
    (.invalidOperand "scalar" ("whole-dataset expression " ++ f.text))
    (.invalidOperand "scalar" ("whole-dataset expression " ++ (f.rename old new).text))

namespace Formula

mutual

def callsDate (library : Library) : Formula → Bool
  | .binary _ l r => l.callsDate library || r.callsDate library
  | .unary _ x => x.callsDate library
  | .choice c t f => c.callsDate library || t.callsDate library || f.callsDate library
  | .call name args => (library.get? name).any (·.takesDate) || callsDateAny library args
  | _ => false

def callsDateAny (library : Library) : List Formula → Bool
  | [] => false
  | f :: fs => f.callsDate library || callsDateAny library fs

end

def namedField (scope : Scope) (name : String) (args : List Formula) : List String :=
  match scope.library.get? name, Evaluation.scalars scope args with
  | some f, .ok (.text s :: _) => if f.takesDate && isWord s.toList then [s] else []
  | _, _ => []

def afterwards {α : Type} (x : Evaluated α) (fields : α → List String) : List String :=
  match x with
  | .ok a => fields a
  | .error _ => []

mutual

/-- The fields that date functions look up by the texts of their first arguments, in the branches that
are taken and up to the first failure. -/
def dateFields (scope : Scope) : Formula → List String
  | .binary _ l r =>
    l.dateFields scope ++ afterwards (Evaluation.scalar scope l) fun _ => r.dateFields scope
  | .unary _ x => x.dateFields scope
  | .choice c t f =>
    c.dateFields scope ++ afterwards (Evaluation.scalar scope c) fun v =>
      if v.isTruthy then t.dateFields scope else f.dateFields scope
  | .call name args =>
    match scope.library.get? name with
    | some _ => dateFieldsAll scope args ++ namedField scope name args
    | none => []
  | _ => []

def dateFieldsAll (scope : Scope) : List Formula → List String
  | [] => []
  | f :: fs => f.dateFields scope ++ afterwards (Evaluation.scalar scope f) fun _ =>
      dateFieldsAll scope fs

end

theorem afterwards_nil {α : Type} (x : Evaluated α) : afterwards x (fun _ => []) = [] := by
  cases x <;> rfl

mutual

theorem dateFields_eq_nil (scope : Scope) : (f : Formula) → f.callsDate scope.library = false →
    f.dateFields scope = []
  | .binary _ l r, h => by
    simp only [callsDate, Bool.or_eq_false_iff] at h
    rw [dateFields, dateFields_eq_nil scope l h.1, dateFields_eq_nil scope r h.2, afterwards_nil,
      List.append_nil]
  | .unary _ x, h => dateFields_eq_nil scope x h
  | .choice c t f, h => by
    simp only [callsDate, Bool.or_eq_false_iff] at h
    simp only [dateFields, dateFields_eq_nil scope c h.1.1, dateFields_eq_nil scope t h.1.2,
      dateFields_eq_nil scope f h.2, ite_self, afterwards_nil, List.append_nil]
  | .call name args, h => by
    simp only [callsDate, Bool.or_eq_false_iff] at h
    have named : namedField scope name args = [] := by
      unfold namedField
      split
      · rename_i f s _ hf _
        have : f.takesDate = false := by simpa [hf] using h.1
        simp [this]
      · rfl
    rw [dateFields, dateFieldsAll_eq_nil scope args h.2, named, List.append_nil]
    split <;> rfl
  | .atom _, _ | .group _ _ _, _ | .rank _ _ _, _ | .analysis _ _ _, _ => by simp [dateFields]

theorem dateFieldsAll_eq_nil (scope : Scope) : (fs : List Formula) →
    callsDateAny scope.library fs = false → dateFieldsAll scope fs = []
  | [], _ => rfl
  | f :: fs, h => by
    simp only [callsDateAny, Bool.or_eq_false_iff] at h
    rw [dateFieldsAll, dateFields_eq_nil scope f h.1, dateFieldsAll_eq_nil scope fs h.2,
      afterwards_nil, List.append_nil]

end

mutual

theorem callsDate_rename (library : Library) (old new : String) : (f : Formula) →
    (f.rename old new).callsDate library = f.callsDate library
  | .binary _ l r => by
    rw [rename, callsDate, callsDate, callsDate_rename library old new l,
      callsDate_rename library old new r]
  | .unary _ x => by rw [rename, callsDate, callsDate, callsDate_rename library old new x]
  | .choice c t f => by
    rw [rename, callsDate, callsDate, callsDate_rename library old new c,
      callsDate_rename library old new t, callsDate_rename library old new f]
  | .call _ args => by
    rw [rename, callsDate, callsDate, callsDateAny_renameAll library old new args]
  | .atom (.field _) | .atom (.number _) | .atom (.text _) | .atom (.bool _) | .atom .null => rfl
  | .group _ _ _ | .rank _ _ _ | .analysis _ _ _ => rfl

theorem callsDateAny_renameAll (library : Library) (old new : String) : (fs : List Formula) →
    callsDateAny library (renameAll old new fs) = callsDateAny library fs
  | [] => rfl
  | f :: fs => by
    rw [renameAll, callsDateAny, callsDateAny, callsDate_rename library old new f,
      callsDateAny_renameAll library old new fs]

end

end Formula

namespace Evaluation

variable {E : EvalError → EvalError → Prop} {old new : String} {library : Library}
  {fields fields' : Fields}

theorem alike_atom (hE : Renaming old new E) (a : Atom)
    (reads : ∀ x ∈ a.reads, fields'.get? (Formula.substitute old new x) = fields.get? x) :
    Alike E (scalar ⟨library, fields⟩ (.atom a))
      (scalar ⟨library, fields'⟩ ((Formula.atom a).rename old new)) := by
  cases a with
  | field name =>
    have same := reads name ((Names.mem_ofList [name] name).2 List.mem_cons_self)
    simp only [Formula.rename, scalar, atom, same]
    cases fields.get? name with
    | some v => rfl
    | none => exact hE.undefined name
  | _ => exact Alike.refl hE.refl _

theorem arguments_congr (f : Function) (values : List Value)
    (same : ∀ s more, values = .text s :: more → f.takesDate = true →
      Formula.isWord s.toList = true → fields'.get? s = fields.get? s) :
    arguments ⟨library, fields⟩ f values = arguments ⟨library, fields'⟩ f values := by
  cases values with
  | nil => rfl
  | cons v more =>
    unfold arguments
    cases hdate : f.takesDate with
    | false => rfl
    | true =>
      have : dateArgument fields v = dateArgument fields' v := by
        cases v with
        | text s =>
          unfold dateArgument
          cases hword : Formula.isWord s.toList with
          | false => simp only [hword, Bool.false_eq_true, if_false]
          | true => simp only [hword, if_true, same s more rfl hdate hword]
        | _ => rfl
      simp only [this]

mutual

theorem alike_scalar (hE : Renaming old new E) : (f : Formula) →
    (∀ x ∈ f.reads, fields'.get? (Formula.substitute old new x) = fields.get? x) →
    (∀ x ∈ f.dateFields ⟨library, fields⟩, fields'.get? x = fields.get? x) →
    Alike E (scalar ⟨library, fields⟩ f) (scalar ⟨library, fields'⟩ (f.rename old new))
  | .atom a, reads, _ => alike_atom hE a reads
  | .binary op l r, reads, dates => by
    simp only [Formula.reads, Std.ExtTreeSet.mem_union_iff] at reads
    simp only [Formula.dateFields, List.mem_append] at dates
    have left := alike_scalar hE l (fun x hx => reads x (.inl hx)) fun x hx => dates x (.inl hx)
    rw [Formula.rename, scalar, scalar]
    refine left.bind fun v hv => ?_
    rw [hv] at dates
    have right := alike_scalar hE r (fun x hx => reads x (.inr hx)) fun x hx => dates x (.inr hx)
    exact right.bind fun _ _ => Alike.refl hE.refl _
  | .unary op x, reads, dates => by
    rw [Formula.rename, scalar, scalar]
    exact (alike_scalar hE x reads dates).bind fun _ _ => Alike.refl hE.refl _
  | .choice c t f, reads, dates => by
    simp only [Formula.reads, Std.ExtTreeSet.mem_union_iff] at reads
    simp only [Formula.dateFields, List.mem_append] at dates
    have condition := alike_scalar hE c (fun x hx => reads x (.inl (.inl hx)))
      fun x hx => dates x (.inl hx)
    rw [Formula.rename, scalar, scalar]
    refine condition.bind fun v hv => ?_
    rw [hv] at dates
    cases hb : v.isTruthy with
    | true =>
      simp only [Formula.afterwards, hb, if_true] at dates
      exact alike_scalar hE t (fun x hx => reads x (.inl (.inr hx))) fun x hx => dates x (.inr hx)
    | false =>
      simp only [Formula.afterwards, hb, Bool.false_eq_true, if_false] at dates
      exact alike_scalar hE f (fun x hx => reads x (.inr hx)) fun x hx => dates x (.inr hx)
  | .call name args, reads, dates => by
    rw [Formula.rename, scalar, scalar]
    cases hf : library.get? name with
    | none => exact hE.refl _
    | some f =>
      simp only [Formula.dateFields, hf, List.mem_append] at dates
      have values := alike_scalars hE args reads fun x hx => dates x (.inl hx)
      refine values.bind fun vs hvs => ?_
      have same : arguments ⟨library, fields⟩ f vs = arguments ⟨library, fields'⟩ f vs := by
        refine arguments_congr f vs fun s more hs hdate hword => dates s (.inr ?_)
        subst hs
        simp [Formula.namedField, hf, hvs, hdate, hword]
      rw [same]
      exact Alike.refl hE.refl _
  | .group keys aggregation field, _, _ => hE.whole (.group keys aggregation field) rfl
  | .rank keys normalized cumulative, _, _ => hE.whole (.rank keys normalized cumulative) rfl
  | .analysis algorithm inputs params, _, _ => hE.refl _

theorem alike_scalars (hE : Renaming old new E) : (fs : List Formula) →
    (∀ x ∈ Formula.readsAll fs, fields'.get? (Formula.substitute old new x) = fields.get? x) →
    (∀ x ∈ Formula.dateFieldsAll ⟨library, fields⟩ fs, fields'.get? x = fields.get? x) →
    Alike E (scalars ⟨library, fields⟩ fs) (scalars ⟨library, fields'⟩ (Formula.renameAll old new fs))
  | [], _, _ => rfl
  | f :: fs, reads, dates => by
    simp only [Formula.readsAll, Std.ExtTreeSet.mem_union_iff] at reads
    simp only [Formula.dateFieldsAll, List.mem_append] at dates
    have first := alike_scalar hE f (fun x hx => reads x (.inl hx)) fun x hx => dates x (.inl hx)
    rw [Formula.renameAll, scalars, scalars]
    refine first.bind fun v hv => ?_
    rw [hv] at dates
    have rest := alike_scalars hE fs (fun x hx => reads x (.inr hx)) fun x hx => dates x (.inr hx)
    exact rest.bind fun _ _ => rfl

end

end Evaluation

end DerivedColumns
