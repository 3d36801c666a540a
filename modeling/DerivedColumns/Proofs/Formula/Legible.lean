import DerivedColumns.Proofs.Formula.Canonical
import DerivedColumns.Proofs.Formula.Renaming

set_option autoImplicit false

namespace DerivedColumns

def Atom.Plain : Atom → Prop
  | .number x => x.isFinite = true ∧ x.isNegative = false
  | _ => True

namespace Formula

def Writable (name : String) : Prop := isWord name.toList = true ∧ Grammar.keyword? name = none

instance (name : String) : Decidable (Writable name) := inferInstanceAs (Decidable (_ ∧ _))

theorem literal_iff (a : Atom) : a.Literal ↔ a.Plain ∧ ∀ x ∈ a.reads, Writable x := by
  cases a with
  | field name => simp [Atom.Literal, Atom.Plain, Atom.reads, Names.mem_ofList, Writable]
  | _ => simp [Atom.Literal, Atom.Plain, Atom.reads]

mutual

theorem builtFrom_literal_iff : (f : Formula) →
    (f.BuiltFrom Atom.Literal ↔ f.BuiltFrom Atom.Plain ∧ ∀ x ∈ f.reads, Writable x)
  | .atom a => literal_iff a
  | .binary _ l r => by
    rw [BuiltFrom, BuiltFrom, reads, forall_mem_union, builtFrom_literal_iff l,
      builtFrom_literal_iff r]
    exact and_and_and_comm
  | .unary _ x => by rw [BuiltFrom, BuiltFrom, reads, builtFrom_literal_iff x]
  | .choice c t f => by
    rw [BuiltFrom, BuiltFrom, reads, forall_mem_union, forall_mem_union, builtFrom_literal_iff c,
      builtFrom_literal_iff t, builtFrom_literal_iff f]
    tauto
  | .call name args => by
    rw [BuiltFrom, BuiltFrom, reads, builtFromAll_literal_iff args, and_assoc]
  | .group .. => by simp [BuiltFrom]
  | .rank .. => by simp [BuiltFrom]
  | .analysis .. => by simp [BuiltFrom]

theorem builtFromAll_literal_iff : (fs : List Formula) →
    (BuiltFromAll Atom.Literal fs ↔ BuiltFromAll Atom.Plain fs ∧ ∀ x ∈ readsAll fs, Writable x)
  | [] => by simp [BuiltFromAll, readsAll]
  | f :: fs => by
    rw [BuiltFromAll, BuiltFromAll, readsAll, forall_mem_union, builtFrom_literal_iff f,
      builtFromAll_literal_iff fs]
    exact and_and_and_comm

end

mutual

theorem builtFrom_rename (old new : String) : (f : Formula) → f.BuiltFrom Atom.Plain →
    (f.rename old new).BuiltFrom Atom.Plain
  | .atom (.field _), _ => trivial
  | .atom (.number _), built => built
  | .atom (.text _), _ | .atom (.bool _), _ | .atom .null, _ => trivial
  | .binary _ l r, built => ⟨builtFrom_rename old new l built.1, builtFrom_rename old new r built.2⟩
  | .unary _ x, built => builtFrom_rename old new x built
  | .choice c t f, built => ⟨builtFrom_rename old new c built.1,
    builtFrom_rename old new t built.2.1, builtFrom_rename old new f built.2.2⟩
  | .call _ args, built => ⟨built.1, builtFromAll_rename old new args built.2⟩
  | .group .., built => built.elim
  | .rank .., built => built.elim
  | .analysis .., built => built.elim

theorem builtFromAll_rename (old new : String) : (fs : List Formula) → BuiltFromAll Atom.Plain fs →
    BuiltFromAll Atom.Plain (renameAll old new fs)
  | [], _ => trivial
  | f :: fs, built => ⟨builtFrom_rename old new f built.1, builtFromAll_rename old new fs built.2⟩

end

theorem plain_of_parse {text : String} {f : Formula} (read : parse text = .ok f) :
    f.BuiltFrom Atom.Plain :=
  ((builtFrom_literal_iff f).1 (accepted_of_parse read).built).1

theorem writable_of_parse {text : String} {f : Formula} (read : parse text = .ok f) :
    ∀ x ∈ f.reads, Writable x :=
  ((builtFrom_literal_iff f).1 (accepted_of_parse read).built).2

/-- The text is read as the formula, if it is not too deep to be read. -/
def Denotes (text : String) (f : Formula) : Prop := parse text = .ok f ∨ RefusedTooDeep text

theorem denotes_text_iff {f : Formula} (plain : f.BuiltFrom Atom.Plain) :
    Denotes f.text f ↔ (∀ x ∈ f.reads, Writable x) ∨ RefusedTooDeep f.text := by
  constructor
  · rintro (read | deep)
    · exact .inl (writable_of_parse read)
    · exact .inr deep
  · rintro (writable | deep)
    · have built := (builtFrom_literal_iff f).2 ⟨plain, writable⟩
      have written : f.text ∈ f.texts 0 := List.mem_cons_self
      obtain ⟨reads, refused⟩ := parse_of_spells built (spells_of_mem_texts written)
      by_cases fits : Fits maxNesting 1 f
      · exact .inl (reads fits)
      · exact .inr (refused fits)
    · exact .inr deep

end Formula

end DerivedColumns
