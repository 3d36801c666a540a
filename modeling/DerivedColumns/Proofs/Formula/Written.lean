import DerivedColumns.Proofs.Formula.Words

set_option autoImplicit false

namespace DerivedColumns

def BinaryOp.leftContext : BinaryOp → Nat
  | .pow => 9
  | op => op.precedence

def BinaryOp.rightContext : BinaryOp → Nat
  | .pow => 8
  | op => op.precedence + 1

def Atom.Literal : Atom → Prop
  | .number x => x.isFinite = true ∧ x.isNegative = false
  | .field name => Formula.isWord name.toList = true ∧ Formula.Grammar.keyword? name = none
  | _ => True

namespace Formula

mutual

def BuiltFrom (P : Atom → Prop) : Formula → Prop
  | .atom a => P a
  | .binary _ l r => BuiltFrom P l ∧ BuiltFrom P r
  | .unary _ x => BuiltFrom P x
  | .choice c t f => BuiltFrom P c ∧ BuiltFrom P t ∧ BuiltFrom P f
  | .call name args => isWord name.toList = true ∧ BuiltFromAll P args
  | _ => False

def BuiltFromAll (P : Atom → Prop) : List Formula → Prop
  | [] => True
  | f :: fs => BuiltFrom P f ∧ BuiltFromAll P fs

end

mutual

/-- The text is the formula, in one line or over several. -/
def Spells : Formula → List Char → Prop
  | .atom a, s => s = a.chars
  | .binary op l r, s => ∃ sl sr, Spells l sl ∧ Spells r sr ∧
      s = enclose (l.precedence < op.leftContext) sl ++
        ' ' :: (op.symbol ++ ' ' :: enclose (r.precedence < op.rightContext) sr)
  | .unary op x, s => ∃ sx, Spells x sx ∧
      s = op.symbol :: enclose (x.precedence < unaryPrecedence) sx
  | .choice c t f, s => ∃ g h sc st sf, Blank g ∧ Blank h ∧ Spells c sc ∧ Spells t st ∧ Spells f sf ∧
      s = enclose (c.precedence < choicePrecedence + 1) sc ++
        (g ++ '?' :: ' ' :: (st ++ (h ++ ':' :: ' ' :: sf)))
  | .call name [], s => ∃ h, Blank h ∧ s = name.toList ++ '(' :: (h ++ [')'])
  | .call name (f :: more), s => ∃ g h sf t, Blank g ∧ Blank h ∧ Spells f sf ∧ SpellsMore more t ∧
      s = name.toList ++ '(' :: (g ++ (sf ++ (t ++ (h ++ [')']))))
  | .group keys aggregation field, s => s = chars (.group keys aggregation field)
  | .rank keys normalized cumulative, s => s = chars (.rank keys normalized cumulative)
  | .analysis algorithm inputs params, s => s = chars (.analysis algorithm inputs params)

def SpellsMore : List Formula → List Char → Prop
  | [], s => s = []
  | f :: more, s => ∃ g sf t, Blank g ∧ Spells f sf ∧ SpellsMore more t ∧ s = ',' :: (g ++ (sf ++ t))

end

theorem parens_eq (op : BinaryOp) (l r : Formula) :
    parens op l r = (decide (l.precedence < op.leftContext), decide (r.precedence < op.rightContext)) := by
  have le : ∀ a b : Nat, decide (a ≤ b) = decide (a < b + 1) :=
    fun a b => decide_eq_decide.2 Nat.lt_succ_iff.symm
  cases op
  all_goals exact Prod.ext (by first | rfl | exact le _ _) (by first | rfl | exact le _ _)

theorem enclose_choice (c : Formula) (s : List Char) :
    enclose (c.precedence ≤ choicePrecedence) s = enclose (c.precedence < choicePrecedence + 1) s := by
  simp only [Nat.lt_succ_iff]

theorem chars_atom (a : Atom) : chars (.atom a) = a.chars := by
  rw [chars.eq_def]

theorem chars_binary (op : BinaryOp) (l r : Formula) : chars (.binary op l r) =
    enclose (l.precedence < op.leftContext) l.chars ++
      ' ' :: (op.symbol ++ ' ' :: enclose (r.precedence < op.rightContext) r.chars) := by
  rw [chars.eq_def]
  simp only [parens_eq]

theorem chars_unary (op : UnaryOp) (x : Formula) : chars (.unary op x) =
    op.symbol :: enclose (x.precedence < unaryPrecedence) x.chars := by
  rw [chars.eq_def]

theorem chars_choice (c t f : Formula) : chars (.choice c t f) =
    enclose (c.precedence < choicePrecedence + 1) c.chars ++
      ' ' :: '?' :: ' ' :: (t.chars ++ ' ' :: ':' :: ' ' :: f.chars) := by
  rw [chars.eq_def]
  simp only [enclose_choice]

theorem chars_call (name : String) (args : List Formula) : chars (.call name args) =
    name.toList ++ '(' :: (joined (charsAll args) ++ [')']) := by
  rw [chars.eq_def]

mutual

theorem spells_chars : (f : Formula) → Spells f f.chars
  | .atom a => by rw [Spells, chars_atom]
  | .binary op l r => by
    rw [Spells, chars_binary]
    exact ⟨l.chars, r.chars, spells_chars l, spells_chars r, rfl⟩
  | .unary op x => by
    rw [Spells, chars_unary]
    exact ⟨x.chars, spells_chars x, rfl⟩
  | .choice c t f => by
    rw [Spells, chars_choice]
    refine ⟨[' '], [' '], c.chars, t.chars, f.chars, blank_space, blank_space, spells_chars c,
      spells_chars t, spells_chars f, rfl⟩
  | .call name [] => by
    rw [Spells, chars_call]
    exact ⟨[], blank_nil, rfl⟩
  | .call name (f :: more) => by
    obtain ⟨t, ht, eq⟩ := spellsMore_joined more f.chars
    rw [Spells, chars_call, charsAll, eq, List.append_assoc]
    exact ⟨[], [], f.chars, t, blank_nil, blank_nil, spells_chars f, ht, rfl⟩
  | .group .. => by rw [Spells]
  | .rank .. => by rw [Spells]
  | .analysis .. => by rw [Spells]

theorem spellsMore_joined : (fs : List Formula) → (s : List Char) →
    ∃ t, SpellsMore fs t ∧ joined (s :: charsAll fs) = s ++ t
  | [], s => by
    refine ⟨[], ?_, ?_⟩
    · rw [SpellsMore]
    · rw [charsAll, joined, List.append_nil]
  | f :: fs, s => by
    obtain ⟨t, ht, eq⟩ := spellsMore_joined fs f.chars
    refine ⟨',' :: ' ' :: (f.chars ++ t), ?_, ?_⟩
    · rw [SpellsMore]
      exact ⟨[' '], f.chars, t, blank_space, spells_chars f, ht, rfl⟩
    · rw [charsAll, joined, eq]

end

theorem blank_line (depth : Nat) : Blank ('\n' :: indentation depth) :=
  .cons rfl (blank_indentation depth)

mutual

theorem spells_layoutAt (width : Nat) : (depth : Nat) → (f : Formula) → Spells f (layoutAt width depth f)
  | depth, .atom a => spells_chars _
  | depth, .binary op l r => spells_chars _
  | depth, .unary op x => spells_chars _
  | depth, .choice c t f => by
    rw [layoutAt]
    split
    · exact spells_chars _
    · rw [Spells]
      refine ⟨'\n' :: indentation (depth + 1), '\n' :: indentation (depth + 1), c.chars, _, _,
        blank_line _, blank_line _, spells_chars c, spells_layoutAt width (depth + 1) t,
        spells_layoutAt width (depth + 1) f, ?_⟩
      rw [enclose_choice]
      simp only [List.cons_append, List.append_assoc]
  | depth, .call name args => by
    rw [layoutAt]
    split
    · exact spells_chars _
    · rename_i broken
      cases args with
      | nil => simp at broken
      | cons f more =>
        obtain ⟨t, ht, eq⟩ := spellsMore_layoutArgs width (depth + 1) more f
        rw [Spells]
        refine ⟨'\n' :: indentation (depth + 1), '\n' :: indentation depth, _, t, blank_line _,
          blank_line _, spells_layoutAt width (depth + 1) f, ht, ?_⟩
        rw [eq]
        simp only [List.cons_append, List.append_assoc]
  | depth, .group .. => spells_chars _
  | depth, .rank .. => spells_chars _
  | depth, .analysis .. => spells_chars _

theorem spellsMore_layoutArgs (width : Nat) : (depth : Nat) → (fs : List Formula) → (f : Formula) →
    ∃ t, SpellsMore fs t ∧
      layoutArgs width depth (f :: fs) = '\n' :: (indentation depth ++ (layoutAt width depth f ++ t))
  | depth, [], f => by
    refine ⟨[], ?_, ?_⟩
    · rw [SpellsMore]
    · rw [layoutArgs, List.append_nil]
  | depth, f' :: fs, f => by
    obtain ⟨t, ht, eq⟩ := spellsMore_layoutArgs width depth fs f'
    refine ⟨',' :: ('\n' :: (indentation depth ++ (layoutAt width depth f' ++ t))), ?_, ?_⟩
    · rw [SpellsMore]
      exact ⟨'\n' :: indentation depth, _, t, blank_line _, spells_layoutAt width depth f', ht, rfl⟩
    · rw [layoutArgs, eq]

end

def Opens (c : Char) : Prop := c.isDigit = true ∨ isWordStart c = true ∨ c = '"'

theorem Opens.ne {c d : Char} (h : Opens c) (no : ¬ Opens d) : c ≠ d := by
  rintro rfl
  exact no h

theorem Opens.starts {c : Char} (h : Opens c) : isSpace c = false ∧ c ≠ '/' ∧ c ≠ '=' := by
  have other : ∀ d ∈ [' ', '\t', '\r', '\n', '/', '='], c ≠ d := fun d hd => h.ne (by
    simp only [List.mem_cons, List.not_mem_nil, or_false] at hd
    unfold Opens
    rcases hd with rfl | rfl | rfl | rfl | rfl | rfl <;> decide)
  simp only [List.forall_mem_cons] at other
  simp [isSpace, other]

theorem Opens.unsigned {c : Char} (h : Opens c) : isSign c = false := by
  have other : ∀ d ∈ ['-', '+', '!'], c ≠ d := fun d hd => h.ne (by
    simp only [List.mem_cons, List.not_mem_nil, or_false] at hd
    unfold Opens
    rcases hd with rfl | rfl | rfl <;> decide)
  simp only [List.forall_mem_cons] at other
  simp [isSign, other]

theorem Opens.ne_paren {c : Char} (h : Opens c) : c ≠ '(' := h.ne (by unfold Opens; decide)

theorem opens_word {name : List Char} (isName : isWord name = true) :
    ∃ c more, name = c :: more ∧ Opens c := by
  obtain ⟨c, more, rfl, start⟩ := isWordStart_of_isWord isName
  exact ⟨c, more, rfl, .inr (.inl start)⟩

theorem opens_atom {a : Atom} (literal : a.Literal) : ∃ c more, a.chars = c :: more ∧ Opens c := by
  cases a with
  | number x =>
    obtain ⟨finite, positive⟩ := literal
    obtain ⟨whole, fraction, digits, -, -⟩ := Number.digits_plainDigits x
    obtain ⟨d, ds, e, digit⟩ := digits.head
    refine ⟨d, ds, ?_, .inl digit⟩
    rw [Atom.chars, Number.chars_of_isFinite finite, positive, e]
    rfl
  | text s => exact ⟨_, _, rfl, .inr (.inr rfl)⟩
  | bool b => cases b <;> exact ⟨_, _, rfl, .inr (.inl rfl)⟩
  | null => exact ⟨_, _, rfl, .inr (.inl rfl)⟩
  | field name => exact opens_word literal.1

theorem starts_enclose {b : Bool} {s : List Char} (h : Starts s) : Starts (enclose b s) := by
  cases b with
  | false => exact h
  | true => exact ⟨'(', _, rfl, rfl, by decide, by decide⟩

theorem starts_of_spells : (f : Formula) → f.BuiltFrom Atom.Literal → {s : List Char} → Spells f s → Starts s
  | .atom a, built, s, spells => by
    rw [Spells] at spells
    obtain ⟨c, more, e, opens⟩ := opens_atom built
    exact ⟨c, more, spells.trans e, opens.starts⟩
  | .binary op l r, built, s, spells => by
    rw [Spells] at spells
    obtain ⟨sl, sr, left, -, rfl⟩ := spells
    exact (starts_enclose (starts_of_spells l built.1 left)).append _
  | .unary op x, built, s, spells => by
    rw [Spells] at spells
    obtain ⟨sx, -, rfl⟩ := spells
    cases op <;> exact ⟨_, _, rfl, rfl, by decide, by decide⟩
  | .choice c t f, built, s, spells => by
    rw [Spells] at spells
    obtain ⟨g, h, sc, st, sf, -, -, condition, -, -, rfl⟩ := spells
    exact (starts_enclose (starts_of_spells c built.1 condition)).append _
  | .call name [], built, s, spells => by
    rw [Spells] at spells
    obtain ⟨h, -, rfl⟩ := spells
    obtain ⟨c, more, e, opens⟩ := opens_word built.1
    rw [e]
    exact ⟨c, _, rfl, opens.starts⟩
  | .call name (f :: fs), built, s, spells => by
    rw [Spells] at spells
    obtain ⟨g, h, sf, t, -, -, -, -, rfl⟩ := spells
    obtain ⟨c, more, e, opens⟩ := opens_word built.1
    rw [e]
    exact ⟨c, _, rfl, opens.starts⟩
  | .group .., built, s, spells => built.elim
  | .rank .., built, s, spells => built.elim
  | .analysis .., built, s, spells => built.elim

end Formula

end DerivedColumns
