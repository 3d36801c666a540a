import DerivedColumns.Formula.Parse
import DerivedColumns.Proofs.Formula.Reread
import DerivedColumns.Proofs.Formula.Signed

set_option autoImplicit false

/-!
The text of a formula, in one line or laid out for a page, is never read as another formula. It may be too
deep to be read, even where the formula was read from other text: parentheses that the text does without
split a chain of operators, and the whole chain may be counted too high.
-/

namespace DerivedColumns.Formula

open Reader (Takes)
open Grammar

def texts (width : Nat) (f : Formula) : List String := [f.text, f.layout width]

theorem spells_of_mem_texts {f : Formula} {width : Nat} {out : String} (h : out ∈ f.texts width) :
    Spells f out.toList := by
  rw [texts, List.mem_cons, List.mem_singleton] at h
  rcases h with rfl | rfl
  · rw [text, String.toList_ofList]
    exact spells_chars f
  · rw [layout, String.toList_ofList]
    exact spells_layoutAt width 0 f

theorem texts_unsigned (width : Nat) {f : Formula} (built : f.BuiltFrom Atom.Spelled) :
    f.unsigned.texts width = f.texts width := by
  rw [texts, texts, text, text, layout, layout, chars_unsigned f built, layoutAt_unsigned width 0 f built]

def RefusedTooDeep (text : String) : Prop :=
  ∃ e, parse text = .error e ∧ e.message = "formula nested too deeply"

theorem parse_of_takes {text : String} {f : Formula} {P : Prop} (starts : Starts text.toList)
    (h : Takes (level maxNesting 1) text.toList f [] P) :
    (P → parse text = .ok f) ∧ (¬ P → RefusedTooDeep text) := by
  have begun : skipLayout text.toList = text.toList := by
    have := starts.skip blank_nil []
    rwa [List.nil_append, List.append_nil] at this
  have some : ¬ text.toList.isEmpty = true := by
    obtain ⟨c, more, e, -⟩ := starts
    rw [e]
    exact Bool.false_ne_true
  refine ⟨fun can => ?_, fun no => ?_⟩
  · rw [parse, parseChars, begun, if_neg some, choice_ofLevels, h.ok can]
    dsimp only
    rw [skipLayout]
  · obtain ⟨rest, deep⟩ := h.tooDeep no
    refine ⟨errorAt text.toList rest .tooDeep, ?_, rfl⟩
    rw [parse, parseChars, begun, if_neg some, choice_ofLevels, deep]
    rfl

/-- A written form is read as the formula exactly if it fits the levels, and is too deep otherwise. -/
theorem parse_of_spells {f : Formula} (built : f.BuiltFrom Atom.Literal) {text : String}
    (spells : Spells f text.toList) :
    (Fits maxNesting 1 f → parse text = .ok f) ∧ (¬ Fits maxNesting 1 f → RefusedTooDeep text) :=
  parse_of_takes (starts_of_spells f built spells) (takes_spelled built spells)

theorem accepted_of_parse {text : String} {f : Formula} (h : parse text = .ok f) :
    Accepted maxNesting 1 f := by
  rw [parse, parseChars, choice_ofLevels] at h
  split at h
  · cases h
  split at h
  · rename_i g rest read
    split at h
    · cases h
      exact yields_level maxNesting 1 (by decide) (by decide) _ _ _ read
    · cases h
  · cases h
  · cases h

/-- Whatever formula is written, its text is read as that formula, with a minus sign before each constant
that has a sign. Only a formula that does not fit the levels is refused, and then for its depth. -/
theorem printed_never_misread {f : Formula} (built : f.BuiltFrom Atom.Spelled) (width : Nat) :
    ∀ out ∈ f.texts width,
      parse out = .ok f.unsigned ∨ (RefusedTooDeep out ∧ ¬ Fits maxNesting 1 f.unsigned) := by
  intro out written
  rw [← texts_unsigned width built] at written
  obtain ⟨reads, refused⟩ := parse_of_spells (builtFrom_unsigned f built) (spells_of_mem_texts written)
  by_cases fits : Fits maxNesting 1 f.unsigned
  · exact .inl (reads fits)
  · exact .inr ⟨refused fits, fits⟩

/-- A negative constant stands before a power without parentheses. -/
theorem printed_never_misread_negative :
    (Formula.binary .pow (.atom (.number ⟨0xC000000000000000⟩)) (.atom (.field "a"))).BuiltFrom Atom.Spelled ∧
      ∀ out ∈ (Formula.binary .pow (.atom (.number ⟨0xC000000000000000⟩)) (.atom (.field "a"))).texts 80,
        parse out =
          .ok (.binary .pow (.unary .neg (.atom (.number ⟨0x4000000000000000⟩))) (.atom (.field "a"))) := by
  have finite : Number.isFinite ⟨0xC000000000000000⟩ = true := by decide
  have isName : Atom.Spelled (.field "a") := ⟨by decide, by decide⟩
  have built : (Formula.binary .pow (.atom (.number ⟨0xC000000000000000⟩)) (.atom (.field "a"))).BuiltFrom
      Atom.Spelled := ⟨finite, isName⟩
  have fits : Fits maxNesting 1
      (.binary .pow (.unary .neg (.atom (.number ⟨0x4000000000000000⟩))) (.atom (.field "a"))) :=
    fits_one.2 ⟨by decide, low_of_height (by decide) (by decide), .inr (by decide)⟩
  exact ⟨built, fun out written =>
    (printed_never_misread built 80 out written).resolve_right fun refused => refused.2 fits⟩

/-- A left operand of the same precedence may be read from parentheses that are not written. -/
theorem takes_grouped {n : Nat} {op : BinaryOp} {l r : Formula} (notPow : op ≠ .pow)
    (built : (Formula.binary op l r).BuiltFrom Atom.Literal) (same : l.precedence = op.precedence) :
    Takes (level (n + 1) op.precedence)
      (enclose true l.chars ++ ' ' :: (op.symbol ++ ' ' ::
        (enclose (r.precedence < op.precedence + 1) r.chars ++ []))) (.binary op l r) []
      (Fits (n + 1) (op.precedence + 1) l ∧ Fits (n + 1) (op.precedence + 1) r ∧
        chainHeight l [(op, r)] ≤ maxHeight) := by
  have high := precedence_pow.2 notPow
  have low : 2 ≤ op.precedence := by cases op <;> decide
  have first := (rereads l built.1).own.at (n := n + 1) built.1 (p := op.precedence + 1) (by omega) (by omega)
    blank_nil (spells_chars l) ((Ends.symbol op (Nat.lt_succ_self _)
      (enclose (r.precedence < op.precedence + 1) r.chars ++ [])).stops blank_space)
  rw [same, decide_eq_true (Nat.lt_succ_self _)] at first
  have more := Takes.many_cons (takes_link (n := n) notPow built.2 (rereads r built.2).own (spells_chars r)
    (Ends.text.stops blank_nil)) (by simp) fun _ => takes_noLink (Ends.text.stops blank_nil)
  rw [level_chain low high]
  refine (first.bind fun _ => more.bind fun _ => takes_check l [(op, r)] []).congr ?_
  simp only [and_true]

/-- The text with these parentheses is read as the same formula. -/
theorem parse_grouped (op : BinaryOp) {l r : Formula} (notPow : op ≠ .pow)
    (built : (Formula.binary op l r).BuiltFrom Atom.Literal) (same : l.precedence = op.precedence)
    (left : Fits maxNesting (op.precedence + 1) l) (right : Fits maxNesting (op.precedence + 1) r)
    (height : chainHeight l [(op, r)] ≤ maxHeight) :
    parse (String.ofList (enclose true l.chars ++ ' ' :: (op.symbol ++ ' ' ::
      enclose (r.precedence < op.precedence + 1) r.chars))) = .ok (.binary op l r) := by
  have high := precedence_pow.2 notPow
  have grouped : (Formula.binary op l r).height ≤ maxHeight :=
    Nat.le_trans (height_foldLeft l [(op, r)]) height
  have read := takes_looser (takes_grouped (n := maxNesting - 1) notPow built same)
    (Ends.text.stops blank_nil) (Nat.le_refl 1) (Formula.precedence_pos (.binary op l r)) (by omega)
    (fun no => absurd no (by omega)) fun _ _ => grouped
  rw [List.append_nil, ← String.toList_ofList (l := enclose true l.chars ++ _)] at read
  refine (parse_of_takes ?_ read).1 ⟨⟨left, right, height⟩, fun _ => grouped⟩
  rw [String.toList_ofList]
  exact ⟨'(', _, rfl, rfl, by decide, by decide⟩

def product : Nat → Formula
  | 0 => .atom (.field "c")
  | n + 1 => .binary .mul (product n) (.atom (.field "c"))

theorem builtFrom_product (n : Nat) : (product n).BuiltFrom Atom.Literal := by
  have factor : Atom.Literal (.field "c") := ⟨by decide, by decide⟩
  induction n with
  | zero => exact factor
  | succ n ih => exact ⟨ih, factor⟩

theorem enclosing_product (n : Nat) : (product n).enclosing 7 = 0 := by
  cases n <;> rfl

theorem chars_product (n : Nat) :
    (product n).chars = 'c' :: (List.replicate n [' ', '*', ' ', 'c']).flatten := by
  induction n with
  | zero => rw [product, chars_atom]; rfl
  | succ n ih =>
    have bare : decide ((product n).precedence < BinaryOp.leftContext .mul) = false := by cases n <;> rfl
    rw [product, chars_binary, bare, chars_atom, ih, List.replicate_succ', List.flatten_concat]
    rfl

theorem nesting_product (n : Nat) : (product n).nesting = 1 := by
  induction n with
  | zero => rfl
  | succ n ih =>
    change max ((product n).nesting + (product n).enclosing 7) 1 = 1
    rw [ih, enclosing_product]
    rfl

theorem height_product (n : Nat) : (product n).height = n + 1 := by
  induction n with
  | zero => rfl
  | succ n ih =>
    change max (product n).height 1 + 1 = n + 1 + 1
    omega

theorem length_spine_product (n : Nat) : (spine 7 (product n)).2.length = n := by
  induction n with
  | zero => rfl
  | succ n ih =>
    change ((spine 7 (product n)).2 ++ [(BinaryOp.mul, Formula.atom (.field "c"))]).length = n + 1
    rw [List.length_append, ih]
    rfl

theorem reach_product (n : Nat) : reach 7 (product n) = n + 1 := by
  induction n with
  | zero => rfl
  | succ n ih =>
    change reach (BinaryOp.precedence .mul) (.binary .mul (product n) (.atom (.field "c"))) = n + 1 + 1
    rw [reach_binary]
    change max (reach 7 (product n)) (1 + (spine 7 (product n)).2.length) + 1 = n + 1 + 1
    rw [ih, length_spine_product]
    omega

theorem low_product (n : Nat) (h : n < maxHeight) : (product n).Low := by
  induction n with
  | zero => unfold product Low; trivial
  | succ n ih =>
    have reached : reach 7 (product (n + 1)) ≤ maxHeight := by
      rw [reach_product]
      exact h
    unfold product Low
    exact ⟨ih (by omega), by unfold Low; trivial, reached⟩

def sumWithProduct (n : Nat) : Formula :=
  .binary .add (.binary .add (.atom (.field "a")) (.atom (.field "b"))) (product n)

theorem builtFrom_sumWithProduct (n : Nat) : (sumWithProduct n).BuiltFrom Atom.Literal :=
  ⟨⟨⟨by decide, by decide⟩, ⟨by decide, by decide⟩⟩, builtFrom_product n⟩

theorem reach_sumWithProduct (n : Nat) : reach 6 (sumWithProduct n) = n + 3 := by
  change chainHeight (.atom (.field "a")) [(.add, .atom (.field "b")), (.add, product n)] = n + 3
  change max (max 1 1) (product n).height + 2 = n + 3
  rw [height_product]
  omega

theorem parse_sumWithProduct {n : Nat} (h : n + 2 ≤ maxHeight) :
    parse (String.ofList ("(a + b) + c".toList ++ (List.replicate n " * c".toList).flatten)) =
      .ok (sumWithProduct n) := by
  have sumLow : Low (.binary .add (.atom (.field "a")) (.atom (.field "b"))) := by
    unfold Low
    refine ⟨?_, ?_, Nat.le_of_ble_eq_true rfl⟩ <;> (unfold Low; trivial)
  have fitsSum : Fits maxNesting 7 (.binary .add (.atom (.field "a")) (.atom (.field "b"))) :=
    (fits_of_height (Nat.le_of_ble_eq_true rfl)).2 ⟨Nat.le_of_ble_eq_true rfl, sumLow⟩
  have fitsProduct : Fits maxNesting 7 (product n) := by
    refine (fits_of_height (by rw [height_product]; omega)).2 ⟨?_, low_product n (by omega)⟩
    rw [nesting_product, enclosing_product]
    decide
  have height : chainHeight (.binary .add (.atom (.field "a")) (.atom (.field "b"))) [(.add, product n)] ≤
      maxHeight := by
    change max 2 (product n).height + 1 ≤ maxHeight
    rw [height_product]
    unfold maxHeight at h ⊢
    omega
  have bare : decide ((product n).precedence < BinaryOp.precedence .add + 1) = false := by cases n <;> rfl
  have sum : chars (.binary .add (.atom (.field "a")) (.atom (.field "b"))) = "a + b".toList := by
    rw [chars_binary, chars_atom, chars_atom]
    rfl
  have read := parse_grouped .add (by decide) (builtFrom_sumWithProduct n) rfl fitsSum fitsProduct height
  rw [bare, sum, chars_product] at read
  exact read

/-- A formula that was read is read again from its text exactly if no chain of its operators is counted too
high. Nesting is never the reason. -/
theorem reread_iff_chainsLow {text : String} {f : Formula} (accepted : parse text = .ok f) (width : Nat) :
    ∀ out ∈ f.texts width,
      (f.chainsLow = true → parse out = .ok f) ∧ (f.chainsLow = false → RefusedTooDeep out) := by
  intro out written
  have h := accepted_of_parse accepted
  have fits := (h.bounded (Nat.le_refl 1)).fits_iff h.nesting_le
  obtain ⟨reads, refused⟩ := parse_of_spells h.built (spells_of_mem_texts written)
  exact ⟨fun low => reads (fits.2 low), fun high => refused fun no => by rw [fits.1 no] at high; cases high⟩

theorem reread_iff_chainsLow_choice :
    ∃ f, parse "-(1 * a) ^ 2.5 ? if(a, b) : 'x'" = .ok f ∧ f.chainsLow = true ∧
      ∀ out ∈ f.texts 80, parse out = .ok f := by
  have low : (parse "-(1 * a) ^ 2.5 ? if(a, b) : 'x'").toOption.map chainsLow = some true := by
    decide +kernel
  cases read : parse "-(1 * a) ^ 2.5 ? if(a, b) : 'x'" with
  | error e =>
    rw [read] at low
    cases low
  | ok f =>
    rw [read] at low
    have low : f.chainsLow = true := Option.some.inj low
    exact ⟨f, rfl, low, fun out written => (reread_iff_chainsLow read 80 out written).1 low⟩

/-- Without the parentheses two operators and a product of height 255 are counted. -/
theorem not_reread_grouped :
    ∃ f, parse (String.ofList ("(a + b) + c".toList ++ (List.replicate 254 " * c".toList).flatten)) = .ok f ∧
      ∀ out ∈ f.texts 80, RefusedTooDeep out := by
  refine ⟨sumWithProduct 254, parse_sumWithProduct (Nat.le_refl _), fun out written => ?_⟩
  refine (parse_of_spells (builtFrom_sumWithProduct 254) (spells_of_mem_texts written)).2 fun fits => ?_
  have low := fits.low
  rw [sumWithProduct, Low] at low
  have reached := reach_sumWithProduct 254
  exact absurd (reached.symm.trans_le low.2.2) (by decide)

end DerivedColumns.Formula
