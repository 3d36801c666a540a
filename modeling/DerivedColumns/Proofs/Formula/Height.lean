import DerivedColumns.Proofs.Formula.Nesting

set_option autoImplicit false

namespace DerivedColumns.Formula

open Grammar (ofLevels)

def parts : Formula → List Formula
  | .binary _ l r => [l, r]
  | .unary _ x => [x]
  | .choice c t f => [c, t, f]
  | .call _ args => args
  | _ => []

theorem height_pos (f : Formula) : 1 ≤ f.height := by
  cases f <;> simp [height]

theorem height_le_heightAll {g : Formula} {fs : List Formula} (h : g ∈ fs) : g.height ≤ heightAll fs := by
  induction fs with
  | nil => cases h
  | cons f fs ih =>
    rw [heightAll]
    rcases List.mem_cons.1 h with rfl | h
    · omega
    · have := ih h
      omega

theorem height_lt_of_mem_parts {f g : Formula} (h : g ∈ f.parts) : g.height < f.height := by
  cases f with
  | call name args =>
    rw [height]
    exact Nat.lt_succ_of_le (height_le_heightAll h)
  | atom | group | rank | analysis => cases h
  | _ =>
    simp only [parts, List.mem_cons, List.not_mem_nil, or_false] at h
    rw [height]
    rcases h with rfl | rfl | rfl <;> omega

/-- A way down through parts. -/
abbrev Descent (way : List Formula) : Prop := way.IsChain fun f g => g ∈ f.parts

theorem Descent.length_le {f : Formula} {way : List Formula} (h : Descent (f :: way)) :
    (f :: way).length ≤ f.height := by
  induction way generalizing f with
  | nil => exact f.height_pos
  | cons g way ih =>
    obtain ⟨step, more⟩ := List.isChain_cons_cons.1 h
    have lower := height_lt_of_mem_parts step
    have rest := ih more
    rw [List.length_cons]
    omega

/-- Only choices go above the height that chains of operators may have, and each takes a level. -/
theorem Bounded.height_lt : {f : Formula} → f.Bounded → f.height < maxHeight + f.nesting
  | .choice c t f, h => by
    obtain ⟨condition, yes, no⟩ := h
    have yes := yes.height_lt
    have no := no.height_lt
    have := t.nesting_pos
    rw [height, nesting]
    omega
  | .atom _, h | .binary .., h | .unary .., h | .call .., h | .group .., h | .rank .., h | .analysis .., h =>
    Nat.lt_of_le_of_lt h (Nat.lt_add_of_pos_right (nesting_pos _))

theorem height_le_of_parse {text : String} {f : Formula} (h : parse text = .ok f) :
    f.height ≤ maxHeight + maxNesting - 1 := by
  have accepted := accepted_of_parse h
  have height := (accepted.bounded (Nat.le_refl 1)).height_lt
  have nesting := accepted.nesting_le
  omega

namespace GaugedGrammar

/-- A reading that counts its nesting gives the same answer, comes back to where it started and has not been
below the deepest level. -/
theorem parse_calling (last : GaugedGrammar) {calls : Nat} (enough : maxNesting < calls) (text : String) :
    ∃ gauge, (calling last calls).parse text = (Formula.parse text, gauge) ∧ gauge.depth = 0 ∧
      gauge.deepest ≤ maxNesting := by
  have kept := (keeping_calling last enough).choice .start text.toList (Nat.zero_add _) (Nat.zero_le _)
  unfold GaugedGrammar.parse Formula.parse parseChars
  dsimp only
  split
  · exact ⟨.start, rfl, rfl, Nat.zero_le _⟩
  generalize (calling last calls).choice .start text.toList = r at kept
  obtain ⟨o, gauge⟩ := r
  have depth : gauge.depth = 0 := kept.depth
  have exceeded : gauge.exceeded = true ↔ ((ofLevels maxNesting).choice text.toList).TooDeep := by
    rw [kept.exceeded]
    exact or_iff_right Bool.false_ne_true
  have orderly := kept.orderly
  obtain rfl : o = (ofLevels maxNesting).choice text.toList := kept.outcome
  refine ⟨gauge, ?_, depth, kept.deepest⟩
  cases read : (ofLevels maxNesting).choice text.toList with
  | ok f rest => rfl
  | soft failure =>
    rw [read] at exceeded
    have within : gauge.exceeded ≠ true := fun no => not_tooDeep_soft failure (exceeded.1 no)
    dsimp only
    rw [if_neg within]
  | hard failure =>
    rw [read, tooDeep_hard_iff] at exceeded
    dsimp only
    split
    · rename_i refused
      rw [exceeded.1 refused]
      rfl
    · rfl

end GaugedGrammar

/-- Every formula that is read is bounded in height, and with it every way down through its parts. Reading
never nests deeper than the deepest level, and comes back to the level where it began. -/
theorem reading_bounded (text : String) :
    (∀ f, parse text = .ok f → f.height ≤ maxHeight + maxNesting - 1 ∧
      ∀ way, Descent (f :: way) → (f :: way).length ≤ maxHeight + maxNesting - 1) ∧
    ∀ last calls, maxNesting < calls → ∃ gauge,
      (GaugedGrammar.calling last calls).parse text = (parse text, gauge) ∧ gauge.depth = 0 ∧
        gauge.deepest ≤ maxNesting := by
  refine ⟨fun f read => ?_, fun last calls enough => GaugedGrammar.parse_calling last enough text⟩
  have height := height_le_of_parse read
  exact ⟨height, fun way down => Nat.le_trans down.length_le height⟩

/-- Choices in each other's last branch, with a product as high as a chain may be in the last of all. -/
def ladder : Nat → Formula
  | 0 => product 255
  | n + 1 => .choice (.atom (.field "a")) (.atom (.field "b")) (ladder n)

theorem height_ladder (n : Nat) : (ladder n).height = maxHeight + n := by
  induction n with
  | zero => exact height_product 255
  | succ n ih =>
    have pos : 1 ≤ maxHeight := by decide
    change max (max 1 1) (ladder n).height + 1 = _
    omega

theorem nesting_ladder (n : Nat) : (ladder n).nesting = n + 1 := by
  induction n with
  | zero => exact nesting_product 255
  | succ n ih =>
    change max (1 + 0) (max 1 (ladder n).nesting + 1) = _
    omega

theorem builtFrom_ladder (n : Nat) : (ladder n).BuiltFrom Atom.Literal := by
  induction n with
  | zero => exact builtFrom_product 255
  | succ n ih => exact ⟨⟨by decide, by decide⟩, ⟨by decide, by decide⟩, ih⟩

theorem low_ladder (n : Nat) : (ladder n).Low ∧ (ladder n).Settled := by
  induction n with
  | zero =>
    refine ⟨low_product 255 (by decide), .inr ?_⟩
    rw [height_ladder]
    rfl
  | succ n ih =>
    have field (name : String) : (Formula.atom (.field name)).Low := by
      unfold Low
      trivial
    refine ⟨?_, .inl rfl⟩
    rw [ladder, Low]
    exact ⟨field "a", by decide, field "b", .inr (by decide), ih⟩

/-- The bound is reached, at the deepest level. -/
theorem reading_bounded_ladder :
    parse (ladder 47).text = .ok (ladder 47) ∧ (ladder 47).height = 303 ∧ maxHeight + maxNesting - 1 = 303 ∧
      (∀ way, Descent (ladder 47 :: way) → (ladder 47 :: way).length ≤ 303) ∧
      ∃ gauge, (GaugedGrammar.calling ⟨.tooDeep, .tooDeep, .tooDeep⟩ 49).parse (ladder 47).text =
        (.ok (ladder 47), gauge) ∧ gauge.depth = 0 ∧ gauge.deepest ≤ 48 := by
  have fits : Fits maxNesting 1 (ladder 47) :=
    fits_one.2 ⟨Nat.le_of_eq (nesting_ladder 47), low_ladder 47⟩
  have written : (ladder 47).text ∈ (ladder 47).texts 80 := List.mem_cons_self
  have read := (parse_of_spells (builtFrom_ladder 47) (spells_of_mem_texts written)).1 fits
  have bounded := reading_bounded (ladder 47).text
  have counted := bounded.2 ⟨.tooDeep, .tooDeep, .tooDeep⟩ 49 (by decide)
  rw [read] at counted
  exact ⟨read, height_ladder 47, rfl, (bounded.1 _ read).2, counted⟩

end DerivedColumns.Formula
