import DerivedColumns.Formula.Outcome

set_option autoImplicit false

/-!
Two judgements on readers, each with one rule for every way of building them. `Takes` says what a reader
does to a given text: it takes a result off it exactly if it can, and otherwise meets the deepest level.
`Yields` says of which kind the results on any text are.
-/

namespace DerivedColumns.Formula

variable {α β : Type}

def Outcome.TooDeep (o : Outcome α) : Prop := ∃ rest, o = .hard ⟨.tooDeep, rest⟩

def Outcome.Soft (o : Outcome α) : Prop := ∃ f, o = .soft f

namespace Reader

variable {p q : Reader α} {next : α → Reader β} {s rest : List Char} {a : α}

theorem bind_of_ok (h : p s = .ok a rest) : (p >>= next) s = next a rest := by
  simp only [bind, h]

theorem bind_of_soft {f : Failure} (h : p s = .soft f) : (p >>= next) s = .soft f := by
  simp only [bind, h]

theorem bind_of_hard {f : Failure} (h : p s = .hard f) : (p >>= next) s = .hard f := by
  simp only [bind, h]

theorem orElse_of_soft {f : Failure} (h : p s = .soft f) : orElse p q s = q s := by
  unfold orElse
  rw [h]

theorem bind_eq_ok_iff {b : β} : (p >>= next) s = .ok b rest ↔
    ∃ a mid, p s = .ok a mid ∧ next a mid = .ok b rest := by
  cases first : p s with
  | ok a mid =>
    rw [bind_of_ok first]
    exact ⟨fun h => ⟨a, mid, rfl, h⟩, fun ⟨_, _, same, h⟩ => by cases same; exact h⟩
  | soft f =>
    rw [bind_of_soft first]
    exact ⟨nofun, nofun⟩
  | hard f =>
    rw [bind_of_hard first]
    exact ⟨nofun, nofun⟩

theorem reporting_eq_ok_iff {change : Cause → Cause} :
    p.reporting change s = .ok a rest ↔ p s = .ok a rest := by
  unfold reporting
  cases p s <;> simp

theorem cut_eq_ok_iff : p.cut s = .ok a rest ↔ p s = .ok a rest := by
  unfold cut
  cases p s <;> simp

theorem orElse_eq_ok_iff :
    p.orElse q s = .ok a rest ↔ p s = .ok a rest ∨ ((p s).Soft ∧ q s = .ok a rest) := by
  unfold orElse Outcome.Soft
  cases p s <;> simp

theorem optional_eq_ok_iff {o : Option α} : p.optional s = .ok o rest ↔
    (∃ a, o = some a ∧ p s = .ok a rest) ∨ (o = none ∧ rest = s ∧ (p s).Soft) := by
  unfold optional Outcome.Soft
  cases p s <;> simp <;> grind

theorem soft_bind (h : (p s).Soft) : ((p >>= next) s).Soft := by
  obtain ⟨f, hf⟩ := h
  exact ⟨f, bind_of_soft hf⟩

/-- The reader takes `a` off the text if it can, and otherwise meets the deepest level. -/
structure Takes (p : Reader α) (s : List Char) (a : α) (rest : List Char) (can : Prop) : Prop where
  ok : can → p s = .ok a rest
  tooDeep : ¬ can → (p s).TooDeep

namespace Takes

variable {b : β} {mid : List Char} {P Q : Prop}

theorem of_eq (h : p s = .ok a rest) : Takes p s a rest True :=
  ⟨fun _ => h, fun no => absurd trivial no⟩

theorem congr (h : Takes p s a rest P) (iff : P ↔ Q) : Takes p s a rest Q :=
  ⟨fun can => h.ok (iff.2 can), fun no => h.tooDeep fun can => no (iff.1 can)⟩

theorem pure (a : α) (s : List Char) : Takes (Pure.pure a : Reader α) s a s True := of_eq rfl

theorem bind (h : Takes p s a mid P) (hnext : P → Takes (next a) mid b rest Q) :
    Takes (p >>= next) s b rest (P ∧ Q) := by
  refine ⟨fun can => ?_, fun no => ?_⟩
  · rw [bind_of_ok (h.ok can.1)]
    exact (hnext can.1).ok can.2
  · by_cases first : P
    · obtain ⟨t, ht⟩ := (hnext first).tooDeep fun second => no ⟨first, second⟩
      exact ⟨t, by rw [bind_of_ok (h.ok first), ht]⟩
    · obtain ⟨t, ht⟩ := h.tooDeep first
      exact ⟨t, bind_of_hard ht⟩

theorem after (h : p s = .ok a mid) (hnext : Takes (next a) mid b rest Q) :
    Takes (p >>= next) s b rest Q :=
  ((of_eq h).bind fun _ => hnext).congr (iff_of_eq (true_and Q))

theorem map (h : Takes p s a rest P) (f : α → β) :
    Takes (p >>= fun a => Pure.pure (f a)) s (f a) rest P :=
  (h.bind fun _ => pure (f a) rest).congr (iff_of_eq (and_true P))

theorem reporting (h : Takes p s a rest P) {change : Cause → Cause} (keeps : change .tooDeep = .tooDeep) :
    Takes (p.reporting change) s a rest P := by
  unfold Reader.reporting
  refine ⟨fun can => by simp only [h.ok can], fun no => ?_⟩
  obtain ⟨t, ht⟩ := h.tooDeep no
  exact ⟨t, by simp only [ht, keeps]⟩

theorem within (h : Takes p s a rest P) (label : String) : Takes (p.within label) s a rest P :=
  h.reporting rfl

theorem wanting (h : Takes p s a rest P) (e : Expected) : Takes (p.wanting e) s a rest P :=
  h.reporting rfl

theorem cut (h : Takes p s a rest P) : Takes p.cut s a rest P := by
  unfold Reader.cut
  refine ⟨fun can => by simp only [h.ok can], fun no => ?_⟩
  obtain ⟨t, ht⟩ := h.tooDeep no
  exact ⟨t, by simp only [ht]⟩

theorem optional (h : Takes p s a rest P) : Takes p.optional s (some a) rest P := by
  unfold Reader.optional
  refine ⟨fun can => by simp only [h.ok can], fun no => ?_⟩
  obtain ⟨t, ht⟩ := h.tooDeep no
  exact ⟨t, by simp only [ht]⟩

theorem orElse (h : Takes p s a rest P) : Takes (p.orElse q) s a rest P := by
  unfold Reader.orElse
  refine ⟨fun can => by simp only [h.ok can], fun no => ?_⟩
  obtain ⟨t, ht⟩ := h.tooDeep no
  exact ⟨t, by simp only [ht]⟩

theorem orElse_of_soft (soft : (p s).Soft) (h : Takes q s a rest P) : Takes (p.orElse q) s a rest P := by
  obtain ⟨f, hf⟩ := soft
  refine ⟨fun can => ?_, fun no => ?_⟩
  · rw [Reader.orElse_of_soft hf]
    exact h.ok can
  · rw [Outcome.TooDeep, Reader.orElse_of_soft hf]
    exact h.tooDeep no

theorem optional_of_soft (soft : (p s).Soft) : p.optional s = .ok none s := by
  obtain ⟨f, hf⟩ := soft
  unfold Reader.optional
  rw [hf]

theorem many_of_soft (soft : (p s).Soft) : p.many s = .ok [] s := by
  obtain ⟨f, hf⟩ := soft
  rw [Reader.many, hf]

theorem many_cons {as : List α} (h : Takes p s a mid P) (shorter : mid.length < s.length)
    (more : P → Takes p.many mid as rest Q) : Takes p.many s (a :: as) rest (P ∧ Q) := by
  refine ⟨fun can => ?_, fun no => ?_⟩
  · rw [Reader.many, h.ok can.1]
    simp only [shorter, if_true, (more can.1).ok can.2]
  · by_cases first : P
    · obtain ⟨t, ht⟩ := (more first).tooDeep fun second => no ⟨first, second⟩
      exact ⟨t, by rw [Reader.many, h.ok first]; simp only [shorter, if_true, ht]⟩
    · obtain ⟨t, ht⟩ := h.tooDeep first
      exact ⟨t, by rw [Reader.many, ht]⟩

end Takes

theorem takes_tooDeep {P : Prop} (no : ¬ P) (a : α) (s rest : List Char) :
    Takes tooDeep s a rest P :=
  ⟨fun can => absurd can no, fun _ => ⟨s, rfl⟩⟩

theorem char_self (c : Char) (s : List Char) : char c (c :: s) = .ok () s := by
  simp [char]

theorem char_eq_ok_iff {c : Char} {u : Unit} : char c s = .ok u rest ↔ s = c :: rest := by
  unfold char
  cases s with
  | nil => simp
  | cons d s =>
    dsimp only
    split <;> simp_all

theorem soft_char {c : Char} (h : s.head? ≠ some c) : (char c s).Soft := by
  unfold char
  cases s with
  | nil => exact ⟨_, rfl⟩
  | cons d rest =>
    have other : d ≠ c := fun e => h (by rw [e]; rfl)
    simp only [other, if_false]
    exact ⟨_, rfl⟩

theorem soft_orElse (hp : (p s).Soft) (hq : (q s).Soft) : ((p.orElse q) s).Soft := by
  obtain ⟨f, hf⟩ := hp
  rwa [orElse_of_soft hf]

theorem soft_reporting_iff {change : Cause → Cause} : (p.reporting change s).Soft ↔ (p s).Soft := by
  unfold reporting Outcome.Soft
  cases p s <;> simp

theorem not_soft_cut (s : List Char) : ¬ (p.cut s).Soft := by
  unfold cut Outcome.Soft
  cases p s <;> simp

theorem soft_of_orElse (h : ((p.orElse q) s).Soft) : (p s).Soft ∧ (q s).Soft := by
  unfold orElse Outcome.Soft at *
  cases hp : p s <;> simp_all

/-- Every result has the property. -/
def Yields (p : Reader α) (P : α → Prop) : Prop := ∀ s a rest, p s = .ok a rest → P a

namespace Yields

variable {P : α → Prop} {Q : β → Prop}

theorem mono {P' : α → Prop} (h : Yields p P) (imp : ∀ a, P a → P' a) : Yields p P' :=
  fun s a rest hs => imp a (h s a rest hs)

theorem any (p : Reader α) : Yields p fun _ => True := fun _ _ _ _ => trivial

theorem pure {a : α} (h : P a) : Yields (Pure.pure a) P := by
  intro s b rest hs
  cases hs
  exact h

theorem bind (h : Yields p P) (hnext : ∀ a, P a → Yields (next a) Q) : Yields (p >>= next) Q := by
  intro s b rest hs
  cases first : p s with
  | ok a mid =>
    rw [bind_of_ok first] at hs
    exact hnext a (h s a mid first) mid b rest hs
  | soft f => rw [bind_of_soft first] at hs; cases hs
  | hard f => rw [bind_of_hard first] at hs; cases hs

theorem tooDeep (P : α → Prop) : Yields Reader.tooDeep P := by
  intro s a rest hs
  cases hs

theorem reporting (h : Yields p P) (change : Cause → Cause) : Yields (p.reporting change) P := by
  intro s a rest hs
  unfold Reader.reporting at hs
  split at hs <;> cases hs
  exact h s a rest ‹_›

theorem within (h : Yields p P) (label : String) : Yields (p.within label) P := h.reporting _

theorem wanting (h : Yields p P) (e : Expected) : Yields (p.wanting e) P := h.reporting _

theorem cut (h : Yields p P) : Yields p.cut P := by
  intro s a rest hs
  unfold Reader.cut at hs
  split at hs
  · cases hs
  · exact h s _ rest hs

theorem orElse (hp : Yields p P) (hq : Yields q P) : Yields (p.orElse q) P := by
  intro s a rest hs
  cases first : p s with
  | ok b mid =>
    rw [Reader.orElse, first] at hs
    exact hp s a rest (first.trans hs)
  | soft f =>
    rw [orElse_of_soft first] at hs
    exact hq s a rest hs
  | hard f =>
    rw [Reader.orElse, first] at hs
    cases hs

theorem optional (h : Yields p P) : Yields p.optional fun o => ∀ a ∈ o, P a := by
  intro s o rest hs
  unfold Reader.optional at hs
  split at hs <;> cases hs
  · rename_i ok
    intro b hb
    cases hb
    exact h s _ rest ok
  · intro b hb
    cases hb

theorem many (h : Yields p P) : Yields p.many fun as => ∀ a ∈ as, P a := by
  intro s
  fun_induction Reader.many p s with
  | case1 s a mid first shorter as rest more ih =>
    intro as' rest' hs
    cases hs
    intro b hb
    rcases List.mem_cons.1 hb with rfl | hb
    · exact h s b mid first
    · exact ih as rest more b hb
  | case2 s a mid first shorter fails ih =>
    intro as rest hs
    exact (fails as rest hs).elim
  | case3 s a mid first stuck =>
    intro as rest hs
    cases hs
    exact fun b hb => absurd hb List.not_mem_nil
  | case4 s f soft =>
    intro as rest hs
    cases hs
    exact fun b hb => absurd hb List.not_mem_nil
  | case5 s f hard =>
    intro as rest hs
    cases hs

theorem separated (h : Yields p P) (separator : Reader Unit) :
    Yields (p.separated separator) fun as => ∀ a ∈ as, P a := by
  refine h.bind fun first hfirst => ?_
  refine (many ((any separator).bind fun _ _ => h)).bind fun rest hrest => ?_
  refine pure fun a ha => ?_
  rcases List.mem_cons.1 ha with rfl | ha
  · exact hfirst
  · exact hrest a ha

end Yields

end Reader

end DerivedColumns.Formula
