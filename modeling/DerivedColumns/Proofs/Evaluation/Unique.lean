import DerivedColumns.Proofs.Evaluation.Groups

set_option autoImplicit false

/-!
Values are counted by their texts with the names of their kinds in front. This tells values apart as
equality does, with two exceptions: dates in one second have one text, and zero and negative zero have
two.
-/

namespace DerivedColumns

open Calendar (Moment)

theorem ncard_setOf_mem {α : Type} [BEq α] [LawfulBEq α] (as : List α) :
    {a | a ∈ as}.ncard = as.eraseDups.length := by
  classical
  have same : {a | a ∈ as} = (as.eraseDups.toFinset : Set α) := by
    ext a
    simp
  rw [same, Set.ncard_coe_finset, List.toFinset_card_of_nodup (nodup_eraseDups as)]

theorem setOf_mem_map {α β : Type} (f : α → β) (as : List α) :
    {b | b ∈ as.map f} = f '' {a | a ∈ as} := by
  ext b
  simp

/-- An image is smaller just by what is lost on the part outside which the function tells all apart. -/
theorem ncard_image_add {α β : Type} {s : Set α} (finite : s.Finite) (p : α → Prop) {f : α → β}
    (apart : ∀ a ∈ s, ∀ b ∈ s, f a = f b → a = b ∨ (p a ∧ p b)) :
    (f '' s).ncard + {a ∈ s | p a}.ncard = s.ncard + (f '' {a ∈ s | p a}).ncard := by
  have inside : {a ∈ s | p a}.Finite := finite.subset (Set.sep_subset _ _)
  have outside : {a ∈ s | ¬ p a}.Finite := finite.subset (Set.sep_subset _ _)
  have parts : s = {a ∈ s | p a} ∪ {a ∈ s | ¬ p a} := by
    ext a
    simp only [Set.mem_union, Set.mem_sep_iff]
    tauto
  have disjoint : Disjoint {a ∈ s | p a} {a ∈ s | ¬ p a} := by
    rw [Set.disjoint_left]
    exact fun a ha hb => hb.2 ha.2
  have images : Disjoint (f '' {a ∈ s | p a}) (f '' {a ∈ s | ¬ p a}) := by
    rw [Set.disjoint_left]
    rintro _ ⟨a, ha, rfl⟩ ⟨b, hb, same⟩
    rcases apart b hb.1 a ha.1 same with rfl | both
    · exact hb.2 ha.2
    · exact hb.2 both.1
  have injective : Set.InjOn f {a ∈ s | ¬ p a} := fun a ha b hb same =>
    (apart a ha.1 b hb.1 same).resolve_right fun both => ha.2 both.1
  have whole := Set.ncard_union_eq disjoint inside outside
  have image := Set.ncard_union_eq images (inside.image f) (outside.image f)
  rw [← parts] at whole
  rw [← Set.image_union, ← parts, injective.ncard_image] at image
  omega

namespace Value

def isNaN : Value → Bool
  | .number x => x.isNaN
  | _ => false

def moment? : Value → Option Moment
  | .date m => some m
  | _ => none

def zero? : Value → Option Number
  | .number x => if x.isZero then some x else none
  | _ => none

theorem eq_of_moment? {v : Value} {m : Moment} (h : v.moment? = some m) : v = .date m := by
  cases v <;> simp_all [moment?]

theorem eq_of_zero? {v : Value} {x : Number} (h : v.zero? = some x) : v = .number x := by
  cases v <;> simp_all [zero?]

theorem beq_iff {v w : Value} (proper : v.isNaN = false) :
    (v == w) = true ↔ v = w ∨ (v.zero?.isSome = true ∧ w.zero?.isSome = true) := by
  change v.beq w = true ↔ _
  cases v with
  | number x =>
    cases w with
    | number y =>
      have other : x = y ∨ (x.isZero = true ∧ y.isZero = true) → y.isNaN = false := by
        rintro (rfl | ⟨-, zero⟩)
        · exact proper
        · exact Number.isNaN_of_isZero zero
      change x.equals y = true ↔ _
      rw [Number.equals_iff, and_iff_right_of_imp fun same => ⟨proper, other same⟩]
      simp [zero?]
    | _ => simp [beq, zero?]
  | _ => cases w <;> simp [beq, zero?]

def equalTo (values : List Value) (v : Value) : Set Value := {w | w ∈ values ∧ (v == w) = true}

/-- The classes in which equality puts listed values. -/
def classes (values : List Value) : Set (Set Value) := equalTo values '' {v | v ∈ values}

def dates (values : List Value) : List Moment := values.filterMap moment?

def zeros (values : List Value) : List Number := values.filterMap zero?

variable {values : List Value}

theorem sep_isSome {α : Type} {g : Value → Option α} {embed : α → Value}
    (own : ∀ {v a}, g v = some a → v = embed a) :
    {v ∈ {v | v ∈ values} | (g v).isSome = true} = embed '' {a | a ∈ values.filterMap g} := by
  ext v
  simp only [Set.mem_ofPred_eq, Option.isSome_iff_exists, Set.mem_image, List.mem_filterMap]
  constructor
  · rintro ⟨hv, a, e⟩
    exact ⟨a, ⟨v, hv, e⟩, (own e).symm⟩
  · rintro ⟨a, ⟨w, hw, e⟩, rfl⟩
    rw [← own e]
    exact ⟨hw, a, e⟩

theorem ncard_isSome {α : Type} [BEq α] [LawfulBEq α] (values : List Value) {g : Value → Option α}
    {embed : α → Value} (own : ∀ {v a}, g v = some a → v = embed a) :
    {v ∈ {v | v ∈ values} | (g v).isSome = true}.ncard = (values.filterMap g).eraseDups.length := by
  have injective : Set.InjOn embed {a | a ∈ values.filterMap g} := by
    intro a ha b hb same
    obtain ⟨v, -, ea⟩ := List.mem_filterMap.1 ha
    obtain ⟨w, -, eb⟩ := List.mem_filterMap.1 hb
    rw [own ea, same, ← own eb, eb] at ea
    exact (Option.some_inj.1 ea).symm
  rw [sep_isSome own, injective.ncard_image, ncard_setOf_mem]

theorem equalTo_of_zero {v : Value} (proper : v.isNaN = false) (zero : v.zero?.isSome = true) :
    equalTo values v = {w ∈ {w | w ∈ values} | w.zero?.isSome = true} := by
  ext w
  refine and_congr_right fun _ => ?_
  rw [beq_iff proper, and_iff_right zero]
  refine or_iff_right_of_imp fun same => ?_
  rw [← same]
  exact zero

theorem equalTo_eq_iff (proper : ∀ v ∈ values, v.isNaN = false) {v w : Value} (hv : v ∈ values)
    (hw : w ∈ values) : equalTo values v = equalTo values w ↔ (v == w) = true := by
  constructor
  · intro same
    have own : w ∈ equalTo values w := ⟨hw, (beq_iff (proper w hw)).2 (.inl rfl)⟩
    rw [← same] at own
    exact own.2
  · intro equal
    rcases (beq_iff (proper v hv)).1 equal with rfl | ⟨zv, zw⟩
    · rfl
    · rw [equalTo_of_zero (proper v hv) zv, equalTo_of_zero (proper w hw) zw]

/-- By how much zero and negative zero are more than one: by one if both are there. -/
def extraZeros (values : List Value) : Nat := (zeros values).eraseDups.length - 1

/-- By how much the dates are more than their texts. -/
def lostDates (values : List Value) : Nat :=
  (dates values).eraseDups.length - ((dates values).map Moment.cellText).eraseDups.length

/-- Equality puts the zeros in one class, and every other value in one of its own. -/
theorem ncard_classes (proper : ∀ v ∈ values, v.isNaN = false) :
    (classes values).ncard + extraZeros values = {v | v ∈ values}.ncard := by
  have split := ncard_image_add (List.finite_toSet values) (fun v => v.zero?.isSome = true)
    (f := equalTo values) fun v hv w hw same =>
      (beq_iff (proper v hv)).1 ((equalTo_eq_iff proper hv hw).1 same)
  have one : (equalTo values '' {v ∈ {v | v ∈ values} | v.zero?.isSome = true}).ncard =
      min 1 (zeros values).eraseDups.length := by
    rw [Set.image_congr fun v hv => equalTo_of_zero (proper v hv.1) hv.2]
    rw [sep_isSome @eq_of_zero?]
    change (_ '' (_ '' {x | x ∈ zeros values})).ncard = _
    cases zeros values with
    | nil => simp
    | cons x more =>
      have some : (Value.number '' {y | y ∈ x :: more}).Nonempty := ⟨_, x, List.mem_cons_self, rfl⟩
      rw [some.image_const, Set.ncard_singleton, List.eraseDups_cons, List.length_cons]
      omega
  have listed := ncard_isSome values @eq_of_zero?
  change _ = (zeros values).eraseDups.length at listed
  unfold extraZeros
  change (classes values).ncard + _ = _ at split
  omega

theorem length_texts_le (values : List Value) :
    ((dates values).map Moment.cellText).eraseDups.length ≤ (dates values).eraseDups.length := by
  rw [← ncard_setOf_mem, ← ncard_setOf_mem, setOf_mem_map]
  exact Set.ncard_image_le (List.finite_toSet _)

end Value

namespace Evaluation

open Value

theorem kindName_append_inj {v w : Value} {s t : List Char}
    (h : v.kindName.toList ++ ':' :: s = w.kindName.toList ++ ':' :: t) :
    v.kindName = w.kindName ∧ s = t := by
  have word : ∀ u : Value, ∀ c ∈ u.kindName.toList, c ≠ ':' := by
    intro u
    cases u <;> simp [Value.kindName]
  have cut : ∀ (u : Value) (r : List Char),
      (u.kindName.toList ++ ':' :: r).takeWhile (· ≠ ':') = u.kindName.toList := by
    intro u r
    rw [List.takeWhile_append_of_pos (by simpa using word u)]
    simp
  have kind : v.kindName.toList = w.kindName.toList := by rw [← cut v s, h, cut w t]
  rw [kind, List.append_cancel_left_eq] at h
  exact ⟨String.toList_inj.1 kind, (List.cons.inj h).2⟩

theorem taggedText_eq_iff (v w : Value) :
    taggedText v = taggedText w ↔ v.kindName = w.kindName ∧ v.display = w.display := by
  constructor
  · intro same
    have chars := congrArg String.toList same
    simp only [taggedText, String.toList_append, List.append_assoc] at chars
    obtain ⟨kind, text⟩ := kindName_append_inj chars
    exact ⟨kind, String.toList_inj.1 text⟩
  · rintro ⟨kind, text⟩
    rw [taggedText, taggedText, kind, text]

theorem eq_of_taggedText_eq {v w : Value} (proper : v.isNaN = false) (same : taggedText v = taggedText w) :
    v = w ∨ (v.moment?.isSome = true ∧ w.moment?.isSome = true) := by
  obtain ⟨kind, text⟩ := (taggedText_eq_iff v w).1 same
  have alike := (v.display_eq_iff w).1 text
  cases v <;> cases w <;> simp [Value.kindName] at kind
  case null.null => exact .inl rfl
  case bool.bool a b => exact .inl (congrArg Value.bool alike)
  case number.number x y =>
    rcases alike with rfl | ⟨nan, -⟩
    · exact .inl rfl
    · change x.isNaN = false at proper
      rw [nan] at proper
      cases proper
  case date.date m n => exact .inr ⟨rfl, rfl⟩
  case text.text s t => exact .inl (congrArg Value.text alike)

variable {values : List Value}

/-- The tagged texts count dates once that show the same, and every other value by itself. -/
theorem length_taggedTexts (proper : ∀ v ∈ values, v.isNaN = false) :
    (values.map taggedText).eraseDups.length + lostDates values = {v | v ∈ values}.ncard := by
  have split := ncard_image_add (List.finite_toSet values) (fun v => v.moment?.isSome = true)
    (f := taggedText) fun v hv w hw same => eq_of_taggedText_eq (proper v hv) same
  have shown : (taggedText '' {v ∈ {v | v ∈ values} | v.moment?.isSome = true}).ncard =
      ((dates values).map Moment.cellText).eraseDups.length := by
    have tagged : taggedText '' (Value.date '' {m | m ∈ dates values}) =
        ("date:" ++ ·) '' {t | t ∈ (dates values).map Moment.cellText} := by
      rw [setOf_mem_map, Set.image_image, Set.image_image]
      rfl
    have injective : Function.Injective ("date:" ++ · : String → String) :=
      fun _ _ => (String.append_right_inj "date:").1
    rw [sep_isSome @eq_of_moment?]
    change (taggedText '' (Value.date '' {m | m ∈ dates values})).ncard = _
    rw [tagged, Set.ncard_image_of_injective _ injective, ncard_setOf_mem]
  have listed := ncard_isSome values @eq_of_moment?
  change _ = (dates values).eraseDups.length at listed
  have fewer := length_texts_le values
  rw [← setOf_mem_map, ncard_setOf_mem] at split
  unfold lostDates
  omega

/-- The count of different texts is that of the classes of equal values, up to dates that show the same and
zeros of both signs. -/
theorem length_taggedTexts_classes (proper : ∀ v ∈ values, v.isNaN = false) :
    (values.map taggedText).eraseDups.length + lostDates values =
      (classes values).ncard + extraZeros values :=
  (length_taggedTexts proper).trans (ncard_classes proper).symm

theorem isNaN_of_mem_nonNull {field : String} {rows : List Row}
    (proper : ∀ row ∈ rows, (fieldValue row.fields field).isNaN = false) (keys : List String)
    (key : String) : ∀ v ∈ nonNull field (part keys rows key), v.isNaN = false := by
  intro v hv
  obtain ⟨row, hrow, rfl⟩ := List.mem_map.1 (List.mem_of_mem_filter hv)
  exact proper row (mem_part.1 hrow).1

theorem groupFault?_countUnique (keys : List String) (field : String) (rows : List Row) :
    groupFault? keys .countUnique (some field) rows = none :=
  List.findSome?_eq_none_iff.2 fun _ _ => rfl

/-- Counting different values never fails. In each group it counts the classes of equal values, less the
dates that show the same as another, and one more if the zeros of both signs are there. -/
theorem countUnique_classes (keys : List String) (field : String) {rows : List Row}
    (proper : ∀ row ∈ rows, (fieldValue row.fields field).isNaN = false) :
    ∃ groups, group keys .countUnique (some field) rows = .ok groups ∧
      ∀ key, part keys rows key ≠ [] → let values := nonNull field (part keys rows key)
        ∃ n, groups.get? key = some (.number (.ofNat n)) ∧
          n + lostDates values = (classes values).ncard + extraZeros values ∧
          (n = (classes values).ncard ↔ lostDates values = extraZeros values) := by
  obtain ⟨groups, grouped, found⟩ := exists_group (groupFault?_countUnique keys field rows)
  refine ⟨groups, grouped, fun key some => ?_⟩
  obtain ⟨v, own, value⟩ := found key some
  have count := length_taggedTexts_classes (isNaN_of_mem_nonNull proper keys key)
  change aggregate .countUnique _ (nonNull field (part keys rows key)) = .ok v at value
  cases value
  exact ⟨_, own, count, by omega⟩

def dateAt (millis : Int) : Value := ((Moment.ofMillis? millis).map .date).getD .null

def nearlyEqual : List Row :=
  [⟨1, .ofList [("g", .text "a"), ("v", .number ⟨0⟩)]⟩, ⟨2, .ofList [("g", .text "b"), ("v", dateAt 1)]⟩,
    ⟨3, .ofList [("g", .text "a"), ("v", .text "0")]⟩, ⟨4, .ofList [("g", .text "b"), ("v", dateAt 2)]⟩,
    ⟨5, .ofList [("g", .text "a"), ("v", .number (-⟨0⟩))]⟩]

theorem countUnique_classes_nearlyEqual :
    (∀ row ∈ nearlyEqual, (fieldValue row.fields "v").isNaN = false) ∧
    ∃ groups, group ["g"] .countUnique (some "v") nearlyEqual = .ok groups ∧
      (∃ n, groups.get? "a" = some (.number (.ofNat n)) ∧
        n = (classes (nonNull "v" (part ["g"] nearlyEqual "a"))).ncard + 1) ∧
      (∃ n, groups.get? "b" = some (.number (.ofNat n)) ∧
        n + 1 = (classes (nonNull "v" (part ["g"] nearlyEqual "b"))).ncard) := by
  have proper : ∀ row ∈ nearlyEqual, (fieldValue row.fields "v").isNaN = false := by decide +kernel
  obtain ⟨groups, grouped, found⟩ := countUnique_classes ["g"] "v" proper
  obtain ⟨n, counted, exact_n, -⟩ := found "a" (by decide +kernel)
  obtain ⟨m, counted', exact_m, -⟩ := found "b" (by decide +kernel)
  have zeros : lostDates (nonNull "v" (part ["g"] nearlyEqual "a")) = 0 ∧
      extraZeros (nonNull "v" (part ["g"] nearlyEqual "a")) = 1 := by decide +kernel
  have dates : lostDates (nonNull "v" (part ["g"] nearlyEqual "b")) = 1 ∧
      extraZeros (nonNull "v" (part ["g"] nearlyEqual "b")) = 0 := by decide +kernel
  refine ⟨proper, groups, grouped, ⟨n, counted, ?_⟩, m, counted', ?_⟩ <;> omega

def sameSecond : List Row := [⟨1, .ofList [("d", dateAt 1)]⟩, ⟨2, .ofList [("d", dateAt 2)]⟩]

theorem not_classes_sameSecond : (∀ row ∈ sameSecond, (fieldValue row.fields "d").isNaN = false) ∧
    ¬ ∃ groups, group [] .countUnique (some "d") sameSecond = .ok groups ∧
      groups.get? "" = some (.number (.ofNat (classes (nonNull "d" (part [] sameSecond ""))).ncard)) := by
  have proper : ∀ row ∈ sameSecond, (fieldValue row.fields "d").isNaN = false := by decide +kernel
  refine ⟨proper, ?_⟩
  rintro ⟨groups, grouped, found⟩
  have counted := ((get?_group grouped _ _).1 found).2
  have two := length_taggedTexts_classes (isNaN_of_mem_nonNull proper [] "")
  have sizes : ((nonNull "d" (part [] sameSecond "")).map taggedText).eraseDups.length = 1 ∧
      lostDates (nonNull "d" (part [] sameSecond "")) = 1 ∧
      extraZeros (nonNull "d" (part [] sameSecond "")) = 0 := by decide +kernel
  have classes_two : (classes (nonNull "d" (part [] sameSecond ""))).ncard = 2 := by omega
  rw [classes_two] at counted
  change Except.ok (Value.number (.ofNat
    ((nonNull "d" (part [] sameSecond "")).map taggedText).eraseDups.length)) = _ at counted
  rw [sizes.1] at counted
  exact absurd (Value.number.inj (Except.ok.inj counted)) (by decide +kernel)

end Evaluation

end DerivedColumns
