import DerivedColumns.Evaluation.Whole
import DerivedColumns.Proofs.Calendar.Range
import DerivedColumns.Proofs.Distinct
import DerivedColumns.Proofs.Number.Extreme
import DerivedColumns.Proofs.Number.Finite
import Mathlib.Data.List.Forall2

set_option autoImplicit false

namespace DerivedColumns

open List (Forall₂)

def Value.Finite : Value → Prop
  | .number x => x.isFinite = true
  | _ => True

instance (v : Value) : Decidable v.Finite :=
  match v with
  | .number x => inferInstanceAs (Decidable (x.isFinite = true))
  | .null | .bool _ | .date _ | .text _ => inferInstanceAs (Decidable True)

def NotFinite (o : Evaluated Value) : Prop := ∃ v, o = .ok v ∧ ¬ v.Finite

section Outcomes

variable {α β : Type}

theorem bind_eq_ok {o : Evaluated α} {g : α → Evaluated β} {b : β} :
    o >>= g = .ok b ↔ ∃ a, o = .ok a ∧ g a = .ok b := by
  cases o with
  | error e => exact iff_of_false nofun (by rintro ⟨a, no, -⟩; cases no)
  | ok a =>
    constructor
    · exact fun h => ⟨a, rfl, h⟩
    · rintro ⟨a, ⟨rfl⟩, h⟩
      exact h

theorem notFinite_ok {v : Value} : NotFinite (.ok v) ↔ ¬ v.Finite := by
  constructor
  · rintro ⟨v, ⟨rfl⟩, infinite⟩
    exact infinite
  · exact fun infinite => ⟨v, rfl, infinite⟩

theorem notFinite_number {x : Number} : NotFinite (.ok (.number x)) ↔ x.isFinite = false := by
  rw [notFinite_ok, Value.Finite, Bool.not_eq_true]

theorem notFinite_error {e : EvalError} : ¬ NotFinite (.error e) := by
  rintro ⟨v, no, -⟩
  cases no

theorem notFinite_bind {o : Evaluated α} {g : α → Evaluated Value} :
    NotFinite (o >>= g) ↔ ∃ a, o = .ok a ∧ NotFinite (g a) := by
  constructor
  · rintro ⟨v, h, infinite⟩
    obtain ⟨a, ok, h⟩ := bind_eq_ok.1 h
    exact ⟨a, ok, v, h, infinite⟩
  · rintro ⟨a, ok, v, h, infinite⟩
    exact ⟨v, bind_eq_ok.2 ⟨a, ok, h⟩, infinite⟩

end Outcomes

def ReadAs : List Value → List Number → Prop := Forall₂ fun v x => v.toNumber? = some x

theorem ReadAs.exists_of_mem {values : List Value} {xs : List Number} (h : ReadAs values xs) {x : Number}
    (hx : x ∈ xs) : ∃ v ∈ values, v.toNumber? = some x := by
  induction h with
  | nil => cases hx
  | @cons v y values xs first _ ih =>
    rcases List.mem_cons.1 hx with rfl | hx
    · exact ⟨v, List.mem_cons_self, first⟩
    · obtain ⟨w, hw, read⟩ := ih hx
      exact ⟨w, List.mem_cons_of_mem _ hw, read⟩

theorem Value.toNumber?_finite {v : Value} {x : Number} (finite : v.Finite) (read : v.toNumber? = some x) :
    x.isFinite = true ∨ ∃ s, v = .text s := by
  cases v with
  | null => cases read
  | bool b =>
    cases read
    refine .inl (Number.isFinite_ofNat ?_)
    cases b <;> decide
  | number y =>
    cases read
    exact .inl finite
  | date m =>
    cases read
    exact .inl (Number.isFinite_ofInt m.natAbs_millis_lt)
  | text s => exact .inr ⟨s, rfl⟩

theorem mapM_eq_ok_iff {read : Value → Evaluated Number}
    (same : ∀ v x, read v = .ok x ↔ v.toNumber? = some x) (values : List Value) (xs : List Number) :
    values.mapM read = .ok xs ↔ ReadAs values xs := by
  induction values generalizing xs with
  | nil =>
    constructor
    · rintro ⟨⟩
      exact .nil
    · rintro ⟨⟩
      rfl
  | cons v values ih =>
    rw [List.mapM_cons]
    constructor
    · intro h
      obtain ⟨x, first, h⟩ := bind_eq_ok.1 h
      obtain ⟨ys, rest, h⟩ := bind_eq_ok.1 h
      cases h
      exact .cons ((same v x).1 first) ((ih ys).1 rest)
    · rintro (_ | ⟨first, rest⟩)
      rw [(same v _).2 first, (ih _).2 rest]
      rfl

/-- There are numbers, and the extreme of them is not finite: it is the given infinity, or all there is. -/
def Unbounded (limit : Number) (xs : List Number) : Prop :=
  xs ≠ [] ∧ (limit ∈ xs ∨ ∀ x ∈ xs, x.isFinite = false)

/-- The aggregate of so many rows and their values is infinite or NaN. Counts of less than 2 ^ 53 never are. -/
def Overflows (aggregation : Aggregation) (count : Nat) (values : List Value) : Prop :=
  match aggregation with
  | .count => (Number.ofNat count).isFinite = false
  | .countUnique => (Number.ofNat (values.map Evaluation.taggedText).eraseDups.length).isFinite = false
  | .sum | .average => ∃ xs, ReadAs values xs ∧ (Number.sum xs).isFinite = false
  | .min => ∃ xs, ReadAs values xs ∧ Unbounded (-Number.infinity) xs
  | .max => ∃ xs, ReadAs values xs ∧ Unbounded Number.infinity xs

/-- The sum of no numbers is finite, so the missing mean of none makes no difference. -/
theorem notFinite_mean (xs : List Number) :
    NotFinite (.ok (Builtin.mean xs)) ↔ (Number.sum xs).isFinite = false := by
  cases xs with
  | nil => exact iff_of_false (fun no => notFinite_ok.1 no trivial) (by decide +kernel)
  | cons x xs =>
    change NotFinite (.ok (.number ((Number.sum (x :: xs)).divideBy (xs.length + 1)))) ↔ _
    rw [notFinite_number, Number.isFinite_divideBy _ (Nat.succ_pos _)]

theorem notFinite_chosen {choose : Number → Number → Number} {limit : Number}
    (h : Number.Chooses choose limit) (xs : List Number) :
    NotFinite (.ok (Builtin.chosen choose xs)) ↔ Unbounded limit xs := by
  cases xs with
  | nil => exact iff_of_false (fun no => notFinite_ok.1 no trivial) (fun no => no.1 rfl)
  | cons x xs =>
    change NotFinite (.ok (.number (xs.foldl choose x))) ↔ _
    rw [notFinite_number, h.isFinite_foldl, Unbounded, and_iff_right (List.cons_ne_nil _ _)]

theorem notFinite_of_numbers {o : Evaluated (List Number)} {values : List Value}
    (read : ∀ xs, o = .ok xs ↔ ReadAs values xs) {g : List Number → Value} {P : List Number → Prop}
    (same : ∀ xs, NotFinite (.ok (g xs)) ↔ P xs) :
    NotFinite (o >>= fun xs => .ok (g xs)) ↔ ∃ xs, ReadAs values xs ∧ P xs := by
  simp only [notFinite_bind, read, same]

/-- Where all values are read as finite numbers, only sums and averages overflow. -/
theorem additive_of_overflows {aggregation : Aggregation} {count : Nat} {values : List Value}
    (few : count < 2 ^ 53 ∧ values.length < 2 ^ 53)
    (finite : ∀ v ∈ values, ∀ x, v.toNumber? = some x → x.isFinite = true)
    (overflows : Overflows aggregation count values) : aggregation = .sum ∨ aggregation = .average := by
  have bounded : ∀ {limit : Number} {xs : List Number}, limit.isFinite = false → ReadAs values xs →
      ¬ Unbounded limit xs := by
    rintro limit xs infinite read ⟨some, extreme⟩
    have all : ∀ x ∈ xs, x.isFinite = true := by
      intro x hx
      obtain ⟨v, hv, h⟩ := read.exists_of_mem hx
      exact finite v hv x h
    obtain ⟨x, hx⟩ := List.exists_mem_of_ne_nil xs some
    rcases extreme with reached | none
    · rw [all limit reached] at infinite
      cases infinite
    · exact absurd (all x hx) (by rw [none x hx]; decide)
  cases aggregation with
  | sum => exact .inl rfl
  | average => exact .inr rfl
  | count =>
    have small := Number.isFinite_ofNat few.1
    exact absurd small (by rw [overflows]; decide)
  | countUnique =>
    have fewer := length_eraseDups_le (values.map Evaluation.taggedText)
    rw [List.length_map] at fewer
    have small := Number.isFinite_ofNat (Nat.lt_of_le_of_lt fewer few.2)
    exact absurd small (by rw [overflows]; decide)
  | min =>
    obtain ⟨xs, read, unbounded⟩ := overflows
    exact absurd unbounded (bounded (by decide) read)
  | max =>
    obtain ⟨xs, read, unbounded⟩ := overflows
    exact absurd unbounded (bounded (by decide) read)

namespace Evaluation

theorem numberOperand_eq_ok (op : String) (v : Value) (x : Number) :
    numberOperand op v = .ok x ↔ v.toNumber? = some x := by
  unfold numberOperand
  cases v.toNumber? with
  | none => exact ⟨nofun, nofun⟩
  | some y => rw [Except.ok.injEq, Option.some_inj]

theorem notFinite_aggregate (aggregation : Aggregation) (count : Nat) (values : List Value) :
    NotFinite (aggregate aggregation count values) ↔ Overflows aggregation count values := by
  have numbers : ∀ xs, aggregateNumbers aggregation values = .ok xs ↔ ReadAs values xs :=
    mapM_eq_ok_iff (numberOperand_eq_ok aggregation.text) values
  unfold aggregate Overflows
  cases aggregation with
  | count => exact notFinite_number
  | countUnique => exact notFinite_number
  | sum => exact notFinite_of_numbers numbers fun _ => notFinite_number
  | average => exact notFinite_of_numbers numbers notFinite_mean
  | min => exact notFinite_of_numbers numbers (notFinite_chosen Number.chooses_lesser)
  | max => exact notFinite_of_numbers numbers (notFinite_chosen Number.chooses_greater)

end Evaluation

namespace Builtin

def given (args : List Value) : List Value := args.filter fun v => !v.isNull

theorem numbers_eq_ok (function : String) (args : List Value) (xs : List Number) :
    numbers function args = .ok xs ↔ ReadAs (given args) xs := by
  refine mapM_eq_ok_iff (fun v x => ?_) (given args) xs
  cases v.toNumber? with
  | none => exact ⟨nofun, nofun⟩
  | some y => rw [Except.ok.injEq, Option.some_inj]

end Builtin

def Function.Tallies (f : Function) (aggregation : Aggregation) : Prop :=
  f.takesDate = false ∧ ∀ name args, NotFinite (Library.call name f args) ↔
    Overflows aggregation (Builtin.given args).length (Builtin.given args)

def Function.Bounded (f : Function) : Prop := ∀ name args, ¬ NotFinite (Library.call name f args)

namespace Builtin

theorem tallies_sum : Function.Tallies ⟨false, some sum⟩ .sum :=
  ⟨rfl, fun _ args => notFinite_of_numbers (numbers_eq_ok _ args) fun _ => notFinite_number⟩

theorem tallies_average : Function.Tallies ⟨false, some average⟩ .average :=
  ⟨rfl, fun _ args => notFinite_of_numbers (numbers_eq_ok _ args) notFinite_mean⟩

theorem tallies_min : Function.Tallies ⟨false, some min⟩ .min :=
  ⟨rfl, fun _ args => notFinite_of_numbers (numbers_eq_ok _ args) (notFinite_chosen Number.chooses_lesser)⟩

theorem tallies_max : Function.Tallies ⟨false, some max⟩ .max :=
  ⟨rfl, fun _ args => notFinite_of_numbers (numbers_eq_ok _ args) (notFinite_chosen Number.chooses_greater)⟩

theorem tallies_count : Function.Tallies ⟨false, some count⟩ .count :=
  ⟨rfl, fun _ _ => notFinite_number⟩

theorem natAbs_component?_lt {m : Calendar.Moment} {name : String} {n : Int}
    (h : component? m name = some n) : n.natAbs < 2 ^ 53 := by
  have year := m.date.year_mem
  have month := m.date.month_mem
  have day := m.date.day_le
  have week := m.date.week_le
  have weekday := m.date.weekday_lt
  have ordinal := m.date.ordinal_le
  have hour := m.time.hour_lt
  have minute := m.time.minute_lt
  have second : Nat.min m.time.second 59 ≤ 59 := Nat.min_le_right _ _
  unfold Calendar.firstYear Calendar.lastYear at year
  unfold component? at h
  split at h <;> cases h <;> omega

theorem bounded_formatDate (format? : Calendar.Moment → List Char → Option (List Char)) :
    Function.Bounded ⟨true, some (formatDate format?)⟩ := by
  intro name args
  change ¬ NotFinite (dateArgument _ args >>= _)
  rw [notFinite_bind]
  rintro ⟨m, -, h⟩
  obtain ⟨pattern, -, h⟩ := notFinite_bind.1 h
  dsimp only [formatDateBy] at h
  split at h
  · exact notFinite_ok.1 h trivial
  · exact notFinite_error h

theorem bounded_extractDateComponent : Function.Bounded ⟨true, some extractDateComponent⟩ := by
  intro name args
  change ¬ NotFinite (dateArgument _ args >>= _)
  rw [notFinite_bind]
  rintro ⟨m, -, h⟩
  obtain ⟨text, -, h⟩ := notFinite_bind.1 h
  split at h
  · exact notFinite_error h
  · dsimp only at h
    split at h
    · rename_i n found
      exact notFinite_ok.1 h (Number.isFinite_ofInt (natAbs_component?_lt found))
    · exact notFinite_error h

theorem bounded_reserved : Function.Bounded ⟨false, none⟩ := fun _ _ => notFinite_error

def aggregation? (name : String) : Option Aggregation :=
  match name with
  | "sum" => some .sum
  | "avg" | "average" => some .average
  | "min" => some .min
  | "max" => some .max
  | "count" => some .count
  | _ => none

/-- The function computes the aggregate of its name, or has finite results only if its name is of none. -/
structure Behaves (name : String) (f : Function) : Prop where
  tallies : ∀ a, aggregation? name = some a → f.Tallies a
  bounded : aggregation? name = none → f.Bounded

theorem behaves_of_tallies {name : String} {f : Function} {a : Aggregation} (h : f.Tallies a)
    (known : aggregation? name = some a) : Behaves name f := by
  refine ⟨fun b hb => ?_, fun none => ?_⟩
  · rw [known, Option.some_inj] at hb
    exact hb ▸ h
  · rw [known] at none
    cases none

theorem behaves_of_bounded {name : String} {f : Function} (h : f.Bounded)
    (unknown : aggregation? name = none) : Behaves name f := by
  refine ⟨fun b hb => ?_, fun _ => h⟩
  rw [unknown] at hb
  cases hb

end Builtin

namespace Library

open Builtin (Behaves aggregation?)

def Behaved (lib : Library) : Prop := ∀ name f, lib.functions[name]? = some f → Behaves name f

theorem Behaved.put {lib : Library} (h : lib.Behaved) {name : String} {f : Function}
    (own : Behaves (Text.lowercase name) f) : (lib.put name f).Behaved := by
  intro key g found
  rw [Library.put, Std.ExtTreeMap.getElem?_insert] at found
  split at found
  · rename_i same
    cases found
    exact Std.LawfulEqCmp.eq_of_compare same ▸ own
  · exact h key g found

theorem Behaved.reserve {lib : Library} (h : lib.Behaved) {names : List String}
    (unknown : ∀ name ∈ names, aggregation? (Text.lowercase name) = none) :
    (names.foldl Library.reserve lib).Behaved := by
  induction names generalizing lib with
  | nil => exact h
  | cons name names ih =>
    rw [List.forall_mem_cons] at unknown
    exact ih (h.put (Builtin.behaves_of_bounded Builtin.bounded_reserved unknown.1)) unknown.2

theorem behaved_standard : standard.Behaved := by
  have empty : Library.empty.Behaved := by
    intro name f found
    cases found
  exact empty
    |>.put (Builtin.behaves_of_tallies Builtin.tallies_sum (by decide +kernel))
    |>.put (Builtin.behaves_of_tallies Builtin.tallies_average (by decide +kernel))
    |>.put (Builtin.behaves_of_tallies Builtin.tallies_average (by decide +kernel))
    |>.put (Builtin.behaves_of_tallies Builtin.tallies_min (by decide +kernel))
    |>.put (Builtin.behaves_of_tallies Builtin.tallies_max (by decide +kernel))
    |>.put (Builtin.behaves_of_tallies Builtin.tallies_count (by decide +kernel))
    |>.put (Builtin.behaves_of_bounded (Builtin.bounded_formatDate _) (by decide +kernel))
    |>.put (Builtin.behaves_of_bounded Builtin.bounded_extractDateComponent (by decide +kernel))
    |>.reserve (by decide +kernel)

theorem isSome_get?_standard {name : String} {a : Aggregation} (h : aggregation? name = some a) :
    (standard.functions[name]?).isSome = true := by
  unfold aggregation? at h
  split at h <;> cases h <;> decide +kernel

end Library

end DerivedColumns
