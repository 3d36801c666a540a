import DerivedColumns.FormulaFile
import Mathlib

set_option autoImplicit false

namespace DerivedColumns

open Text (isBlank trim trimStart trimEnd)

/-! ### Trimming -/

namespace Text

def Blank (s : List Char) : Prop := ∀ c ∈ s, isBlank c = true

structure Trimmed (s : List Char) : Prop where
  some : s ≠ []
  head : ∀ c ∈ s.head?, isBlank c = false
  last : ∀ c ∈ s.getLast?, isBlank c = false

instance (s : List Char) : Decidable (Blank s) :=
  decidable_of_iff (s.all isBlank = true) List.all_eq_true

instance (s : List Char) : Decidable (Trimmed s) :=
  decidable_of_iff (s ≠ [] ∧ s.head?.any isBlank = false ∧ s.getLast?.any isBlank = false)
    ⟨fun ⟨nonempty, head, last⟩ =>
        ⟨nonempty, fun c => (Option.any_eq_false _ _).1 head c, fun c => (Option.any_eq_false _ _).1 last c⟩,
      fun h => ⟨h.some, (Option.any_eq_false _ _).2 h.head, (Option.any_eq_false _ _).2 h.last⟩⟩

variable {g g' s : List Char} {c : Char}

theorem Blank.append (hg : Blank g) (hg' : Blank g') : Blank (g ++ g') :=
  fun c hc => (List.mem_append.1 hc).elim (hg c) (hg' c)

theorem dropWhile_isBlank (hg : Blank g) (hs : ∀ c ∈ s.head?, isBlank c = false) :
    (g ++ s).dropWhile isBlank = s := by
  rw [List.dropWhile_append_of_pos hg]
  cases s with
  | nil => rfl
  | cons c s => rw [List.dropWhile_cons, hs c rfl, if_neg Bool.false_ne_true]

theorem trim_append (hg : Blank g) (hs : Trimmed s) (hg' : Blank g') : trim (g ++ (s ++ g')) = s := by
  have start : trimStart (g ++ (s ++ g')) = s ++ g' := by
    refine dropWhile_isBlank hg fun c hc => hs.head c ?_
    rwa [List.head?_append_of_ne_nil s hs.some] at hc
  have reversed : Blank g'.reverse := fun c hc => hg' c (List.mem_reverse.1 hc)
  rw [trim, start, trimEnd, List.reverse_append, dropWhile_isBlank reversed, List.reverse_reverse]
  intro c hc
  rw [List.head?_reverse] at hc
  exact hs.last c hc

theorem trim_of_plain (hg : Blank g) (hc : isBlank c = false) (s : List Char) :
    trim (g ++ c :: s) = c :: trimEnd s := by
  rw [trim, trimStart, dropWhile_isBlank hg fun d hd => by cases hd; exact hc, trimEnd, trimEnd,
    List.reverse_cons, List.dropWhile_append]
  split
  · rename_i none
    rw [List.isEmpty_iff.1 none, List.dropWhile_cons, hc]
    rfl
  · rw [List.reverse_append]
    rfl

theorem blank_or_plain (s : List Char) :
    Blank s ∨ ∃ g c rest, Blank g ∧ isBlank c = false ∧ s = g ++ c :: rest := by
  induction s with
  | nil => exact .inl fun _ h => absurd h List.not_mem_nil
  | cons d s ih =>
    cases hd : isBlank d with
    | false => exact .inr ⟨[], d, s, fun _ h => absurd h List.not_mem_nil, hd, rfl⟩
    | true =>
      rcases ih with blank | ⟨g, c, rest, hg, hc, rfl⟩
      · exact .inl (List.forall_mem_cons.2 ⟨hd, blank⟩)
      · exact .inr ⟨d :: g, c, rest, List.forall_mem_cons.2 ⟨hd, hg⟩, hc, rfl⟩

theorem trim_eq_nil_iff (s : List Char) : trim s = [] ↔ Blank s := by
  constructor
  · intro none
    rcases blank_or_plain s with blank | ⟨g, c, rest, hg, hc, rfl⟩
    · exact blank
    · rw [trim_of_plain hg hc] at none
      cases none
  · intro blank
    rw [trim, trimStart, List.dropWhile_eq_nil_iff.2 blank]
    rfl

end Text

open Text (Blank Trimmed trim_append trim_of_plain blank_or_plain trim_eq_nil_iff)

namespace FormulaFile

/-! ### Lines -/

def IsComment (line : List Char) : Prop := ∃ g rest, Blank g ∧ line = g ++ '#' :: rest

theorem isIdle_iff (line : List Char) : isIdle line = true ↔ Blank line ∨ IsComment line := by
  constructor
  · intro idle
    rcases blank_or_plain line with blank | ⟨g, c, rest, hg, hc, rfl⟩
    · exact .inl blank
    · rw [isIdle, trim_of_plain hg hc] at idle
      exact .inr ⟨g, rest, hg, by rw [of_decide_eq_true idle]⟩
  · rintro (blank | ⟨g, rest, hg, rfl⟩)
    · rw [isIdle, (trim_eq_nil_iff line).2 blank]
    · rw [isIdle, trim_of_plain hg (by decide)]
      rfl

def LacksSide (line : List Char) : Prop :=
  '=' ∉ line ∨ ∃ l r, line = l ++ '=' :: r ∧ '=' ∉ l ∧ (Blank l ∨ Blank r)

/-- A line that says something, and is no definition. -/
structure Faulty (line : List Char) : Prop where
  blank : ¬ Blank line
  comment : ¬ IsComment line
  lacks : LacksSide line

theorem ofLine_split {l : List Char} (h : '=' ∉ l) (r : List Char) :
    FormulaSpec.ofLine (l ++ '=' :: r) =
      if (trim l).isEmpty then .error .missingColumn
      else if (trim r).isEmpty then .error (.missingFormula (String.ofList (trim l)))
      else .ok ⟨String.ofList (trim l), String.ofList (trim r)⟩ := by
  have plain : ∀ c ∈ l, decide (c ≠ '=') = true := fun c hc => decide_eq_true fun e => h (e ▸ hc)
  have taken : (l ++ '=' :: r).takeWhile (· ≠ '=') = l := by
    rw [List.takeWhile_append_of_pos plain, List.takeWhile_cons_of_neg (by decide), List.append_nil]
  have left : (l ++ '=' :: r).dropWhile (· ≠ '=') = '=' :: r := by
    rw [List.dropWhile_append_of_pos plain, List.dropWhile_cons_of_neg (by decide)]
  simp only [FormulaSpec.ofLine, taken, left, List.drop_succ_cons, List.drop_zero]

theorem ofLine_of_not_mem {line : List Char} (h : '=' ∉ line) : ∃ fault, FormulaSpec.ofLine line = .error fault := by
  have plain : ∀ c ∈ line, decide (c ≠ '=') = true := fun c hc => decide_eq_true fun e => h (e ▸ hc)
  have none : trim ((line.dropWhile (· ≠ '=')).drop 1) = [] := by
    rw [List.dropWhile_eq_nil_iff.2 plain]
    rfl
  simp only [FormulaSpec.ofLine, none, List.isEmpty_nil, if_true]
  split <;> exact ⟨_, rfl⟩

theorem split_unique {l r l' r' : List Char} (h : '=' ∉ l) (h' : '=' ∉ l')
    (same : l ++ '=' :: r = l' ++ '=' :: r') : l = l' ∧ r = r' := by
  rcases List.append_eq_append_iff.1 same with ⟨m, rfl, tail⟩ | ⟨m, rfl, tail⟩
  · cases m with
    | nil => exact ⟨(List.append_nil l).symm, (List.cons.inj tail).2⟩
    | cons c m => exact absurd (by rw [(List.cons.inj tail).1]; simp) h'
  · cases m with
    | nil => exact ⟨List.append_nil l', (List.cons.inj tail).2.symm⟩
    | cons c m => exact absurd (by rw [(List.cons.inj tail).1]; simp) h

theorem ofLine_fails_iff (line : List Char) :
    (∃ fault, FormulaSpec.ofLine line = .error fault) ↔ LacksSide line := by
  by_cases sign : '=' ∈ line
  · obtain ⟨l, r, rfl, hl⟩ := List.eq_append_cons_of_mem sign
    have whole : LacksSide (l ++ '=' :: r) ↔ Blank l ∨ Blank r := by
      refine ⟨fun lacks => ?_, fun side => .inr ⟨l, r, rfl, hl, side⟩⟩
      rcases lacks with no | ⟨l', r', same, hl', side⟩
      · exact absurd sign no
      · obtain ⟨rfl, rfl⟩ := split_unique hl hl' same
        exact side
    rw [whole, ofLine_split hl, ← trim_eq_nil_iff, ← trim_eq_nil_iff, ← List.isEmpty_iff, ← List.isEmpty_iff]
    cases (trim l).isEmpty <;> cases (trim r).isEmpty <;> simp
  · exact iff_of_true (ofLine_of_not_mem sign) (.inl sign)

/-! ### Numbered lines -/

inductive IsLine : Nat → List Char → List Char → Prop
  | last {line : List Char} : '\n' ∉ line → IsLine 1 line line
  | first {line : List Char} (s : List Char) : '\n' ∉ line → IsLine 1 line (line ++ '\n' :: s)
  | later {l line s : List Char} {n : Nat} : '\n' ∉ l → IsLine n line s → IsLine (n + 1) line (l ++ '\n' :: s)

theorem lines_cons_line {line : List Char} (h : '\n' ∉ line) (s : List Char) :
    lines (line ++ '\n' :: s) = line :: lines s := by
  cases line with
  | nil => rw [List.nil_append, lines, if_pos rfl]
  | cons c line =>
    have plain : ∀ d ∈ line, decide (d ≠ '\n') = true :=
      fun d hd => decide_eq_true fun e => h (e ▸ List.mem_cons_of_mem c hd)
    have hc : c ≠ '\n' := fun e => h (e ▸ List.mem_cons_self)
    rw [List.cons_append, lines, if_neg hc, List.takeWhile_append_of_pos plain, List.dropWhile_append_of_pos plain,
      List.takeWhile_cons_of_neg (by decide), List.dropWhile_cons_of_neg (by decide), List.append_nil, List.drop_succ_cons,
      List.drop_zero]

theorem lines_last {line : List Char} (h : '\n' ∉ line) (some : line ≠ []) : lines line = [line] := by
  cases line with
  | nil => exact absurd rfl some
  | cons c line =>
    have plain : ∀ d ∈ line, decide (d ≠ '\n') = true :=
      fun d hd => decide_eq_true fun e => h (e ▸ List.mem_cons_of_mem c hd)
    have hc : c ≠ '\n' := fun e => h (e ▸ List.mem_cons_self)
    rw [lines, if_neg hc, List.takeWhile_eq_self_iff.2 plain, List.dropWhile_eq_nil_iff.2 plain, List.drop_nil, lines]

theorem specsOf_faulty {line : List Char} (faulty : Faulty line) (n : Nat) (more : List (List Char)) :
    ∃ fault, specsOf n (line :: more) = .error ⟨n, fault⟩ := by
  have busy : isIdle line ≠ true := fun idle =>
    ((isIdle_iff line).1 idle).elim faulty.blank faulty.comment
  obtain ⟨fault, failed⟩ := (ofLine_fails_iff line).2 faulty.lacks
  exact ⟨fault, by rw [specsOf, if_neg busy, failed]⟩

theorem specsOf_sound {line : List Char} (sound : ¬ Faulty line) {n : Nat} {more : List (List Char)} {e : LineFault}
    (h : specsOf (n + 1) more = .error e) : specsOf n (line :: more) = .error e := by
  by_cases idle : isIdle line = true
  · rw [specsOf, if_pos idle, h]
  · have said : ¬ LacksSide line := fun lacks => sound
      ⟨fun b => idle ((isIdle_iff line).2 (.inl b)), fun c => idle ((isIdle_iff line).2 (.inr c)), lacks⟩
    cases found : FormulaSpec.ofLine line with
    | error fault => exact absurd ((ofLine_fails_iff line).1 ⟨fault, found⟩) said
    | ok spec =>
      rw [specsOf, if_neg idle, found, h]
      rfl

/-- By induction on the lines before the first faulty one, `k` of which have been read. -/
theorem specsOf_first_faulty {n : Nat} {line s : List Char} (h : IsLine n line s) (faulty : Faulty line)
    (first : ∀ m < n, ∀ l, IsLine m l s → ¬ Faulty l) (k : Nat) :
    ∃ fault, specsOf (k + 1) (lines s) = .error ⟨k + n, fault⟩ := by
  induction h generalizing k with
  | @last line plain =>
    have some : line ≠ [] := fun e => faulty.blank (e ▸ fun _ h => absurd h List.not_mem_nil)
    rw [lines_last plain some]
    exact specsOf_faulty faulty _ _
  | first s plain =>
    rw [lines_cons_line plain]
    exact specsOf_faulty faulty _ _
  | @later l line s n plain at_line ih =>
    obtain ⟨fault, failed⟩ := ih faulty (fun m hm l' hl' => first (m + 1) (by omega) l' (.later plain hl')) (k + 1)
    have positive : 1 ≤ n := by cases at_line <;> omega
    rw [lines_cons_line plain]
    refine ⟨fault, specsOf_sound (first 1 (by omega) l (.first s plain)) ?_⟩
    rw [failed, show k + 1 + n = k + (n + 1) by omega]

/-! ### Written files -/

structure Writable (spec : FormulaSpec) : Prop where
  column : Trimmed spec.column.toList
  formula : Trimmed spec.formula.toList
  column_line : '\n' ∉ spec.column.toList
  formula_line : '\n' ∉ spec.formula.toList
  sign : '=' ∉ spec.column.toList
  hash : spec.column.toList.head? ≠ some '#'

instance (spec : FormulaSpec) : Decidable (Writable spec) :=
  decidable_of_iff (Trimmed spec.column.toList ∧ Trimmed spec.formula.toList ∧ '\n' ∉ spec.column.toList ∧
      '\n' ∉ spec.formula.toList ∧ '=' ∉ spec.column.toList ∧ spec.column.toList.head? ≠ some '#')
    ⟨fun ⟨c, f, cl, fl, s, h⟩ => ⟨c, f, cl, fl, s, h⟩, fun ⟨c, f, cl, fl, s, h⟩ => ⟨c, f, cl, fl, s, h⟩⟩

structure Margin (s : List Char) : Prop where
  blank : Blank s
  line : '\n' ∉ s

instance (s : List Char) : Decidable (Margin s) :=
  decidable_of_iff (Blank s ∧ '\n' ∉ s) ⟨fun ⟨b, l⟩ => ⟨b, l⟩, fun ⟨b, l⟩ => ⟨b, l⟩⟩

/-- A line that writes a pair, with white space around its parts. -/
def Defines (spec : FormulaSpec) (line : List Char) : Prop :=
  ∃ a b c d, Margin a ∧ Margin b ∧ Margin c ∧ Margin d ∧
    line = a ++ (spec.column.toList ++ b) ++ '=' :: (c ++ (spec.formula.toList ++ d))

inductive LineEnd : List Char → List Char → Prop
  | lf (s : List Char) : LineEnd ['\n'] s
  | crlf (s : List Char) : LineEnd ['\r', '\n'] s
  | none : LineEnd [] []

/-- Texts that write the pairs of a list, each on its line, with idle lines anywhere. -/
inductive Writes : List FormulaSpec → List Char → Prop
  | nil : Writes [] []
  | idle {specs : List FormulaSpec} {line ending s : List Char} : '\n' ∉ line → Blank line ∨ IsComment line →
      LineEnd ending s → Writes specs s → Writes specs (line ++ (ending ++ s))
  | define {spec : FormulaSpec} {specs : List FormulaSpec} {line ending s : List Char} : Defines spec line →
      LineEnd ending s → Writes specs s → Writes (spec :: specs) (line ++ (ending ++ s))

theorem specsOf_ended {line ending s : List Char} (plain : '\n' ∉ line) (e : LineEnd ending s) (n : Nat) :
    ∃ margin, Margin margin ∧ specsOf n (lines (line ++ (ending ++ s))) = specsOf n ((line ++ margin) :: lines s) := by
  have empty : Margin [] := by decide
  cases e with
  | lf s => exact ⟨[], empty, by rw [List.cons_append, List.nil_append, lines_cons_line plain, List.append_nil]⟩
  | crlf s =>
    have plain' : '\n' ∉ line ++ ['\r'] := fun h => (List.mem_append.1 h).elim plain (by decide)
    refine ⟨['\r'], by decide, ?_⟩
    rw [← lines_cons_line plain', List.append_assoc]
    rfl
  | none =>
    refine ⟨[], empty, ?_⟩
    rw [List.append_nil, List.append_nil]
    by_cases some : line = []
    · subst some
      have idle : isIdle [] = true := (isIdle_iff []).2 (.inl empty.blank)
      rw [lines, specsOf, specsOf, if_pos idle, specsOf]
    · rw [lines_last plain some, lines]

theorem isIdle_append {line margin : List Char} (h : Blank line ∨ IsComment line) (hm : Margin margin) :
    isIdle (line ++ margin) = true := by
  rw [isIdle_iff]
  rcases h with blank | ⟨g, rest, hg, rfl⟩
  · exact .inl (blank.append hm.blank)
  · exact .inr ⟨g, rest ++ margin, hg, by rw [List.append_assoc, List.cons_append]⟩

variable {spec : FormulaSpec} {specs : List FormulaSpec} {line margin text : List Char}

theorem Defines.append (h : Defines spec line) (hm : Margin margin) : Defines spec (line ++ margin) := by
  obtain ⟨a, b, c, d, ha, hb, hc, hd, rfl⟩ := h
  have more : Margin (d ++ margin) :=
    ⟨hd.blank.append hm.blank, fun h => (List.mem_append.1 h).elim hd.line hm.line⟩
  exact ⟨a, b, c, d ++ margin, ha, hb, hc, more, by simp only [List.append_assoc, List.cons_append]⟩

theorem Defines.no_line_end (h : Defines spec line) (w : Writable spec) : '\n' ∉ line := by
  obtain ⟨a, b, c, d, ha, hb, hc, hd, rfl⟩ := h
  simp only [List.mem_append, List.mem_cons, not_or]
  exact ⟨⟨ha.line, w.column_line, hb.line⟩, by decide, hc.line, w.formula_line, hd.line⟩

theorem Defines.ofLine (h : Defines spec line) (w : Writable spec) : FormulaSpec.ofLine line = .ok spec := by
  obtain ⟨a, b, c, d, ha, hb, hc, hd, rfl⟩ := h
  have margin : ∀ {m : List Char}, Margin m → '=' ∉ m := fun hm h => absurd (hm.blank _ h) (by decide)
  have left : '=' ∉ a ++ (spec.column.toList ++ b) := by
    simp only [List.mem_append, not_or]
    exact ⟨margin ha, w.sign, margin hb⟩
  rw [ofLine_split left, trim_append ha.blank w.column hb.blank, trim_append hc.blank w.formula hd.blank,
    if_neg (fun e => w.column.some (List.isEmpty_iff.1 e)), if_neg (fun e => w.formula.some (List.isEmpty_iff.1 e)),
    String.ofList_toList, String.ofList_toList]

theorem Defines.busy (h : Defines spec line) (w : Writable spec) : ¬ isIdle line = true := by
  obtain ⟨a, b, c, d, ha, hb, hc, hd, rfl⟩ := h
  have head := w.hash
  have plain := w.column.head
  cases column : spec.column.toList with
  | nil => exact absurd column w.column.some
  | cons x column' =>
    rw [column] at head plain
    rw [List.cons_append, List.append_assoc, List.cons_append, isIdle, trim_of_plain ha.blank (plain x rfl)]
    exact fun same => head (congrArg some (of_decide_eq_true same))

theorem specsOf_of_writes (h : Writes specs text) (w : ∀ spec ∈ specs, Writable spec) (n : Nat) :
    specsOf n (lines text) = .ok specs := by
  induction h generalizing n with
  | nil => rw [lines, specsOf]
  | idle plain idle ending _ ih =>
    obtain ⟨margin, hm, split⟩ := specsOf_ended plain ending n
    rw [split, specsOf, if_pos (isIdle_append idle hm), ih w]
  | @define spec specs line _ s defines ending _ ih =>
    have own := w spec List.mem_cons_self
    obtain ⟨margin, hm, split⟩ := specsOf_ended (defines.no_line_end own) ending n
    have whole := defines.append hm
    rw [split, specsOf, if_neg (whole.busy own), whole.ofLine own, ih fun t ht => w t (List.mem_cons_of_mem _ ht)]
    rfl

/-- A file that writes some pairs is read as those pairs, in order. The first line of a file that says something and
lacks a side of its definition is the one that is reported. -/
theorem parse_reads_back (text : String) :
    (∀ specs, (∀ spec ∈ specs, Writable spec) → Writes specs text.toList → parse text = .ok specs) ∧
    ((∃ n line, IsLine n line text.toList ∧ Faulty line) →
      ∃ n line fault, IsLine n line text.toList ∧ Faulty line ∧
        (∀ m < n, ∀ l, IsLine m l text.toList → ¬ Faulty l) ∧ parse text = .error ⟨n, fault⟩) := by
  classical
  refine ⟨fun specs w h => specsOf_of_writes h w 1, fun some => ?_⟩
  obtain ⟨line, at_line, faulty⟩ := Nat.find_spec some
  have first : ∀ m < Nat.find some, ∀ l, IsLine m l text.toList → ¬ Faulty l :=
    fun m hm l hl bad => Nat.find_min some hm ⟨l, hl, bad⟩
  obtain ⟨fault, failed⟩ := specsOf_first_faulty at_line faulty first 0
  exact ⟨_, line, fault, at_line, faulty, first, by rw [parse, failed, Nat.zero_add]⟩

theorem parse_reads_back_flags :
    parse "# flags\r\n\nflag = a == b // #1\r\n \u2003x=1 <= 2" = .ok [⟨"flag", "a == b // #1"⟩, ⟨"x", "1 <= 2"⟩] ∧
    ∃ n line fault, IsLine n line "x = 1\n\n= 2\ny".toList ∧ Faulty line ∧
      (∀ m < n, ∀ l, IsLine m l "x = 1\n\n= 2\ny".toList → ¬ Faulty l) ∧
      parse "x = 1\n\n= 2\ny" = .error ⟨n, fault⟩ := by
  have writable : ∀ spec ∈ [⟨"flag", "a == b // #1"⟩, ⟨"x", "1 <= 2"⟩], Writable spec := by decide
  have empty : Margin [] := by decide
  have space : Margin [' '] := by decide
  have wide : Margin [' ', '\u2003'] := by decide
  have last : Writes [⟨"x", "1 <= 2"⟩] _ :=
    .define ⟨_, _, _, _, wide, empty, empty, empty, rfl⟩ .none .nil
  have flag : Writes [⟨"flag", "a == b // #1"⟩, ⟨"x", "1 <= 2"⟩] _ :=
    .define ⟨_, _, _, _, empty, space, space, empty, rfl⟩ (.crlf _) last
  have skipped : Writes _ ([] ++ (_ ++ _)) := .idle (by decide) (.inl empty.blank) (.lf _) flag
  have comment : Writes _ ("# flags".toList ++ (_ ++ _)) :=
    .idle (by decide) (.inr ⟨[], _, empty.blank, rfl⟩) (.crlf _) skipped
  have faulty : Faulty "= 2".toList :=
    ⟨fun h => absurd (h '=' (by decide)) (by decide),
      fun h => absurd ((isIdle_iff _).2 (.inr h)) (by decide), .inr ⟨[], _, rfl, by decide, .inl empty.blank⟩⟩
  exact ⟨(parse_reads_back _).1 _ writable comment,
    (parse_reads_back _).2 ⟨3, _, .later (l := "x = 1".toList) (by decide) <|
      .later (l := []) (by decide) (.first _ (by decide)), faulty⟩⟩

end FormulaFile

end DerivedColumns
