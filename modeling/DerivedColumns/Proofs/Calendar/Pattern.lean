import DerivedColumns.Function.Builtin
import Mathlib.Data.List.Forall2

set_option autoImplicit false

namespace DerivedColumns.Calendar

open List (Forall₂)

/-- What is assumed of writing a moment by a format: a percent sign that is doubled and every other
character stand for themselves, each field is written, and what stands one after the other is written one
after the other. -/
structure Renders (format? : Moment → List Char → Option (List Char)) : Prop where
  empty : ∀ m, format? m [] = some []
  percent : ∀ m, format? m ['%', '%'] = some ['%']
  plain : ∀ m c, c ≠ '%' → format? m [c] = some [c]
  field : ∀ m (f : Field), ∃ text, format? m ('%' :: f.code) = some text
  append : ∀ m (d : Directive) rest, format? m (d.code ++ rest) =
    (format? m d.code).bind fun text => (format? m rest).map (text ++ ·)

inductive Piece where
  | quoted (text : List Char)
  | run (c : Char) (n : Nat)
deriving DecidableEq

def Piece.directives : Piece → List Directive
  | .quoted text => text.map .literal
  | .run c n =>
    match Field.ofRun? c n with
    | some f => [.field f]
    | none => List.replicate n (.literal c)

inductive Piece.Writes (format? : Moment → List Char → Option (List Char)) (m : Moment) :
    Piece → List Char → Prop where
  | quoted (text : List Char) : Writes format? m (.quoted text) text
  | copied {c : Char} {n : Nat} (other : Field.ofRun? c n = none) :
    Writes format? m (.run c n) (List.replicate n c)
  | field {c : Char} {n : Nat} {f : Field} {text : List Char} (named : Field.ofRun? c n = some f)
    (own : format? m ('%' :: f.code) = some text) : Writes format? m (.run c n) text

/-- A pattern and its pieces. A quoted stretch goes to the next quote or, without one, to the end; a run
goes as far as the character is repeated. -/
inductive Cuts : List Char → List Piece → Prop where
  | nil : Cuts [] []
  | quoted {text rest : List Char} {cut : List Piece} (inner : '\'' ∉ text) (more : Cuts rest cut) :
    Cuts ('\'' :: (text ++ '\'' :: rest)) (.quoted text :: cut)
  | unclosed {text : List Char} (inner : '\'' ∉ text) : Cuts ('\'' :: text) [.quoted text]
  | run {c : Char} {n : Nat} {rest : List Char} {cut : List Piece} (letter : c ≠ '\'') (pos : 0 < n)
    (maximal : rest.head? ≠ some c) (more : Cuts rest cut) :
    Cuts (List.replicate n c ++ rest) (.run c n :: cut)

theorem quoted_inj {text text' rest rest' : List Char} (inner : '\'' ∉ text) (inner' : '\'' ∉ text')
    (same : text ++ '\'' :: rest = text' ++ '\'' :: rest') : text = text' ∧ rest = rest' := by
  induction text generalizing text' with
  | nil =>
    cases text' with
    | nil => exact ⟨rfl, (List.cons.inj same).2⟩
    | cons c text' => exact (inner' ((List.cons.inj same).1 ▸ List.mem_cons_self)).elim
  | cons c text ih =>
    cases text' with
    | nil => exact (inner ((List.cons.inj same).1 ▸ List.mem_cons_self)).elim
    | cons c' text' =>
      obtain ⟨rfl, tails⟩ := List.cons.inj same
      obtain ⟨rfl, rfl⟩ :=
        ih (List.not_mem_of_not_mem_cons inner) (List.not_mem_of_not_mem_cons inner') tails
      exact ⟨rfl, rfl⟩

theorem run_inj {c : Char} {n k : Nat} {rest rest' : List Char} (maximal : rest.head? ≠ some c)
    (maximal' : rest'.head? ≠ some c)
    (same : List.replicate n c ++ rest = List.replicate k c ++ rest') : n = k ∧ rest = rest' := by
  induction n generalizing k with
  | zero =>
    cases k with
    | zero => exact ⟨rfl, same⟩
    | succ k => exact (maximal (by rw [show rest = _ from same]; rfl)).elim
  | succ n ih =>
    cases k with
    | zero => exact (maximal' (by rw [show rest' = _ from same.symm]; rfl)).elim
    | succ k =>
      obtain ⟨rfl, rfl⟩ := ih (List.cons.inj same).2
      exact ⟨rfl, rfl⟩

theorem head_run {c : Char} {n : Nat} (pos : 0 < n) (rest : List Char) :
    (List.replicate n c ++ rest).head? = some c := by
  cases n with
  | zero => exact (Nat.lt_irrefl 0 pos).elim
  | succ n => rfl

theorem Cuts.of_nil {cut : List Piece} (h : Cuts [] cut) : cut = [] := by
  generalize empty : ([] : List Char) = s at h
  cases h with
  | nil => rfl
  | quoted => cases empty
  | unclosed => cases empty
  | run _ pos =>
    have head := congrArg List.head? empty
    rw [head_run pos] at head
    cases head

theorem Cuts.of_quote {s : List Char} {cut : List Piece} (h : Cuts ('\'' :: s) cut) :
    (∃ text rest more, '\'' ∉ text ∧ s = text ++ '\'' :: rest ∧ Cuts rest more ∧
      cut = .quoted text :: more) ∨ '\'' ∉ s ∧ cut = [.quoted s] := by
  generalize same : '\'' :: s = whole at h
  cases h with
  | nil => cases same
  | quoted inner more => exact .inl ⟨_, _, _, inner, (List.cons.inj same).2, more, rfl⟩
  | unclosed inner =>
    obtain rfl := (List.cons.inj same).2
    exact .inr ⟨inner, rfl⟩
  | run letter pos =>
    have head := congrArg List.head? same
    rw [head_run pos] at head
    exact (letter (Option.some.inj head).symm).elim

theorem Cuts.of_run {c : Char} {n : Nat} {rest : List Char} {cut : List Piece} (letter : c ≠ '\'')
    (pos : 0 < n) (maximal : rest.head? ≠ some c) (h : Cuts (List.replicate n c ++ rest) cut) :
    ∃ more, Cuts rest more ∧ cut = .run c n :: more := by
  generalize same : List.replicate n c ++ rest = whole at h
  have head := congrArg List.head? same
  rw [head_run pos] at head
  cases h with
  | nil => cases head
  | quoted => exact (letter (Option.some.inj head)).elim
  | unclosed => exact (letter (Option.some.inj head)).elim
  | run letter' pos' maximal' more =>
    rw [head_run pos'] at head
    obtain rfl := Option.some.inj head
    obtain ⟨rfl, rfl⟩ := run_inj maximal maximal' same
    exact ⟨_, more, rfl⟩

theorem Cuts.unique {s : List Char} {cut other : List Piece} (h : Cuts s cut) (h' : Cuts s other) :
    other = cut := by
  induction h generalizing other with
  | nil => exact h'.of_nil
  | @quoted text rest cut inner more ih =>
    rcases h'.of_quote with ⟨text', rest', more', inner', same, again, rfl⟩ | ⟨inner', -⟩
    · obtain ⟨rfl, rfl⟩ := quoted_inj inner inner' same
      rw [ih again]
    · exact (inner' (List.mem_append_right text List.mem_cons_self)).elim
  | unclosed inner =>
    rcases h'.of_quote with ⟨text', rest', -, -, rfl, -⟩ | ⟨-, rfl⟩
    · exact (inner (List.mem_append_right text' List.mem_cons_self)).elim
    · rfl
  | run letter pos maximal more ih =>
    obtain ⟨more', again, rfl⟩ := h'.of_run letter pos maximal
    rw [ih again]

theorem quote_eq (text : List Char) :
    quote text = (text.map Directive.literal).flatMap Directive.code := by
  rw [List.flatMap_map, quote]

theorem runCode_eq (c : Char) (n : Nat) :
    runCode c n = (Piece.run c n).directives.flatMap Directive.code := by
  rw [runCode, Piece.directives]
  cases Field.ofRun? c n with
  | some f => exact (List.append_nil _).symm
  | none => exact (quote_eq _).trans (by rw [List.map_replicate])

theorem run_takeWhile (c : Char) (s : List Char) :
    c :: s = List.replicate ((s.takeWhile (· = c)).length + 1) c ++ s.dropWhile (· = c) := by
  have all : s.takeWhile (· = c) = List.replicate (s.takeWhile (· = c)).length c := by
    rw [List.eq_replicate_iff]
    exact ⟨rfl, fun b hb => of_decide_eq_true (List.all_eq_true.1 List.all_takeWhile b hb)⟩
  rw [List.replicate_succ, List.cons_append, ← all, List.takeWhile_append_dropWhile]

theorem head?_dropWhile_ne (c : Char) (s : List Char) : (s.dropWhile (· = c)).head? ≠ some c := by
  intro head
  have := List.head?_dropWhile_not (· = c) s
  rw [head] at this
  simp at this

theorem cuts_takeWhile {s : List Char} {cut : List Piece}
    (more : Cuts ((s.dropWhile (· ≠ '\'')).drop 1) cut) :
    Cuts ('\'' :: s) (.quoted (s.takeWhile (· ≠ '\'')) :: cut) := by
  have inner : '\'' ∉ s.takeWhile (· ≠ '\'') := fun h => by
    simpa using List.all_eq_true.1 List.all_takeWhile _ h
  have whole := List.takeWhile_append_dropWhile (p := (· ≠ '\'')) (l := s)
  have next := List.head?_dropWhile_not (· ≠ '\'') s
  cases after : s.dropWhile (· ≠ '\'') with
  | nil =>
    rw [after, List.append_nil] at whole
    rw [after] at more
    rw [more.of_nil, whole]
    exact .unclosed (whole ▸ inner)
  | cons q rest =>
    rw [after] at whole next more
    obtain rfl : q = '\'' := by simpa using next
    have closed := Cuts.quoted inner more
    rwa [List.drop_one, List.tail_cons, whole] at closed

/-- A pattern is cut into pieces, and translated into what they become. -/
theorem exists_cuts (s : List Char) : ∃ cut, Cuts s cut ∧
    translate s = (cut.flatMap Piece.directives).flatMap Directive.code := by
  induction s using translate.induct with
  | case1 => exact ⟨[], .nil, translate.eq_1⟩
  | case2 s ih =>
    obtain ⟨cut, cuts, ih⟩ := ih
    refine ⟨_, cuts_takeWhile cuts, ?_⟩
    rw [translate, if_pos rfl, List.flatMap_cons, List.flatMap_append, ih, Piece.directives, quote_eq]
  | case3 c s letter ih =>
    obtain ⟨cut, cuts, ih⟩ := ih
    refine ⟨.run c ((s.takeWhile (· = c)).length + 1) :: cut, ?_, ?_⟩
    · rw [run_takeWhile c s]
      exact .run letter (Nat.succ_pos _) (head?_dropWhile_ne c s) cuts
    · rw [translate, if_neg letter, List.flatMap_cons, List.flatMap_append, runCode_eq, ih]

theorem ofRun?_eq_none_iff (c : Char) (n : Nat) : Field.ofRun? c n = none ↔
    c ∉ ['y', 'Y', 'M', 'd', 'D', 'E', 'H', 'h', 'm', 's', 'a', 'A'] ∨ (c = 'd' ∨ c = 'D') ∧ 3 ≤ n := by
  simp only [Field.ofRun?, List.mem_cons, List.not_mem_nil, or_false, not_or]
  grind

section Renders

variable {format? : Moment → List Char → Option (List Char)}

theorem Renders.literal (renders : Renders format?) (m : Moment) (c : Char) :
    format? m (Directive.literal c).code = some [c] := by
  rw [Directive.code]
  split
  · rename_i percent
    rw [renders.percent, percent]
  · rename_i plain
    exact renders.plain m c plain

theorem Renders.literals (renders : Renders format?) (m : Moment) (text rest : List Char) :
    format? m ((text.map Directive.literal).flatMap Directive.code ++ rest) =
      (format? m rest).map (text ++ ·) := by
  induction text with
  | nil => exact Option.map_id'.symm
  | cons c text ih =>
    rw [List.map_cons, List.flatMap_cons, List.append_assoc, renders.append, renders.literal, ih,
      Option.bind_some, Option.map_map]
    rfl

/-- A piece is written in front of whatever follows. -/
theorem Renders.piece (renders : Renders format?) {m : Moment} {p : Piece} {text : List Char}
    (h : p.Writes format? m text) (rest : List Char) :
    format? m (p.directives.flatMap Directive.code ++ rest) = (format? m rest).map (text ++ ·) := by
  cases h with
  | quoted => exact renders.literals m text rest
  | copied other =>
    rw [Piece.directives, other]
    dsimp only
    rw [← List.map_replicate]
    exact renders.literals m _ rest
  | @field c n f text named own =>
    have code : (Directive.field f).code = '%' :: f.code := rfl
    rw [Piece.directives, named]
    dsimp only
    rw [List.flatMap_singleton, renders.append, code, own, Option.bind_some]

theorem Renders.exists_writes (renders : Renders format?) (m : Moment) (p : Piece) :
    ∃ text, p.Writes format? m text := by
  cases p with
  | quoted text => exact ⟨text, .quoted text⟩
  | run c n =>
    cases named : Field.ofRun? c n with
    | none => exact ⟨_, .copied named⟩
    | some f =>
      obtain ⟨text, own⟩ := renders.field m f
      exact ⟨text, .field named own⟩

theorem Renders.pieces (renders : Renders format?) (m : Moment) (cut : List Piece) :
    ∃ texts, Forall₂ (Piece.Writes format? m) cut texts ∧
      format? m ((cut.flatMap Piece.directives).flatMap Directive.code) = some texts.flatten := by
  induction cut with
  | nil => exact ⟨[], .nil, renders.empty m⟩
  | cons p cut ih =>
    obtain ⟨texts, writes, written⟩ := ih
    obtain ⟨text, own⟩ := renders.exists_writes m p
    refine ⟨text :: texts, .cons own writes, ?_⟩
    rw [List.flatMap_cons, List.flatMap_append, renders.piece own, written]
    rfl

end Renders

/-- A pattern does not fail. It is cut into quoted stretches and longest runs in just one way; the format
for it is spelled by directives, and the text of the moment is that of the pieces, one after the other:
the quoted stretches as they are, a field for each run that names one, and all other runs as they are,
which are those of other characters and of three or more letters of the day. -/
theorem formatDate_piecewise {format? : Moment → List Char → Option (List Char)} (renders : Renders format?)
    (m : Moment) (pattern : String) (more : List Value) :
    ∃ cut texts, (∀ other, Cuts pattern.toList other ↔ other = cut) ∧
      translate pattern.toList = (cut.flatMap Piece.directives).flatMap Directive.code ∧
      Forall₂ (Piece.Writes format? m) cut texts ∧
      Builtin.formatDate format? (.date m :: .text pattern :: more) =
        .ok (.text (String.ofList texts.flatten)) ∧
      ∀ c n, Field.ofRun? c n = none ↔
        c ∉ ['y', 'Y', 'M', 'd', 'D', 'E', 'H', 'h', 'm', 's', 'a', 'A'] ∨
          (c = 'd' ∨ c = 'D') ∧ 3 ≤ n := by
  obtain ⟨cut, cuts, translated⟩ := exists_cuts pattern.toList
  obtain ⟨texts, writes, written⟩ := renders.pieces m cut
  refine ⟨cut, texts, fun other => ⟨fun h => cuts.unique h, fun h => h ▸ cuts⟩, translated, writes, ?_,
    ofRun?_eq_none_iff⟩
  change Builtin.formatDateBy format? m pattern = _
  rw [Builtin.formatDateBy, translated, written]

theorem Field.read?_code (f : Field) (rest : List Char) :
    Field.read? (f.code ++ rest) = some (f, rest) := by
  cases f with
  | month wide | day wide | hour wide | halfDayHour wide | minute wide | second wide =>
    cases wide <;> rfl
  | _ => rfl

theorem Directive.read?_code (d : Directive) (rest : List Char) :
    ∃ c s, d.code ++ rest = c :: s ∧ Directive.read? c s = some (d, rest) := by
  cases d with
  | literal c =>
    by_cases percent : c = '%'
    · subst percent
      exact ⟨'%', '%' :: rest, rfl, rfl⟩
    · refine ⟨c, rest, ?_, if_pos percent⟩
      rw [code, if_neg percent]
      rfl
  | field f =>
    refine ⟨'%', f.code ++ rest, rfl, ?_⟩
    have back := congrArg (Option.map fun read => (Directive.field read.1, read.2)) (f.read?_code rest)
    cases f with
    | month wide | day wide | hour wide | halfDayHour wide | minute wide | second wide =>
      cases wide <;> exact back
    | _ => exact back

theorem format?_code (m : Moment) (d : Directive) (rest : List Char) :
    m.format? (d.code ++ rest) = (m.format? rest).map (d.chars m ++ ·) := by
  obtain ⟨c, s, spelled, read⟩ := d.read?_code rest
  rw [Moment.format?, spelled, directives?]
  split
  · rename_i d' rest' again
    rw [read] at again
    cases again
    rw [Moment.format?, Option.map_map, Option.map_map]
    rfl
  · rename_i unread
    rw [read] at unread
    cases unread

theorem format?_nil (m : Moment) : m.format? [] = some [] := by
  rw [Moment.format?, directives?]
  rfl

theorem format?_single (m : Moment) (d : Directive) : m.format? d.code = some (d.chars m) := by
  have own := format?_code m d []
  rwa [List.append_nil, format?_nil, Option.map_some, List.append_nil] at own

theorem renders_format? : Renders Moment.format? where
  empty := format?_nil
  percent m := format?_single m (.literal '%')
  plain m c plain := by
    have own := format?_single m (.literal c)
    rwa [Directive.code, if_neg plain] at own
  field m f := ⟨_, format?_single m (.field f)⟩
  append m d rest := by rw [format?_code, format?_single, Option.bind_some]

def saturday : Moment := ⟨⟨2024, 3, 9, by decide, by decide, by decide⟩,
  ⟨15, 1, 7, 5, by decide, by decide, by decide, by decide⟩⟩

theorem formatDate_piecewise_saturday : Renders Moment.format? ∧
    ∃ cut texts, Cuts "'100%' EEE%dd, h:mm".toList cut ∧
      Forall₂ (Piece.Writes Moment.format? saturday) cut texts ∧
      Builtin.formatDate Moment.format? [.date saturday, .text "'100%' EEE%dd, h:mm"] =
        .ok (.text (String.ofList texts.flatten)) ∧
      String.ofList texts.flatten = "100% Sat%09, 3:01" := by
  obtain ⟨cut, texts, only, translated, writes, result, -⟩ :=
    formatDate_piecewise renders_format? saturday "'100%' EEE%dd, h:mm" []
  have text : saturday.format? (translate "'100%' EEE%dd, h:mm".toList) =
      some "100% Sat%09, 3:01".toList := by cbv
  refine ⟨renders_format?, cut, texts, (only cut).2 rfl, writes, result, ?_⟩
  change Builtin.formatDateBy Moment.format? saturday "'100%' EEE%dd, h:mm" = _ at result
  rw [Builtin.formatDateBy, text] at result
  exact (Value.text.inj (Except.ok.inj result)).symm

example : translate "'100%' dd%d, ''yyyy'M".toList = "100%% %d%%%-d, %YM".toList := by cbv

end DerivedColumns.Calendar
