import DerivedColumns.Proofs.Formula.Legible
import DerivedColumns.Proofs.Service.Failure
import DerivedColumns.Proofs.Sheet.Formulas

set_option autoImplicit false

/-!
Clients are told the text of each formula. It denotes the formula that is kept as long as every column that
a formula reads has a name that can be written, and only renaming a column that is read can end that.
-/

namespace DerivedColumns

open Formula (Writable Denotes RefusedTooDeep)

namespace Sheet

variable {s : Sheet} {column : String} {p : Patch}

def Legible (s : Sheet) : Prop := s.EveryFormula fun f => ∀ y ∈ f.reads, Writable y

theorem legible_iff (s : Sheet) : s.Legible ↔ ∀ x y, s.Reads x y → Writable y := by
  constructor
  · rintro h x y ⟨c, hc, hy⟩
    exact h x c hc y hy
  · intro h x c hc y hy
    exact h x y ⟨c, hc, hy⟩

/-- The patch gives a name that cannot be written to a column that a formula reads and goes on reading. -/
def Garbles (s : Sheet) (column : String) (p : Patch) : Prop :=
  (∃ new ∈ newName? column p, ¬ Writable new) ∧
    ∃ x, s.Reads x column ∧ (x = column → p.formula = none)

theorem legible_update_iff (legible : s.Legible) (hp : ∀ f ∈ p.formula, ∀ y ∈ f.reads, Writable y)
    (ok : (s.update column p).1 = .ok ()) : (s.update column p).2.Legible ↔ ¬ s.Garbles column p := by
  rcases update_cases s column p with ⟨e, he⟩ | ⟨c, editable, -, he⟩
  · rw [he] at ok
    cases ok
  · have drops := drops_uncacheCascades (s.edited column p c) (s.seeds column p c)
    rw [legible_iff] at legible ⊢
    rw [he]
    simp only [drops.reads, reads_edited editable]
    constructor
    · rintro after ⟨⟨new, hnew, unwritable⟩, x, reads, kept⟩
      have moved := after (Formula.substitute column (target column p) x) new
      rw [if_neg] at moved
      · have named := ((newName?_eq_some_iff column new p).1 hnew).1
        exact unwritable (moved ⟨x, column, rfl, (if_pos rfl).trans named, reads⟩)
      · rintro ⟨e, replaced⟩
        rw [kept (editable.eq_column reads.mem_keys e)] at replaced
        cases replaced
    · intro spared x y reads
      split at reads
      · obtain ⟨f, hf, hy⟩ := reads
        exact hp f hf y hy
      · rename_i kept
        obtain ⟨a, b, rfl, rfl, reads⟩ := reads
        by_cases hb : b = column
        · subst hb
          rw [Formula.substitute, if_pos rfl]
          rcases newName?_cases b p with ⟨-, ht⟩ | ⟨new, hn, ht, -⟩
          · rw [ht]
            exact legible a b reads
          · rw [ht]
            by_contra unwritable
            refine spared ⟨⟨new, hn, unwritable⟩, a, reads, fun ha => ?_⟩
            rw [ha, Formula.substitute, if_pos rfl, Option.isSome_iff_ne_none] at kept
            by_contra replaced
            exact kept ⟨rfl, replaced⟩
        · rw [Formula.substitute, if_neg hb]
          exact legible a b reads

end Sheet

namespace Service

variable {v : Service}

/-- A successful update that gives a name that cannot be written to a column that a formula reads and goes
on reading. -/
def Garbles (v : Service) : Command → Prop
  | .update column changes => (∃ view, (v.update column changes).1 = .ok view) ∧
      (∃ new ∈ changes.column, new ≠ column ∧ ¬ Writable new) ∧
      ∃ x, v.sheet.Reads x column ∧ (x = column → changes.formula = none)
  | _ => False

theorem garbles_update_iff {column : String} {changes : CalculationUpdate} {view : CalculationView}
    {p : Patch} (ok : (v.update column changes).1 = .ok view) (read : PatchOf changes p) :
    v.Garbles (.update column changes) ↔ v.sheet.Garbles column p := by
  have named : ∀ new, new ∈ Sheet.newName? column p ↔ new ∈ changes.column ∧ new ≠ column := by
    intro new
    rw [Sheet.newName?, Option.mem_def, Option.filter_eq_some_iff, read.column, bne_iff_ne]
    rfl
  constructor
  · rintro ⟨-, ⟨new, hnew, hne, unwritable⟩, x, reads, kept⟩
    exact ⟨⟨new, (named new).2 ⟨hnew, hne⟩, unwritable⟩, x, reads, fun e => read.formula.2 (kept e)⟩
  · rintro ⟨⟨new, hnew, unwritable⟩, x, reads, kept⟩
    obtain ⟨given, hne⟩ := (named new).1 hnew
    exact ⟨⟨view, ok⟩, ⟨new, given, hne, unwritable⟩, x, reads, fun e => read.formula.1 (kept e)⟩

theorem not_garbles_of_error {command : Command} {f : Failure}
    (failed : (v.obey command).1 = .error f) : ¬ v.Garbles command := by
  cases command with
  | update column changes =>
    rintro ⟨⟨view, ok⟩, -⟩
    rw [(quiet_eq_error_iff _ f).1 failed] at ok
    cases ok
  | _ => exact id

/-- From a legible state one kind of command leads to one that is not legible. -/
theorem legible_obey_iff (linked : v.sheet.Linked) (legible : v.sheet.Legible) (command : Command) :
    (v.obey command).2.sheet.Legible ↔ ¬ v.Garbles command := by
  cases answer : (v.obey command).1 with
  | error f =>
    rw [(untouched_obey linked command answer).sheet]
    exact iff_of_true legible (not_garbles_of_error answer)
  | ok _ =>
    cases command with
    | add request =>
      refine iff_of_true ?_ id
      rcases v.sheet_add request with e | ⟨f, parsed, e⟩
      · exact legible.of_eq (congrArg Sheet.calculations e)
      · exact (legible.add request.column (Formula.writable_of_parse parsed)).of_eq
          (congrArg Sheet.calculations e)
    | update column changes =>
      obtain ⟨view, ok⟩ := exists_ok_of_quiet answer
      obtain ⟨p, read, updated, whole⟩ := update_eq_ok ok
      have writable : ∀ f ∈ p.formula, ∀ y ∈ f.reads, Writable y := by
        intro f hf
        obtain ⟨text, parsed⟩ := read.parsed f hf
        exact Formula.writable_of_parse parsed
      have sheet : (v.obey (.update column changes)).2.sheet = (v.sheet.update column p).2 := by
        change (v.update column changes).2.sheet = _
        rw [whole, sheet_notify]
      rw [sheet, garbles_update_iff ok read]
      exact Sheet.legible_update_iff legible writable updated
    | remove column =>
      exact iff_of_true ((legible.remove column).of_eq (congrArg Sheet.calculations (v.sheet_remove column))) id
    | executeAll =>
      exact iff_of_true ((legible.execute _).of_eq (congrArg Sheet.calculations (v.sheet_executed _))) id
    | refresh =>
      exact iff_of_true ((legible.execute _).of_eq (congrArg Sheet.calculations (v.sheet_executed _))) id
    | replaceSource source =>
      have same : (v.sheet.setSource source).Legible := legible
      exact iff_of_true ((same.execute _).of_eq (congrArg Sheet.calculations (v.sheet_executed _))) id

/-- The text that is reported of every calculation denotes the formula that is kept of it. -/
def Tells (v : Service) : Prop :=
  ∀ view ∈ v.calculations, ∃ c, v.sheet.calculations.get? view.column = some c ∧
    Denotes view.formula c.formula

theorem exists_reported {view : CalculationView} (h : view ∈ v.calculations) :
    ∃ c, v.sheet.calculations.get? view.column = some c ∧ view.formula = c.formula.text := by
  obtain ⟨⟨column, c⟩, he, rfl⟩ := List.mem_map.1 h
  exact ⟨c, (Keyed.get?_eq_some_iff _ column c).2 he, rfl⟩

theorem plain_follow (source : Dataset) (library : Library) (commands : List Command) :
    ((ofSheet (.ofSource source library)).follow commands).sheet.EveryFormula
      (Formula.BuiltFrom Atom.Plain) := by
  refine follow_of_obey (P := fun v => v.sheet.EveryFormula (Formula.BuiltFrom Atom.Plain)) ?_
    (Sheet.EveryFormula.ofSource source library) commands
  intro v command h
  obtain ⟨ops, e, entered⟩ := v.obey_operations command
  have plain : ∀ f : Formula, f.Parsed → f.BuiltFrom Atom.Plain := fun _ h => by
    obtain ⟨text, read⟩ := h
    exact Formula.plain_of_parse read
  rw [e]
  exact h.after (fun f old new => Formula.builtFrom_rename old new f) fun op hop => (entered op hop).mono plain

/-- In every session from a service without calculations: what is reported of a calculation denotes its
formula exactly if the formula reads only names that can be written, or else is too deep to be read. That
all formulas read such names is ended by a successful update only, which gives another name to a column that
is read; without such an update all that is reported denotes the formulas. Requests are such commands. -/
theorem reported_denote_iff (source : Dataset) (library : Library) (commands : List Command) :
    let start := ofSheet (.ofSource source library)
    let v := start.follow commands
    (∀ view ∈ v.calculations, ∃ c, v.sheet.calculations.get? view.column = some c ∧
      (Denotes view.formula c.formula ↔
        (∀ y ∈ c.formula.reads, Writable y) ∨ RefusedTooDeep view.formula)) ∧
    (v.sheet.Legible → ∀ command, (v.obey command).2.sheet.Legible ↔ ¬ v.Garbles command) ∧
    (start.Allows (fun w command => ¬ w.Garbles command) commands → v.Tells) ∧
    ∀ r, v.Obeys (v.respond r) := by
  intro start v
  have linkedStart : start.sheet.Linked := Sheet.Linked.ofSource source library
  have linked : v.sheet.Linked :=
    follow_of_obey (P := fun w => w.sheet.Linked) (fun _ command h => linked_obey h command)
      linkedStart commands
  have denote : ∀ view ∈ v.calculations, ∃ c, v.sheet.calculations.get? view.column = some c ∧
      (Denotes view.formula c.formula ↔
        (∀ y ∈ c.formula.reads, Writable y) ∨ RefusedTooDeep view.formula) := by
    intro view hview
    obtain ⟨c, hc, text⟩ := exists_reported hview
    rw [text]
    exact ⟨c, hc, Formula.denotes_text_iff (plain_follow source library commands _ c hc)⟩
  refine ⟨denote, legible_obey_iff linked, fun allowed view hview => ?_, v.obeys_respond⟩
  have legible : v.sheet.Legible :=
    (Allows.follow (P := fun w => w.sheet.Linked ∧ w.sheet.Legible)
      (fun _ command spared h => ⟨linked_obey h.1 command, (legible_obey_iff h.1 h.2 command).2 spared⟩)
      ⟨linkedStart, Sheet.EveryFormula.ofSource source library⟩ allowed).2
  obtain ⟨c, hc, iff⟩ := denote view hview
  exact ⟨c, hc, iff.2 (.inl (legible _ c hc))⟩

def reworded : List Command :=
  [.add ⟨none, "a", "1", true⟩, .add ⟨none, "b", "a + 1", true⟩,
    .update "a" ⟨none, some "c", none, none⟩]

set_option maxRecDepth 10000 in
theorem reported_denote_iff_reworded :
    let start := ofSheet (.ofSource .empty .standard)
    start.Allows (fun w command => ¬ w.Garbles command) reworded ∧
      (start.follow reworded).calculations.map (·.formula) = ["1", "c + 1"] ∧
      (start.follow reworded).Tells := by
  intro start
  have allowed : start.Allows (fun w command => ¬ w.Garbles command) reworded := by
    refine ⟨id, id, ?_, trivial⟩
    rintro ⟨-, ⟨new, given, -, unwritable⟩, -⟩
    obtain rfl := Option.some.inj given
    exact unwritable (by decide)
  exact ⟨allowed, by decide +kernel, (reported_denote_iff .empty .standard reworded).2.2.1 allowed⟩

def subtracted : List Command :=
  [.add ⟨none, "a", "1", true⟩, .add ⟨none, "b", "a + 1", true⟩,
    .update "a" ⟨none, some "x - y", none, none⟩]

set_option maxRecDepth 10000 in
/-- The formula of b reads a column x - y, and its text is read as one that reads columns x and y. -/
theorem not_tells_subtracted :
    ¬ ((ofSheet (.ofSource .empty .standard)).follow subtracted).Tells := by
  intro tells
  let v := (ofSheet (.ofSource .empty .standard)).follow subtracted
  have reported : v.calculations.map (fun view => (view.column, view.formula)) =
      [("x - y", "1"), ("b", "x - y + 1")] := by decide +kernel
  have stored : (v.sheet.calculations.get? "b").map (·.formula.reads.toList) = some ["x - y"] := by
    decide +kernel
  have other : (Formula.parse "x - y + 1").toOption.map (·.reads.toList) = some ["x", "y"] := by
    decide +kernel
  have listed : ("b", "x - y + 1") ∈ v.calculations.map fun view => (view.column, view.formula) := by
    rw [reported]
    exact List.mem_cons_of_mem _ List.mem_cons_self
  obtain ⟨view, hview, e⟩ := List.mem_map.1 listed
  obtain ⟨hcolumn, hformula⟩ := Prod.mk.inj e
  obtain ⟨c, hc, denotes⟩ := tells view hview
  rw [hcolumn] at hc
  rw [hformula] at denotes
  rw [hc] at stored
  rcases denotes with read | ⟨e, refused, -⟩
  · rw [read] at other
    rw [Option.map_some] at stored
    exact absurd (stored.symm.trans other) (by decide)
  · rw [refused] at other
    cases other

end Service

end DerivedColumns
