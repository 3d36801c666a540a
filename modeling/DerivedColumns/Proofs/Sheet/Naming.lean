import DerivedColumns.Proofs.Sheet.Execution
import DerivedColumns.Proofs.Sheet.Linked

set_option autoImplicit false

namespace DerivedColumns

def Operation.shown? : Operation → Option Dataset
  | .setSource source => some source
  | .drift source => some source
  | _ => none

namespace Sheet

variable {s : Sheet} {x : String}

/-- No calculation, active or not, is named like a source column. -/
def Unshadowed (s : Sheet) : Prop := ∀ x ∈ s.calculations.keys, x ∉ s.source.columns

/-- The operation shows a source that has a column named like a calculation. -/
def Shadows (s : Sheet) (op : Operation) : Prop :=
  ∃ source ∈ op.shown?, ∃ x ∈ s.calculations.keys, x ∈ source.columns

theorem nodup_activeColumns (s : Sheet) : s.activeColumns.Nodup :=
  s.calculations.nodup.filter _

theorem nodup_columnNames_iff (distinct : s.source.columns.Nodup) :
    s.columnNames.Nodup ↔ ∀ x, s.isActive x = true → x ∉ s.source.columns := by
  unfold columnNames
  rw [List.nodup_append]
  constructor
  · rintro ⟨-, -, apart⟩ x active hx
    exact apart x hx x ((mem_activeColumns s x).2 active) rfl
  · intro apart
    refine ⟨distinct, s.nodup_activeColumns, ?_⟩
    rintro x hx y hy rfl
    exact apart x ((mem_activeColumns s x).1 hy) hx

theorem Unshadowed.nodup_columnNames (h : s.Unshadowed) (distinct : s.source.columns.Nodup) :
    s.columnNames.Nodup :=
  (nodup_columnNames_iff distinct).2 fun x active => h x (mem_keys_of_isActive active)

structure Avoids (s t : Sheet) : Prop where
  columns : t.source.columns = s.source.columns
  keys : ∀ x ∈ t.calculations.keys, x ∈ s.calculations.keys ∨ x ∉ s.source.columns

namespace Avoids

variable {t u : Sheet}

theorem refl (s : Sheet) : Avoids s s := ⟨rfl, fun _ hx => .inl hx⟩

theorem of_drops {gone : String → Prop} (h : Avoids s t) (drops : Drops gone t u) : Avoids s u := by
  refine ⟨by rw [drops.source, h.columns], ?_⟩
  rw [drops.calculations]
  exact h.keys

theorem execute (h : Avoids s t) (targets : List String) : Avoids s (t.execute targets).2 := by
  rw [execute_rest]
  exact ⟨h.columns, h.keys⟩

theorem add (s : Sheet) (column : String) (c : Calculation) : Avoids s (s.add column c).2 := by
  rcases add_cases s column c with ⟨e, he⟩ | ⟨free, -, he⟩
  · rw [he]
    exact refl s
  · have added : Avoids s (s.added column c) := by
      refine ⟨rfl, fun x hx => ?_⟩
      rcases (mem_keys_added s column c x).1 hx with rfl | old
      · exact .inr (free_of_nameFault? free).2
      · exact .inl old
    have dropped := added.of_drops (drops_uncacheCascade _ column)
    rw [he]
    split
    · exact dropped.execute _
    · exact dropped

theorem update (s : Sheet) (column : String) (p : Patch) : Avoids s (s.update column p).2 := by
  rcases update_cases s column p with ⟨e, he⟩ | ⟨c, editable, -, he⟩
  · rw [he]
    exact refl s
  · have edited : Avoids s (s.edited column p c) := by
      refine ⟨by rw [(source_edited s column p c).1], fun x hx => ?_⟩
      rcases (mem_keys_edited editable x).1 hx with rfl | old
      · by_cases same : target column p = column
        · rw [same]
          exact .inl (Keyed.mem_keys_of_get? editable.found)
        · exact .inr (editable.unlisted same)
      · exact .inl old.2
    rw [he]
    exact edited.of_drops (drops_uncacheCascades _ _)

theorem remove (s : Sheet) (column : String) : Avoids s (s.remove column).2 := by
  rcases remove_cases s column with ⟨e, he⟩ | ⟨c, t, -, he, drops⟩
  · rw [he]
    exact refl s
  · have removed : Avoids s (s.removed column) :=
      ⟨rfl, fun x hx => .inl ((mem_keys_removed s column x).1 hx).2⟩
    rw [he]
    exact removed.of_drops drops

theorem perform (s : Sheet) {op : Operation} (none : op.shown? = none) : Avoids s (s.perform op) := by
  cases op with
  | add column c => exact add s column c
  | addText id name column text =>
    rcases addText_cases s id name column text with he | ⟨formula, -, he⟩
    · exact (congrArg (Avoids s) he).mpr (refl s)
    · exact (congrArg (Avoids s) he).mpr (add s column _)
  | update column p => exact update s column p
  | remove column => exact remove s column
  | invalidate column =>
    change Avoids s (s.invalidate column).2
    unfold invalidate
    split
    · exact (refl s).of_drops (drops_uncacheCascade s column)
    · exact refl s
  | executeAll => exact (refl s).execute _
  | refresh => exact (refl s).execute _
  | setSource source => cases none
  | drift source => cases none

end Avoids

theorem perform_of_shown {op : Operation} {source : Dataset} (h : op.shown? = some source) :
    (s.perform op).source = source ∧ (s.perform op).calculations = s.calculations := by
  cases op with
  | setSource shown =>
    cases h
    exact ⟨rfl, rfl⟩
  | drift shown =>
    cases h
    exact ⟨rfl, rfl⟩
  | _ => cases h

theorem unshadowed_perform_iff (h : s.Unshadowed) (op : Operation) :
    (s.perform op).Unshadowed ↔ ¬ s.Shadows op := by
  unfold Shadows Unshadowed
  cases shown : op.shown? with
  | none =>
    have avoids := Avoids.perform s shown
    simp only [Option.mem_def, reduceCtorEq, false_and, exists_false, not_false_iff, iff_true]
    intro x hx
    rw [avoids.columns]
    exact (avoids.keys x hx).elim (h x) id
  | some source =>
    obtain ⟨same, calculations⟩ := perform_of_shown (s := s) shown
    rw [same, calculations]
    simp only [Option.mem_def, Option.some.injEq, exists_eq_left', not_exists, not_and]

def Listing (source : Dataset) (ops : List Operation) : Prop :=
  source.columns.Nodup ∧ ∀ op ∈ ops, ∀ shown ∈ op.shown?, shown.columns.Nodup

theorem nodup_columns_after {ops : List Operation} (distinct : s.source.columns.Nodup)
    (shown : ∀ op ∈ ops, ∀ source ∈ op.shown?, source.columns.Nodup) :
    (s.after ops).source.columns.Nodup := by
  induction ops generalizing s with
  | nil => exact distinct
  | cons op ops ih =>
    refine ih (s := s.perform op) ?_ fun op' hop => shown op' (List.mem_cons_of_mem _ hop)
    cases h : op.shown? with
    | none => rwa [(Avoids.perform s h).columns]
    | some source =>
      rw [(perform_of_shown (s := s) h).1]
      exact shown op List.mem_cons_self source h

/-- While no operation of a session shows a source with the name of a calculation, no name is shadowed. -/
theorem unshadowed_after {ops : List Operation} (h : s.Unshadowed)
    (never : ∀ before op later, ops = before ++ op :: later → ¬ (s.after before).Shadows op) :
    (s.after ops).Unshadowed := by
  induction ops generalizing s with
  | nil => exact h
  | cons op ops ih =>
    refine ih (s := s.perform op) ((unshadowed_perform_iff h op).2 (never [] op ops rfl)) ?_
    intro before op' later e
    exact never (op :: before) op' later (by rw [e]; rfl)

/-- The columns have distinct names exactly while no active calculation is named like a source column. No
edit makes a calculation share its name with one: that happens exactly when an operation shows a source that
has a column named like a calculation. -/
theorem columnNames_distinct_iff (source : Dataset) (library : Library) (ops : List Operation)
    (listing : Listing source ops) :
    let start := ofSource source library
    let s := start.after ops
    (s.columnNames.Nodup ↔ ∀ x, s.isActive x = true → x ∉ s.source.columns) ∧
    (s.Unshadowed → ∀ op, (s.perform op).Unshadowed ↔ ¬ s.Shadows op) ∧
    ((∀ before op later, ops = before ++ op :: later → ¬ (start.after before).Shadows op) →
      s.Unshadowed ∧ s.columnNames.Nodup) := by
  intro start s
  have distinct : s.source.columns.Nodup := nodup_columns_after (s := start) listing.1 listing.2
  refine ⟨nodup_columnNames_iff distinct, fun h op => unshadowed_perform_iff h op, fun never => ?_⟩
  have unshadowed : s.Unshadowed :=
    unshadowed_after (s := start) (fun x hx => absurd hx List.not_mem_nil) never
  exact ⟨unshadowed, unshadowed.nodup_columnNames distinct⟩

def blankRow : Dataset := .ofRows [⟨1, .ofList [("a", .null)]⟩]

def outrun : List Operation := [.addText 0 "a" "a" "1", .setSource blankRow]

set_option maxRecDepth 10000 in
theorem columnNames_distinct_iff_outrun :
    let s := (ofSource .empty .standard).after outrun
    Listing .empty outrun ∧ ∃ x, s.isActive x = true ∧ x ∈ s.source.columns := by
  intro s
  have listing : Listing .empty outrun := by
    refine ⟨List.nodup_nil, fun op hop => ?_⟩
    rcases List.mem_cons.1 hop with rfl | hop
    · exact fun shown h => by cases h
    · obtain rfl := List.mem_singleton.1 hop
      rintro shown ⟨⟩
      decide
  have names : s.columnNames = ["a", "a"] := by decide +kernel
  have distinct_iff := (columnNames_distinct_iff .empty .standard _ listing).1
  refine ⟨listing, ?_⟩
  by_contra apart
  have distinct : s.columnNames.Nodup := distinct_iff.2 fun x active hx => apart ⟨x, active, hx⟩
  rw [names] at distinct
  exact absurd distinct (by decide)

set_option maxRecDepth 10000 in
theorem not_nodup_columnNames_outrun :
    ¬ ((ofSource .empty .standard).after outrun).columnNames.Nodup := by
  have names : ((ofSource .empty .standard).after outrun).columnNames = ["a", "a"] := by decide +kernel
  rw [names]
  decide

end Sheet

end DerivedColumns
