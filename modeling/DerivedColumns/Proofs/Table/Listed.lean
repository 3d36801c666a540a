import DerivedColumns.Proofs.Keyed
import DerivedColumns.Table.Row

set_option autoImplicit false

namespace DerivedColumns

def Dataset.Listed (d : Dataset) : Prop := ∀ row ∈ d.rows, ∀ x ∈ row.fields.keys, x ∈ d.columns

theorem Dataset.Listed.get?_eq_none {d : Dataset} (h : d.Listed) {x : String} (hx : x ∉ d.columns)
    {row : Row} (hrow : row ∈ d.rows) : row.fields.get? x = none := by
  rw [Keyed.get?_eq_none_iff]
  exact fun hk => hx (h row hrow x hk)

theorem Dataset.listed_ofRows (rows : List Row) : (Dataset.ofRows rows).Listed := by
  have seen : ∀ (rows : List Row) (names : Keyed Unit) (x : String),
      x ∈ (rows.foldl (fun seen row =>
        row.fields.keys.foldl (fun seen name => seen.insert name ()) seen) names).keys ↔
        (∃ row ∈ rows, x ∈ row.fields.keys) ∨ x ∈ names.keys := by
    intro rows
    induction rows with
    | nil => simp
    | cons row rows ih =>
      intro names x
      have inner := Keyed.mem_keys_foldl_insert (fun name : String => name) (fun _ => ())
        row.fields.keys names x
      rw [List.foldl_cons, ih, inner, List.map_id']
      simp only [List.mem_cons, exists_eq_or_imp]
      grind
  intro row hrow x hx
  exact (seen rows Keyed.empty x).2 (.inl ⟨row, hrow, hx⟩)

end DerivedColumns
