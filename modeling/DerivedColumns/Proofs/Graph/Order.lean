import DerivedColumns.Graph.Order
import DerivedColumns.Proofs.Distinct
import DerivedColumns.Proofs.Graph.Edges

set_option autoImplicit false

namespace DerivedColumns

/-- Each name comes once, not among those that are done, and after the names of its steps. -/
def InOrder (steps : String → List String) : List String → List String → Prop
  | _, [] => True
  | done, name :: more =>
    name ∉ done ∧ (∀ n ∈ steps name, n ∈ done) ∧ InOrder steps (name :: done) more

namespace InOrder

variable {steps : String → List String} {done order : List String}

/-- What holds of a name as soon as it holds of the names of its steps holds of a whole order. -/
theorem forall_mem {P : String → Prop} (h : InOrder steps done order) (hdone : ∀ n ∈ done, P n)
    (step : ∀ n ∈ order, (∀ m ∈ steps n, P m) → P n) : ∀ n ∈ order, P n := by
  induction order generalizing done with
  | nil => intro n hn; cases hn
  | cons name more ih =>
    obtain ⟨-, before, rest⟩ := h
    have first : P name := step name List.mem_cons_self fun m hm => hdone m (before m hm)
    have hdone' : ∀ n ∈ name :: done, P n := by
      intro n hn
      rcases List.mem_cons.1 hn with rfl | hn
      · exact first
      · exact hdone n hn
    intro n hn
    rcases List.mem_cons.1 hn with rfl | hn
    · exact first
    · exact ih rest hdone' (fun n hn => step n (List.mem_cons_of_mem _ hn)) n hn

theorem filter (p : String → Bool) (h : InOrder steps done order) :
    InOrder (fun n => (steps n).filter p) (done.filter p) (order.filter p) := by
  induction order generalizing done with
  | nil => trivial
  | cons name more ih =>
    obtain ⟨fresh, before, rest⟩ := h
    have rest := ih rest
    by_cases hp : p name = true
    · rw [List.filter_cons_of_pos hp] at rest ⊢
      refine ⟨fun hm => fresh (List.mem_filter.1 hm).1, ?_, rest⟩
      intro n hn
      obtain ⟨hn, hpn⟩ := List.mem_filter.1 hn
      exact List.mem_filter.2 ⟨before n hn, hpn⟩
    · rw [List.filter_cons_of_neg hp] at rest ⊢
      exact rest

end InOrder

namespace DependencyGraph

def places : List Visit → List String
  | [] => []
  | .place name :: more => name :: places more
  | .enter _ _ :: more => places more

def Visit.name : Visit → String
  | .enter name _ => name
  | .place name => name

theorem places_enter_append (names : List String) (path : List String) (more : List Visit) :
    places (names.map (Visit.enter · path) ++ more) = places more := by
  induction names with
  | nil => rfl
  | cons name names ih => exact ih

theorem places_enter (names path : List String) :
    places (names.map (Visit.enter · path)) = [] := by
  simpa [places] using places_enter_append names path []

/-- The visits place a column after the names of its steps, given those that are done, and enter one
with all columns on its path that are placed later. -/
def Settled (steps : String → List String) : List String → List Visit → Prop
  | _, [] => True
  | done, .place name :: more => (∀ n ∈ steps name, n ∈ done) ∧ Settled steps (name :: done) more
  | done, .enter name path :: more =>
    (∀ n ∈ places more, n ∈ path) ∧ Settled steps (name :: done) more

variable {steps : String → List String}

theorem Settled.mono {done done' : List String} {visits : List Visit}
    (h : Settled steps done visits) (hsub : done ⊆ done') : Settled steps done' visits := by
  induction visits generalizing done done' with
  | nil => trivial
  | cons visit more ih =>
    cases visit with
    | place name =>
      exact ⟨fun n hn => hsub (h.1 n hn), ih h.2 (List.cons_subset_cons name hsub)⟩
    | enter name path => exact ⟨h.1, ih h.2 (List.cons_subset_cons name hsub)⟩

theorem Settled.entered {done names path : List String} {name : String} {more : List Visit}
    (hpath : ∀ n ∈ places more, n ∈ path) (h : Settled steps (name :: done) more)
    (hsteps : ∀ n ∈ steps name, n ∈ names ∨ n ∈ done) :
    Settled steps done (names.map (Visit.enter · (path ++ [name])) ++ .place name :: more) := by
  induction names generalizing done with
  | nil =>
    refine ⟨fun n hn => ?_, h⟩
    rcases hsteps n hn with hn | hn
    · cases hn
    · exact hn
  | cons next names ih =>
    refine ⟨?_, ?_⟩
    · intro n hn
      change n ∈ places (names.map (Visit.enter · (path ++ [name])) ++ .place name :: more) at hn
      rw [places_enter_append] at hn
      rcases List.mem_cons.1 hn with rfl | hn
      · simp
      · exact List.mem_append_left _ (hpath n hn)
    · apply ih
      · exact h.mono (List.cons_subset_cons name (List.subset_cons_self _ _))
      · intro n hn
        rcases hsteps n hn with hn | hn
        · rcases List.mem_cons.1 hn with rfl | hn
          · exact .inr List.mem_cons_self
          · exact .inl hn
        · exact .inr (List.mem_cons_of_mem _ hn)

theorem settled_enter (done names : List String) :
    Settled steps done (names.map (Visit.enter · [])) := by
  induction names generalizing done with
  | nil => trivial
  | cons name names ih =>
    refine ⟨?_, ih (name :: done)⟩
    rw [places_enter]
    exact fun n hn => hn

/-- The columns that are placed are in order, and all that is visited is placed. Every column of the
domain is fresh, waiting to be placed, or done. -/
theorem inOrder_of_placed {fresh done domain order : List String} {visits : List Visit}
    (h : placed steps fresh visits = .ok order) (settled : Settled steps done visits)
    (parts : (fresh ++ (places visits ++ done)).Perm domain) (nodup : domain.Nodup)
    (closed : ∀ n ∈ domain, ∀ m ∈ steps n, m ∈ domain)
    (inside : ∀ v ∈ visits, v.name ∈ domain) :
    InOrder steps done order ∧ ∀ v ∈ visits, v.name ∈ done ∨ v.name ∈ order := by
  fun_induction placed steps fresh visits generalizing done order with
  | case1 fresh =>
    cases h
    exact ⟨trivial, by simp⟩
  | case2 fresh name more ih =>
    obtain ⟨later, hlater, rfl⟩ : ∃ later, placed steps fresh more = .ok later ∧
        order = name :: later := by
      cases hl : placed steps fresh more with
      | error e => rw [hl] at h; cases h
      | ok later => rw [hl] at h; cases h; exact ⟨later, rfl, rfl⟩
    have moved : (fresh ++ (places more ++ name :: done)).Perm domain :=
      (List.Perm.append_left fresh List.perm_middle).trans parts
    have isNew : name ∉ done := by
      have hnd := List.nodup_append.1 ((List.nodup_append.1 (parts.nodup_iff.2 nodup)).2.1)
      intro hd
      exact hnd.2.2 name List.mem_cons_self name hd rfl
    obtain ⟨rest, visited⟩ := ih hlater settled.2 moved
      fun v hv => inside v (List.mem_cons_of_mem _ hv)
    refine ⟨⟨isNew, settled.1, rest⟩, ?_⟩
    intro v hv
    rcases List.mem_cons.1 hv with rfl | hv
    · exact .inr List.mem_cons_self
    · rcases visited v hv with hd | ho
      · rcases List.mem_cons.1 hd with heq | hd
        · exact .inr (heq ▸ List.mem_cons_self)
        · exact .inl hd
      · exact .inr (List.mem_cons_of_mem _ ho)
  | case3 fresh name path more hpath => cases h
  | case4 fresh name path more hpath hfresh ih =>
    have hname : name ∈ domain := inside _ List.mem_cons_self
    have settled' : Settled steps done
        ((steps name).map (Visit.enter · (path ++ [name])) ++ .place name :: more) :=
      Settled.entered settled.1 settled.2 fun n hn => .inl hn
    have moved : (fresh.erase name ++ (places ((steps name).map (Visit.enter · (path ++ [name])) ++
        .place name :: more) ++ done)).Perm domain := by
      rw [places_enter_append]
      have swap : (fresh.erase name ++ (name :: (places more ++ done))).Perm
          (fresh ++ (places more ++ done)) :=
        List.perm_middle.trans ((List.perm_cons_erase hfresh).symm.append_right _)
      exact swap.trans parts
    have inside' : ∀ v ∈ (steps name).map (Visit.enter · (path ++ [name])) ++ .place name :: more,
        v.name ∈ domain := by
      intro v hv
      rcases List.mem_append.1 hv with hv | hv
      · obtain ⟨next, hnext, rfl⟩ := List.mem_map.1 hv
        exact closed name hname next hnext
      · rcases List.mem_cons.1 hv with rfl | hv
        · exact hname
        · exact inside v (List.mem_cons_of_mem _ hv)
    obtain ⟨inOrder, visited⟩ := ih h settled' moved inside'
    refine ⟨inOrder, ?_⟩
    intro v hv
    rcases List.mem_cons.1 hv with rfl | hv
    · exact visited (.place name) (by simp)
    · exact visited v (by simp [hv])
  | case5 fresh name path more hpath hfresh ih =>
    have hdone : name ∈ done := by
      have hall := parts.mem_iff.2 (inside _ List.mem_cons_self)
      rcases List.mem_append.1 hall with hf | hrest
      · exact absurd hf hfresh
      · rcases List.mem_append.1 hrest with hp | hd
        · exact absurd (settled.1 name hp) hpath
        · exact hd
    have settled' := settled.2.mono (List.cons_subset.2 ⟨hdone, List.Subset.refl done⟩)
    obtain ⟨inOrder, visited⟩ := ih h settled' parts
      fun v hv => inside v (List.mem_cons_of_mem _ hv)
    refine ⟨inOrder, ?_⟩
    intro v hv
    rcases List.mem_cons.1 hv with rfl | hv
    · exact .inl hdone
    · exact visited v hv

theorem mem_steps (g : DependencyGraph) (isNode : String → Bool) (column name : String) :
    name ∈ g.steps isNode column ↔
      g.Edge column name ∧ g.contains name = true ∧ isNode name = true := by
  simp [steps, Edge]

theorem inOrder_of_placed_roots {g : DependencyGraph} {isNode : String → Bool} {roots order : List String}
    (h : placed (g.steps isNode) (g.columns ++ roots).eraseDups (roots.map (Visit.enter · [])) = .ok order) :
    InOrder (g.steps isNode) [] order ∧ ∀ root ∈ roots, root ∈ order := by
  have parts : ((g.columns ++ roots).eraseDups ++ (places (roots.map (Visit.enter · [])) ++ [])).Perm
      (g.columns ++ roots).eraseDups := by
    rw [places_enter]
    simp
  have closed : ∀ n ∈ (g.columns ++ roots).eraseDups, ∀ m ∈ g.steps isNode n,
      m ∈ (g.columns ++ roots).eraseDups := by
    intro n _ m hm
    rw [List.mem_eraseDups, List.mem_append]
    exact .inl ((mem_columns g m).2 ((mem_steps g isNode n m).1 hm).2.1)
  have inside : ∀ v ∈ roots.map (Visit.enter · []), v.name ∈ (g.columns ++ roots).eraseDups := by
    intro v hv
    obtain ⟨root, hr, rfl⟩ := List.mem_map.1 hv
    rw [List.mem_eraseDups, List.mem_append]
    exact .inr hr
  obtain ⟨inOrder, visited⟩ :=
    inOrder_of_placed h (settled_enter [] roots) parts (nodup_eraseDups _) closed inside
  refine ⟨inOrder, fun root hr => ?_⟩
  simpa [Visit.name] using visited (.enter root []) (List.mem_map_of_mem hr)

end DependencyGraph

end DerivedColumns
