import DerivedColumns.Service.Subscription
import Mathlib.Data.List.Basic

set_option autoImplicit false

namespace DerivedColumns

namespace Channel

section Receivers

variable {Receiver : Type} (C : Channel Receiver)

/-- A receiver was registered when `before` had been sent, and has taken some deliveries since. -/
inductive Took (before : List Notification) :
    List Notification → List Delivery → Receiver → Prop where
  | registered : Took before before [] (C.register before)
  | sent {sent : List Notification} {taken : List Delivery} {r : Receiver}
    (h : Took before sent taken r) (more : List Notification) : Took before (sent ++ more) taken r
  | next {sent : List Notification} {taken : List Delivery} {d : Delivery} {r r' : Receiver}
    (h : Took before sent taken r) (found : C.next? r sent = some (d, r')) :
    Took before sent (taken ++ [d]) r'

inductive Drains (sent : List Notification) : Receiver → List Delivery → Prop where
  | idle {r : Receiver} (none : C.next? r sent = none) : Drains sent r []
  | next {r r' : Receiver} {d : Delivery} {more : List Delivery} (found : C.next? r sent = some (d, r'))
    (rest : Drains sent r' more) : Drains sent r (d :: more)

/-- What is assumed of a broadcast channel: when there is nothing more for a receiver, then every
notification that was sent after it was registered has been delivered to it, or it has been told of a lag.
And there is not always more. -/
structure Reliable : Prop where
  delivers : ∀ {before sent : List Notification} {taken : List Delivery} {r : Receiver},
    C.Took before sent taken r → C.next? r sent = none → ∀ names ∈ sent.drop before.length,
      .message names ∈ taken ∨ ∃ missed, .lagged missed ∈ taken
  ends : ∀ {before sent : List Notification} {taken : List Delivery} {r : Receiver},
    C.Took before sent taken r → ∃ more, C.Drains sent r more

end Receivers

variable {Receiver : Type} {C : Channel Receiver} {before sent : List Notification}
  {taken more : List Delivery} {r : Receiver}

theorem Took.length_le (h : C.Took before sent taken r) : before.length ≤ sent.length := by
  induction h with
  | registered => exact Nat.le_refl _
  | sent _ more ih =>
    rw [List.length_append]
    exact Nat.le_add_right_of_le ih
  | next _ _ ih => exact ih

/-- By draining its channel a receiver is delivered all that was sent since it was registered. -/
theorem Reliable.drained (reliable : C.Reliable) (h : C.Took before sent taken r)
    (drains : C.Drains sent r more) : ∀ names ∈ sent.drop before.length,
      .message names ∈ taken ++ more ∨ ∃ missed, .lagged missed ∈ taken ++ more := by
  induction drains generalizing taken with
  | idle none =>
    rw [List.append_nil]
    exact reliable.delivers h none
  | next found _ ih =>
    rw [List.append_cons]
    exact ih (h.next found)

theorem next?_bounded_eq_none {r : Nat} (none : bounded.next? r sent = none) : sent.length ≤ r := by
  dsimp only [bounded] at none
  split at none
  · exact List.getElem?_eq_none_iff.1 (Option.map_eq_none_iff.1 none)
  · cases none

theorem next?_bounded_eq_some {r r' : Nat} {d : Delivery} (inside : r ≤ sent.length)
    (found : bounded.next? r sent = some (d, r')) :
    r < r' ∧ r' ≤ sent.length ∧ ((∃ missed, d = .lagged missed) ∨
      ∃ names, d = .message names ∧ sent[r]? = some names ∧ r' = r + 1) := by
  dsimp only [bounded] at found
  split at found
  · obtain ⟨names, there, step⟩ := Option.map_eq_some_iff.1 found
    cases step
    exact ⟨Nat.lt_succ_self r, (List.getElem?_eq_some_iff.1 there).1, .inr ⟨names, rfl, there, rfl⟩⟩
  · rename_i behind
    cases found
    exact ⟨Nat.lt_add_of_pos_right (Nat.pos_of_ne_zero behind), by omega, .inl ⟨_, rfl⟩⟩

/-- What a receiver of the bounded channel has passed has been delivered, or it was told that it lags. -/
theorem Took.passed {r : Nat} (h : bounded.Took before sent taken r) :
    before.length ≤ r ∧ r ≤ sent.length ∧ ((∃ missed, .lagged missed ∈ taken) ∨
      ∀ i names, before.length ≤ i → i < r → sent[i]? = some names → .message names ∈ taken) := by
  induction h with
  | registered =>
    exact ⟨Nat.le_refl _, Nat.le_refl _, .inr fun i _ low below _ => absurd below (Nat.not_lt_of_le low)⟩
  | @sent sent taken r _ more ih =>
    obtain ⟨low, high, told⟩ := ih
    refine ⟨low, ?_, told.imp id fun all i names from_ below there => ?_⟩
    · rw [List.length_append]
      exact Nat.le_add_right_of_le high
    · rw [List.getElem?_append_left (Nat.lt_of_lt_of_le below high)] at there
      exact all i names from_ below there
  | @next sent taken d r r' _ found ih =>
    obtain ⟨low, high, told⟩ := ih
    obtain ⟨onward, inside, step⟩ := next?_bounded_eq_some high found
    refine ⟨Nat.le_trans low (Nat.le_of_lt onward), inside, ?_⟩
    rcases step with ⟨missed, rfl⟩ | ⟨names, rfl, there, rfl⟩
    · exact .inl ⟨missed, List.mem_append_right _ (List.mem_singleton_self _)⟩
    · refine told.imp (fun ⟨missed, old⟩ => ⟨missed, List.mem_append_left _ old⟩) ?_
      intro all i names' from_ below there'
      by_cases last : i = r
      · subst last
        obtain rfl := Option.some.inj (there.symm.trans there')
        exact List.mem_append_right _ (List.mem_singleton_self _)
      · exact List.mem_append_left _ (all i names' from_ (by omega) there')

/-- By how many notifications it has not passed. -/
theorem exists_drains (sent : List Notification) (r : Nat) (inside : r ≤ sent.length) :
    ∃ more, bounded.Drains sent r more := by
  induction same : sent.length - r using Nat.strongRecOn generalizing r with
  | ind left ih =>
  cases found : bounded.next? r sent with
  | none => exact ⟨[], .idle found⟩
  | some step =>
    obtain ⟨d, r'⟩ := step
    obtain ⟨onward, inside', -⟩ := next?_bounded_eq_some inside found
    obtain ⟨more, rest⟩ := ih (sent.length - r') (by omega) r' inside' rfl
    exact ⟨d :: more, .next found rest⟩

theorem reliable_bounded : bounded.Reliable where
  delivers {before sent taken r} h none names hn := by
    obtain ⟨low, high, told⟩ := h.passed
    have all := next?_bounded_eq_none none
    obtain ⟨j, hj⟩ := List.mem_iff_getElem?.1 hn
    rw [List.getElem?_drop] at hj
    rcases told with lag | messages
    · exact .inr lag
    · have below := (List.getElem?_eq_some_iff.1 hj).1
      exact .inl (messages _ names (Nat.le_add_right _ j) (by omega) hj)
  ends h := exists_drains _ _ h.passed.2.1

end Channel

end DerivedColumns
