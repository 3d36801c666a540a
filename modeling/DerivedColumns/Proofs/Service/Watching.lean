import DerivedColumns.Proofs.Service.Channel
import DerivedColumns.Proofs.Service.Notice

set_option autoImplicit false

/-!
Clients edit while one of them subscribes. An edit is committed first, and its columns are announced
later, maybe after those of a later edit; a subscriber registers first and lists the active columns later.
In any such interleaving, every column that has become active or inactive since the listing is one that
is still to be announced, or one that was named in a notification after the receiver was registered.
-/

namespace DerivedColumns

namespace Feed

variable {Receiver : Type} {C : Channel Receiver} {sent : List Notification}

inductive Reads (C : Channel Receiver) (sent : List Notification) : Feed Receiver → List Event → Prop where
  | idle {f : Feed Receiver} (none : f.next? C sent = none) : Reads C sent f []
  | next {f rest : Feed Receiver} {event : Event} {more : List Event}
    (found : f.next? C sent = some (event, rest)) (later : Reads C sent rest more) :
    Reads C sent f (event :: more)

theorem reads_of_drains {f : Feed Receiver} {more : List Delivery}
    (drains : C.Drains sent f.receiver more) :
    f.Reads C sent (f.opening.toList.map .columns ++ more.map .ofDelivery) := by
  have told : ∀ {r : Receiver} {more : List Delivery}, C.Drains sent r more →
      (⟨none, r⟩ : Feed Receiver).Reads C sent (more.map .ofDelivery) := by
    intro r more drains
    induction drains with
    | idle none =>
      refine .idle ?_
      rw [next?, none]
      rfl
    | next found _ ih =>
      refine .next ?_ ih
      rw [next?, found]
      rfl
  obtain ⟨opening, r⟩ := f
  cases opening with
  | none => exact told drains
  | some columns => exact .next rfl (told drains)

end Feed

namespace Commit

def quiet {α : Type} (c : Commit α) : Commit Unit := ⟨c.answer.map fun _ => (), c.changed, c.service⟩

end Commit

namespace Service

variable {v : Service}

def commit (v : Service) : Command → Commit Unit
  | .add request => (v.commitAdd request).quiet
  | .update column changes => (v.commitUpdate column changes).quiet
  | .remove column => (v.commitRemove column).quiet
  | .executeAll => v.commitExecute.quiet
  | .refresh => v.commitRefresh.quiet
  | .replaceSource source => (v.commitSource source).quiet

theorem obey_eq (v : Service) (command : Command) : v.obey command = complete (v.commit command) := by
  cases command <;> rfl

theorem sent_executed (v : Service) (result : Except SheetError Report × Sheet) :
    (v.executed result).service.sent = v.sent := by
  unfold executed
  dsimp only
  split <;> rfl

theorem sent_commit (v : Service) (command : Command) : (v.commit command).service.sent = v.sent := by
  cases command with
  | add request =>
    change (v.commitAdd request).service.sent = v.sent
    unfold commitAdd
    split
    · rfl
    · dsimp only
      split <;> rfl
  | update column changes =>
    change (v.commitUpdate column changes).service.sent = v.sent
    unfold commitUpdate
    split
    · rfl
    · dsimp only
      split <;> rfl
  | remove column =>
    change (v.commitRemove column).service.sent = v.sent
    unfold commitRemove
    dsimp only
    split <;> rfl
  | executeAll => exact v.sent_executed _
  | refresh => exact v.sent_executed _
  | replaceSource source => exact v.sent_executed _

theorem sheet_commit (v : Service) (command : Command) :
    (v.commit command).service.sheet = (v.obey command).2.sheet := by
  rw [obey_eq]
  exact (sheet_notify _ _).symm

theorem pruned_obey (linked : v.sheet.Linked) (pruned : v.sheet.Pruned) (command : Command) :
    (v.obey command).2.sheet.Pruned := by
  obtain ⟨ops, e, -⟩ := v.obey_operations command
  rw [e]
  exact pruned.becomes linked (.after _ ops)

/-- Every command names the columns whose definition differs after it, also those it hides. -/
theorem told_of_redefined (linked : v.sheet.Linked) (pruned : v.sheet.Pruned) {command : Command}
    {x : String} (redefined : (v.obey command).2.sheet.calculations.get? x ≠
      v.sheet.calculations.get? x) : v.Told (v.obey command).2 x := by
  by_cases hides : v.Hides command
  · cases command with
    | add request =>
      obtain ⟨-, ⟨report, ok⟩, -⟩ := hides
      obtain ⟨c, -, -, whole⟩ := add_eq_ok ok
      change v.Told (v.add request).2 x
      have own : x = request.column := by
        by_contra other
        apply redefined
        change (v.add request).2.sheet.calculations.get? x = _
        rw [whole, sheet_notify]
        exact Sheet.get?_add_of_ne v.sheet c other
      rw [whole, told_notify_iff]
      exact List.mem_append.2 (.inr (List.mem_singleton.2 own))
    | _ => exact hides.elim
  · exact (told_iff_not_hides linked pruned command).2 hides x (.inl redefined)

theorem told_complete_iff {α : Type} {c : Commit α} (sent : c.service.sent = v.sent) (x : String) :
    v.Told (complete c).2 x ↔ x ∈ c.changed := by
  obtain ⟨answer, changed, ⟨sheet, nextId, log⟩⟩ := c
  obtain rfl : log = v.sent := sent
  exact told_notify_iff v sheet nextId changed x

/-- The columns that a command makes active or inactive are among those it is to announce. -/
theorem mem_changed (linked : v.sheet.Linked) (pruned : v.sheet.Pruned) {command : Command}
    {x : String} (switched : (v.commit command).service.sheet.isActive x ≠ v.sheet.isActive x) :
    x ∈ (v.commit command).changed := by
  rw [← told_complete_iff (v.sent_commit command), ← obey_eq]
  refine told_of_redefined linked pruned fun same => switched ?_
  rw [sheet_commit]
  unfold Sheet.isActive
  rw [same]

theorem sent_notify (v : Service) (changed : List String) :
    ∃ more, (v.notify changed).sent = v.sent ++ more := by
  unfold notify
  split
  · exact ⟨[], (List.append_nil _).symm⟩
  · exact ⟨_, rfl⟩

end Service

section Exchanges

variable (Receiver : Type)

inductive Watcher where
  | away
  | registered (r : Receiver)
  | listening (opening : List String) (f : Feed Receiver) (heard : List Event)
deriving DecidableEq

/-- A service among its clients. -/
structure Exchange where
  service : Service
  pending : List (List String)
  watcher : Watcher Receiver

end Exchanges

inductive Move where
  | commit (command : Command)
  | announce (place : Nat)
  | register
  | list
  | receive

namespace Exchange

variable {Receiver : Type} {C : Channel Receiver} {e : Exchange Receiver}

def start (v : Service) : Exchange Receiver := ⟨v, [], .away⟩

def commit (e : Exchange Receiver) (command : Command) : Exchange Receiver :=
  let c := e.service.commit command
  { e with service := c.service, pending := e.pending ++ [c.changed] }

def announce (e : Exchange Receiver) (place : Nat) : Exchange Receiver :=
  match e.pending[place]? with
  | none => e
  | some changed =>
    { e with service := e.service.notify changed, pending := e.pending.eraseIdx place }

def register (C : Channel Receiver) (e : Exchange Receiver) : Exchange Receiver :=
  match e.watcher with
  | .away => { e with watcher := .registered (C.register e.service.sent) }
  | _ => e

def list (e : Exchange Receiver) : Exchange Receiver :=
  match e.watcher with
  | .registered r =>
    let columns := e.service.sheet.activeColumns
    { e with watcher := .listening columns ⟨some columns, r⟩ [] }
  | _ => e

def receive (C : Channel Receiver) (e : Exchange Receiver) : Exchange Receiver :=
  match e.watcher with
  | .listening opening f heard =>
    match f.next? C e.service.sent with
    | none => e
    | some (event, f) => { e with watcher := .listening opening f (heard ++ [event]) }
  | _ => e

def move (C : Channel Receiver) (e : Exchange Receiver) : Move → Exchange Receiver
  | .commit command => e.commit command
  | .announce place => e.announce place
  | .register => e.register C
  | .list => e.list
  | .receive => e.receive C

def run (C : Channel Receiver) (e : Exchange Receiver) (moves : List Move) : Exchange Receiver :=
  moves.foldl (move C) e

/-- A column is still to be announced, or has been named since the receiver was registered. -/
def Due (e : Exchange Receiver) (before : List Notification) (x : String) : Prop :=
  (∃ changed ∈ e.pending, x ∈ changed) ∨ ∃ names ∈ e.service.sent.drop before.length, x ∈ names

/-- What was sent since the receiver was registered makes up for all that has happened since the listing,
and what was heard is the listing and what the receiver took. -/
structure Heeds (C : Channel Receiver) (e : Exchange Receiver) (opening : List String) (f : Feed Receiver)
    (heard : List Event) (before : List Notification) (taken : List Delivery) : Prop where
  took : C.Took before e.service.sent taken f.receiver
  due : ∀ x, (x ∈ opening ↔ e.service.sheet.isActive x = true) ∨ e.Due before x
  heard : heard ++ f.opening.toList.map .columns = .columns opening :: taken.map .ofDelivery

structure Sound (C : Channel Receiver) (e : Exchange Receiver) : Prop where
  linked : e.service.sheet.Linked
  pruned : e.service.sheet.Pruned
  registered : ∀ r, e.watcher = .registered r → ∃ before, C.Took before e.service.sent [] r
  listening : ∀ opening f heard, e.watcher = .listening opening f heard →
    ∃ before taken, e.Heeds C opening f heard before taken

namespace Sound

theorem start {v : Service} (linked : v.sheet.Linked) (pruned : v.sheet.Pruned) :
    (Exchange.start v : Exchange Receiver).Sound C :=
  ⟨linked, pruned, nofun, nofun⟩

theorem commit (h : e.Sound C) (command : Command) : (e.commit command).Sound C := by
  have sheet := e.service.sheet_commit command
  have sent : (e.commit command).service.sent = e.service.sent := e.service.sent_commit command
  refine ⟨?_, ?_, ?_, ?_⟩
  · exact (congrArg Sheet.Linked sheet).mpr (Service.linked_obey h.linked command)
  · exact (congrArg Sheet.Pruned sheet).mpr (Service.pruned_obey h.linked h.pruned command)
  · intro r registered
    rw [sent]
    exact h.registered r registered
  · intro opening f heard listening
    obtain ⟨before, taken, took, due, told⟩ := h.listening opening f heard listening
    refine ⟨before, taken, sent.symm ▸ took, fun x => ?_, told⟩
    by_cases switched : (e.commit command).service.sheet.isActive x = e.service.sheet.isActive x
    · rw [switched]
      refine (due x).imp id (.imp ?_ ?_)
      · rintro ⟨changed, hc, named⟩
        exact ⟨changed, List.mem_append_left _ hc, named⟩
      · rw [sent]
        exact id
    · exact .inr (.inl ⟨_, List.mem_append_right _ (List.mem_singleton_self _),
        Service.mem_changed h.linked h.pruned switched⟩)

theorem announce (h : e.Sound C) (place : Nat) : (e.announce place).Sound C := by
  unfold Exchange.announce
  cases found : e.pending[place]? with
  | none => exact h
  | some changed =>
    have sheet := e.service.sheet_notify changed
    obtain ⟨more, sent⟩ := e.service.sent_notify changed
    refine ⟨sheet ▸ h.linked, sheet ▸ h.pruned, ?_, ?_⟩
    · intro r registered
      obtain ⟨before, took⟩ := h.registered r registered
      exact ⟨before, sent ▸ took.sent more⟩
    · intro opening f heard listening
      obtain ⟨before, taken, took, due, told⟩ := h.listening opening f heard listening
      refine ⟨before, taken, sent ▸ took.sent more, fun x => ?_, told⟩
      have grown : (e.service.sent ++ more).drop before.length =
          e.service.sent.drop before.length ++ more := List.drop_append_of_le_length took.length_le
      refine (due x).imp (fun same => sheet ▸ same) ?_
      rintro (⟨other, hc, named⟩ | ⟨names, hn, named⟩)
      · obtain ⟨i, hi⟩ := List.mem_iff_getElem?.1 hc
        by_cases own : i = place
        · obtain rfl : changed = other := Option.some.inj (found.symm.trans (own ▸ hi))
          obtain ⟨names, told, hx⟩ := (Service.told_notify_iff e.service e.service.sheet
            e.service.nextId changed x).2 named
          have last : more = [names] := List.append_cancel_left (sent.symm.trans told)
          refine .inr ⟨names, ?_, hx⟩
          rw [sent, grown, last]
          exact List.mem_append_right _ (List.mem_singleton_self _)
        · exact .inl ⟨other, List.mem_eraseIdx_iff_getElem?.2 ⟨i, own, hi⟩, named⟩
      · refine .inr ⟨names, ?_, named⟩
        rw [sent, grown]
        exact List.mem_append_left _ hn

theorem register (h : e.Sound C) : (e.register C).Sound C := by
  unfold Exchange.register
  split
  · refine ⟨h.linked, h.pruned, ?_, nofun⟩
    intro r registered
    cases registered
    exact ⟨e.service.sent, .registered⟩
  · exact h

theorem list (h : e.Sound C) : e.list.Sound C := by
  unfold Exchange.list
  split
  · rename_i r registered
    refine ⟨h.linked, h.pruned, nofun, ?_⟩
    intro opening f heard listening
    cases listening
    obtain ⟨before, took⟩ := h.registered r registered
    exact ⟨before, [], took, fun x => .inl (Sheet.mem_activeColumns _ x), rfl⟩
  · exact h

theorem receive (h : e.Sound C) : (e.receive C).Sound C := by
  unfold Exchange.receive
  split
  · rename_i opening f heard listening
    obtain ⟨before, taken, took, due, told⟩ := h.listening opening f heard listening
    cases next : f.next? C e.service.sent with
    | none => exact h
    | some found =>
      obtain ⟨event, rest⟩ := found
      refine ⟨h.linked, h.pruned, nofun, ?_⟩
      intro opening' f' heard' listening'
      cases listening'
      obtain ⟨first, r⟩ := f
      cases first with
      | some columns =>
        cases next
        exact ⟨before, taken, took, due, by simpa using told⟩
      | none =>
        obtain ⟨⟨d, r'⟩, delivery, step⟩ := Option.map_eq_some_iff.1 next
        cases step
        refine ⟨before, taken ++ [d], took.next delivery, due, ?_⟩
        rw [Option.toList_none, List.map_nil, List.append_nil] at told ⊢
        rw [told, List.map_append]
        rfl
  · exact h

theorem move (h : e.Sound C) (m : Move) : (e.move C m).Sound C := by
  cases m with
  | commit command => exact h.commit command
  | announce place => exact h.announce place
  | register => exact h.register
  | list => exact h.list
  | receive => exact h.receive

theorem run (h : e.Sound C) (moves : List Move) : (e.run C moves).Sound C := by
  induction moves generalizing e with
  | nil => exact h
  | cons m moves ih => exact ih (h.move m)

end Sound

/-- In every interleaving of edits with the two steps of a subscriber, after any session and over any
reliable channel: a subscriber that reads on comes to an end. The listed columns are the first event, and
once all edits are announced, each column that is in the list but no longer active, or active but not in
the list, is told to the subscriber: it is named in a notification, or a lag is told. -/
theorem switches_told (reliable : C.Reliable) (source : Dataset) (library : Library)
    (ops : List Operation) (nextId : Nat) (sent : List Notification) (moves : List Move) :
    let e := (start ⟨(Sheet.ofSource source library).after ops, nextId, sent⟩).run C moves
    ∀ opening f heard, e.watcher = .listening opening f heard →
      ∃ more, f.Reads C e.service.sent more ∧ (heard ++ more).head? = some (.columns opening) ∧
        (e.pending = [] → ∀ x, ¬ (x ∈ opening ↔ x ∈ e.service.sheet.activeColumns) →
          (∃ names, .changed names ∈ heard ++ more ∧ x ∈ names) ∨
            ∃ missed, .lagged missed ∈ heard ++ more) := by
  intro e opening f heard listening
  have sound : e.Sound C := (Sound.start (Sheet.Linked.after source library ops)
    (Sheet.Pruned.after source library ops)).run moves
  obtain ⟨before, taken, took, due, told⟩ := sound.listening opening f heard listening
  obtain ⟨more, drains⟩ := reliable.ends took
  have all : heard ++ (f.opening.toList.map .columns ++ more.map .ofDelivery) =
      .columns opening :: (taken ++ more).map .ofDelivery := by
    rw [← List.append_assoc, told, List.map_append]
    rfl
  refine ⟨_, Feed.reads_of_drains drains, ?_, fun quiet x switched => ?_⟩
  · rw [all]
    rfl
  · rw [all]
    rw [Sheet.mem_activeColumns] at switched
    rcases due x with same | ⟨changed, hc, -⟩ | ⟨names, hn, named⟩
    · exact absurd same switched
    · rw [quiet] at hc
      cases hc
    · rcases reliable.drained took drains names hn with message | ⟨missed, lag⟩
      · exact .inl ⟨names, List.mem_cons_of_mem _ (List.mem_map_of_mem message), named⟩
      · exact .inr ⟨missed, List.mem_cons_of_mem _ (List.mem_map_of_mem lag)⟩

def overtaken : Exchange Nat :=
  (start ⟨(Sheet.ofSource Sheet.twoRows .standard).after [], 1, []⟩).run .bounded
    [.register, .commit (.add ⟨none, "a", "1", true⟩), .list, .commit (.remove "a"), .receive,
      .announce 1, .announce 0]

theorem switches_told_overtaken : Channel.bounded.Reliable ∧
    overtaken.watcher = .listening ["a"] ⟨none, 0⟩ [.columns ["a"]] ∧ overtaken.pending = [] ∧
      ¬ ("a" ∈ ["a"] ↔ "a" ∈ overtaken.service.sheet.activeColumns) ∧
      ∃ more, (⟨none, 0⟩ : Feed Nat).Reads .bounded overtaken.service.sent more ∧
        ((∃ names, .changed names ∈ [.columns ["a"]] ++ more ∧ "a" ∈ names) ∨
          ∃ missed, .lagged missed ∈ [.columns ["a"]] ++ more) := by
  have listening : overtaken.watcher = .listening ["a"] ⟨none, 0⟩ [.columns ["a"]] := by
    decide +kernel
  have quiet : overtaken.pending = [] := by decide +kernel
  have switched : ¬ ("a" ∈ ["a"] ↔ "a" ∈ overtaken.service.sheet.activeColumns) := by
    decide +kernel
  obtain ⟨more, reads, -, told⟩ := switches_told Channel.reliable_bounded Sheet.twoRows .standard [] 1 [] _ _ _ _
    listening
  exact ⟨Channel.reliable_bounded, listening, quiet, switched, more, reads, told quiet "a" switched⟩

end Exchange

end DerivedColumns
