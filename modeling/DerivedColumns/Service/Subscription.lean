import DerivedColumns.Json.Writer

set_option autoImplicit false

namespace DerivedColumns

abbrev Notification := List String

/-- What a receiver of a broadcast channel takes: a notification, or how many it has missed. -/
inductive Delivery where
  | message (names : Notification)
  | lagged (missed : Nat)
deriving DecidableEq

/-- A broadcast channel, told from all notifications in the order in which they were sent. A receiver is
registered and then takes one delivery after the other, none when there is none for now. -/
structure Channel (Receiver : Type) where
  register : List Notification → Receiver
  next? : Receiver → List Notification → Option (Delivery × Receiver)

def backlog : Nat := 64

/-- A receiver knows how many notifications it has passed. Of those since, only the last can still be had. -/
def Channel.bounded : Channel Nat where
  register sent := sent.length
  next? passed sent :=
    let missed := sent.length - backlog - passed
    if missed = 0 then sent[passed]?.map fun names => (.message names, passed + 1)
    else some (.lagged missed, passed + missed)

inductive Event where
  | columns (names : List String)
  | changed (names : Notification)
  | lagged (missed : Nat)
deriving DecidableEq

namespace Event

def ofDelivery : Delivery → Event
  | .message names => .changed names
  | .lagged missed => .lagged missed

def name : Event → String
  | .columns _ => "columns"
  | .changed _ => "changed"
  | .lagged _ => "lagged"

def content : Event → String
  | .columns names => (Json.strings names).text
  | .changed names => (Json.strings names).text
  | .lagged missed => toString missed

def text (e : Event) : String := "event: " ++ e.name ++ "\ndata: " ++ e.content ++ "\n\n"

end Event

/-- The events of a subscriber: the calculated columns when it subscribed, until they have been told, and
then what its receiver takes. -/
structure Feed (Receiver : Type) where
  opening : Option (List String)
  receiver : Receiver
deriving DecidableEq

namespace Feed

variable {Receiver : Type}

def next? (C : Channel Receiver) (f : Feed Receiver) (sent : List Notification) :
    Option (Event × Feed Receiver) :=
  match f.opening with
  | some columns => some (.columns columns, { f with opening := none })
  | none => (C.next? f.receiver sent).map fun (delivery, receiver) =>
    (.ofDelivery delivery, { f with receiver })

def take (C : Channel Receiver) (f : Feed Receiver) (sent : List Notification) :
    Nat → List Event × Feed Receiver
  | 0 => ([], f)
  | n + 1 =>
    match f.next? C sent with
    | none => ([], f)
    | some (event, rest) =>
      let (events, rest) := rest.take C sent n
      (event :: events, rest)

end Feed

abbrev Subscription := Feed Nat

def Subscription.read (s : Subscription) (sent : List Notification) : List Event × Subscription :=
  s.take .bounded sent (sent.length + 2)

end DerivedColumns
