import Fanout.Reply
import Fanout.Sink
import Fanout.Trace

/-! # The world of relays

Everything that a moment of a run consists of: a clock in milliseconds, the relays with
their buses and listeners, all subscribers ever registered with their queues and workers,
and the shutdown calls. Relays, subscribers and calls are numbered in order of creation
and never go away, so a number is an identity. Beside them the world keeps the names under
which host and sinks refer to relays and handles, and a journal of what happened.
-/
namespace Fanout

/-- What an unfinished delivery waits for. -/
inductive Wait where
  | turn
  | until (time : Nat)
  | forever
  | call (index : Nat)
deriving DecidableEq, Repr

structure Delivery where
  message : Message
  wait : Wait
  rest : List Action
  deadline : Option Nat

/-- What the worker of a subscriber is doing. -/
inductive Phase where
  | idle
  | delivering (d : Delivery)
  | stopped
  /-- Taken down by a panic that no guard caught. -/
  | crashed

def Phase.live : Phase → Bool
  | .idle | .delivering _ => true
  | .stopped | .crashed => false

structure Subscriber where
  relay : Nat
  /-- The name of the relay in the registering call, which the sink's own calls use. -/
  relayName : String
  sink : Sink
  /-- What the sink called itself when it was registered. -/
  name : String
  capacity : Nat
  queue : List Message := []
  cancelled : Bool := false
  begun : Nat := 0
  phase : Phase := .idle

namespace Subscriber

def live (s : Subscriber) : Bool := s.phase.live
def isFull (s : Subscriber) : Bool := s.capacity ≤ s.queue.length

end Subscriber

inductive ListenerPhase where
  | receiving
  /-- In the middle of a call of its observer, which may end in a panic. -/
  | calling (wake : Nat) (panic : Option Panic)
  | stopped
  /-- Taken down by a panic that no guard caught. -/
  | crashed
deriving DecidableEq, Repr

def ListenerPhase.live : ListenerPhase → Bool
  | .receiving | .calling .. => true
  | .stopped | .crashed => false

/-- A listener feeds one observer from the bus. -/
structure Listener where
  observer : Observer
  next : Nat := 0
  /-- It has seen the order to stop and reads what the bus still holds. -/
  leaving : Bool := false
  phase : ListenerPhase := .receiving

def Listener.live (l : Listener) : Bool := l.phase.live

structure Relay where
  config : Config
  bus : Bus
  closed : Bool := false
  /-- The active subscribers, in order of registration. -/
  active : List SubscriberId := []
  listeners : List Listener := []
  stopping : Bool := false

inductive CallPhase where
  | draining (deadline : Nat)
  /-- Grace ran out with this many workers left; they are being stopped. -/
  | cancelling (pending : Nat)
  /-- The workers are gone; the listeners finish. -/
  | flushing (result : Option RelayError)
  | returned (result : Option RelayError)
  | dropped
deriving DecidableEq, Repr

def CallPhase.pending : CallPhase → Bool
  | .draining _ | .cancelling _ | .flushing _ => true
  | .returned _ | .dropped => false

/-- A call of shutdown. One that a delivery makes belongs to it and goes on only with it. -/
structure Call where
  relay : Nat
  owner : Option SubscriberId
  phase : CallPhase
deriving Repr

/-- A line in the record that a sink keeps of its deliveries. -/
inductive Row where
  | started (m : Message)
  | returned (error : Option SinkError)
  | aborted
  | called (action : String) (reply : Reply)
deriving Repr

/-- What became of a delivery in the eyes of its worker. -/
inductive Conclusion where
  | delivered
  | fault (f : SinkFault)
  | cancelled
  | crashed
deriving DecidableEq, Repr

/-- An entry of the journal. -/
inductive Note where
  /-- A message entered the queue of a subscriber. -/
  | accepted (id : SubscriberId) (m : Message)
  | row (id : SubscriberId) (time : Nat) (row : Row)
  | concluded (id : SubscriberId) (how : Conclusion)
  | traced (t : Trace)
  /-- The host made an event of its own, which is on no bus. -/
  | made (e : Event)
  /-- The observer of listener `i` of relay `r` was called with an event. -/
  | observed (r i : Nat) (e : Event)
  /-- The listener found that so many events were gone before it read them. -/
  | missed (r i count : Nat)
  | observerPanicked (r i : Nat) (p : Panic)
deriving Repr

structure World where
  now : Nat := 0
  nextSeq : Nat := 0
  relays : Array Relay := #[]
  subscribers : Array Subscriber := #[]
  calls : Array Call := #[]
  relayNames : List (String × Nat) := []
  handles : List (String × Handle) := []
  journal : Array Note := #[]
  /-- The relays whose lock was held by a call that panicked. -/
  poisoned : List Nat := []

namespace World

def relay? (w : World) (r : Nat) : Option Relay := w.relays[r]?
def subscriber? (w : World) (id : SubscriberId) : Option Subscriber := w.subscribers[id.serial]?
def call? (w : World) (c : Nat) : Option Call := w.calls[c]?
def relayNamed? (w : World) (name : String) : Option Nat := w.relayNames.lookup name
def listener? (w : World) (r i : Nat) : Option Listener :=
  (w.relay? r).bind (·.listeners[i]?)
def observer? (w : World) (r i : Nat) : Option Observer := (w.listener? r i).map (·.observer)
def handleNamed? (w : World) (name : String) : Option Handle := w.handles.lookup name

/-- A relay exists as long as a name or an unfinished shutdown call refers to it. -/
def relayExists (w : World) (r : Nat) : Bool :=
  w.relayNames.any (·.2 == r) || w.calls.any fun c => c.relay == r && c.phase.pending

def liveWorkers (w : World) (r : Nat) : Nat :=
  w.subscribers.countP fun s => s.relay == r && s.live

/-- The bus ends when neither the relay nor a worker of it is left to publish. -/
def busClosed (w : World) (r : Nat) : Bool := !w.relayExists r && w.liveWorkers r == 0

/-- Takes the lock of a relay; an error tells that a panic has gone through it. -/
def lock? (w : World) (r : Nat) : Option (Except Relay Relay) :=
  (w.relay? r).map fun q => if w.poisoned.contains r then .error q else .ok q

/-- A relay as who holds its lock sees it. What a panic has left behind is as good as ever. -/
def locked? (w : World) (r : Nat) : Option Relay :=
  (w.lock? r).map fun
    | .ok q => q
    | .error q => q

@[simp] theorem locked?_eq (w : World) (r : Nat) : w.locked? r = w.relay? r := by
  rw [locked?, lock?]
  cases w.relay? r with
  | none => rfl
  | some q => cases w.poisoned.contains r <;> rfl

def isActive (w : World) (r : Nat) (id : SubscriberId) : Bool :=
  ((w.locked? r).map fun q => q.active.contains id).getD false

def isFed (w : World) (id : SubscriberId) : Bool :=
  match w.subscriber? id with
  | some s => w.relayExists s.relay && w.isActive s.relay id
  | none => false

def nameOf (w : World) (id : SubscriberId) : String :=
  ((w.subscriber? id).map (·.name)).getD ""

def keyOf (w : World) (id : SubscriberId) : String :=
  ((w.subscriber? id).map (·.sink.key)).getD ""

def note (w : World) (n : Note) : World := { w with journal := w.journal.push n }
def trace (w : World) (t : Trace) : World := w.note (.traced t)
def row (w : World) (id : SubscriberId) (r : Row) : World := w.note (.row id w.now r)

def modifyRelay (w : World) (r : Nat) (f : Relay → Relay) : World :=
  { w with relays := w.relays.modify r f }

def modifySubscriber (w : World) (id : SubscriberId) (f : Subscriber → Subscriber) : World :=
  { w with subscribers := w.subscribers.modify id.serial f }

def modifyCall (w : World) (c : Nat) (f : Call → Call) : World :=
  { w with calls := w.calls.modify c f }

def poison (w : World) (r : Nat) : World := { w with poisoned := r :: w.poisoned }

/-- Stamps a report with the next sequence number and puts it on a bus. -/
def emit (w : World) (r : Nat) (d : Event.Draft) : World :=
  { w.modifyRelay r (fun q => { q with bus := q.bus.push (d.stamp w.nextSeq w.now) }) with
    nextSeq := w.nextSeq + 1 }

def make (w : World) (d : Event.Draft) : World × Event :=
  let e := d.stamp w.nextSeq w.now
  ({ w with nextSeq := w.nextSeq + 1 }.note (.made e), e)

def makeAll (w : World) : List Event.Draft → List Event
  | [] => []
  | d :: rest =>
    let (w, e) := w.make d
    e :: w.makeAll rest

def maxSeconds : Nat := 9223372036854775807

/-- The earliest whole millisecond at which a duration from now is over. A duration that no
clock can hold ends in the far future, some thirty years ahead. -/
def after (w : World) (d : Duration) : Nat :=
  if maxSeconds < d.seconds then w.now + 946080000000 else w.now + d.millisUp

end World
end Fanout
