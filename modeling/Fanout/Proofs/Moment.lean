import Mathlib.Logic.Relation
import Fanout.World.Run

/-! # Moments of a run

One move of a run may do many things: a worker that takes its turn begins a delivery, whose code
calls the relay any number of times before it waits. A moment is a point between two such things, a
transition is one of them. Every call of a relay is a transition of its own, whether the host makes
it or the code of a delivery.
-/
namespace Fanout

/-- A slice of a delivery that has the thread: from the moment when its worker turns to it until it
ends or waits. -/
structure Slice where
  id : SubscriberId
  relay : Nat
  message : Message
  deadline : Option Nat
  call : Option Nat := none

structure Publication where
  world : World
  relay : Nat
  message : Message

structure Moment where
  world : World
  slice : Option Slice := none
  published : List Publication := []

def Wait.call? : Wait → Option Nat
  | .call c => some c
  | _ => none

def SinkFault.isOwn : SinkFault → Bool
  | .failed _ | .panicked _ => true
  | _ => false

/-- How a slice may come out: it ends outside of any shutdown call of its own, or it waits, and then
for the call that it is in. -/
def Outcome.Fits (l : Slice) : Outcome → Prop
  | .ended none => l.call = none
  | .ended (some f) => l.call = none ∧ f.isOwn = true
  | .waits wait _ => wait.call? = l.call
  | .crashed => False

/-- A bare sink that panics at once takes the worker down with the delivery. -/
def Sink.BringsDown (s : Sink) (delivery : Nat) : Prop :=
  s.style = .bare ∧ ∃ rest, s.actions delivery = .panicAtStart :: rest

def Row.isPlain : Row → Bool
  | .returned _ | .called .. => true
  | .started _ | .aborted => false

/-- Notes that tell of no delivery and of no queue. -/
def Note.sparesDeliveries : Note → Bool
  | .traced _ | .made _ | .observed .. | .missed .. | .observerPanicked .. => true
  | .accepted .. | .row .. | .concluded .. => false

/-- A relay without its listeners. -/
def Relay.core (q : Relay) : Relay := { q with listeners := [] }

namespace World

/-- Only names, listeners, the clock and the counter of events differ. A relay that exists
no more does not come back. -/
structure SameCore (w v : World) : Prop where
  subscribers : v.subscribers = w.subscribers
  calls : v.calls = w.calls
  relays : ∀ r, (v.relay? r).map Relay.core = (w.relay? r).map Relay.core
  journal : ∃ ns, v.journal.toList = w.journal.toList ++ ns ∧ ∀ n ∈ ns, n.sparesDeliveries = true
  existence : ∀ r, v.relayExists r = true → w.relayExists r = true
  clock : w.now ≤ v.now
  count : w.nextSeq ≤ v.nextSeq

end World

/-- A call of shutdown goes on with the host, or within the delivery that made it. -/
def Moment.Drives (a : Moment) (c : Nat) : Prop :=
  match a.slice with
  | none => a.world.isHosted c = true
  | some l => l.call = some c

namespace Moment

def publish (a : Moment) (r : Nat) (m : Message) : Moment :=
  { a with
    world := a.world.publish r m
    published := a.published ++ [⟨a.world, r, m⟩] }

/-- The call of shutdown itself, which does not wait yet. A delivery that makes it is in it. -/
def shutdown (a : Moment) (r : Nat) : Moment :=
  { a with
    world := a.world.openCall r (a.slice.map (·.id))
    slice := a.slice.map ({ · with call := some a.world.calls.size }) }

end Moment

inductive Transition : Moment → Moment → Prop where
  | sameCore {a : Moment} {v : World} : a.world.SameCore v → Transition a { a with world := v }
  | build {a : Moment} (name : String) (config : Config) (observers : List Observer) :
    Transition a { a with world := (a.world.build name config observers).1 }
  | register {a : Moment} (r : Nat) (relayName : String) (sink : Sink) :
    a.world.relayExists r = true →
    Transition a { a with world := (a.world.register r relayName sink).1 }
  | unregister {a : Moment} (r : Nat) (id : SubscriberId) : a.world.relayExists r = true →
    Transition a { a with world := (a.world.unregister r id).1 }
  | publish {a : Moment} (r : Nat) (m : Message) : a.world.relayExists r = true →
    Transition a (a.publish r m)
  | shutdown {a : Moment} (r : Nat) : a.world.relayExists r = true →
    (∀ l ∈ a.slice, l.call = none) → Transition a (a.shutdown r)
  | call {a : Moment} (c : Nat) : a.Drives c → Transition a { a with world := a.world.stepCall c }
  | giveUp {a : Moment} (c : Nat) : Transition a { a with world := a.world.giveUp c }
  | begin {a : Moment} {id : SubscriberId} {s : Subscriber} {m : Message}
    {queue : List Message} : a.slice = none → a.world.subscriber? id = some s →
    s.phase = .idle → s.cancelled = false → s.queue = m :: queue →
    Transition a { a with
      world := a.world.take id m queue
      slice := some ⟨id, s.relay, m, a.world.deadlineFor s.relay, none⟩ }
  /-- The worker begins a delivery and goes down with it. -/
  | crash {a : Moment} {id : SubscriberId} {s : Subscriber} {m : Message}
    {queue : List Message} : a.slice = none → a.world.subscriber? id = some s →
    s.phase = .idle → s.cancelled = false → s.queue = m :: queue → s.sink.BringsDown s.begun →
    Transition a { a with world := (a.world.take id m queue).crash id }
  | poll {a : Moment} {id : SubscriberId} {s : Subscriber} {d : Delivery} : a.slice = none →
    a.world.subscriber? id = some s → s.phase = .delivering d → s.cancelled = false →
    Transition a { a with slice := some ⟨id, s.relay, d.message, d.deadline, d.wait.call?⟩ }
  | row {a : Moment} {l : Slice} (row : Row) : a.slice = some l → row.isPlain = true →
    Transition a { a with world := a.world.row l.id row }
  | back {a : Moment} {l : Slice} {c : Nat} : a.slice = some l → l.call = some c →
    (a.world.result? c).isSome = true →
    Transition a { a with slice := some { l with call := none } }
  | conclude {a : Moment} {l : Slice} (o : Outcome) : a.slice = some l → o.Fits l →
    Transition a { a with
      world := a.world.conclude l.id l.relay l.message l.deadline o
      slice := none }
  /-- The worker has been told to stop and lets go of its delivery. -/
  | abort {a : Moment} {id : SubscriberId} {s : Subscriber} {d : Delivery} : a.slice = none →
    a.world.subscriber? id = some s → s.phase = .delivering d → s.cancelled = true →
    Transition a { a with
      world := ((a.world.abandon id d.wait).note (.concluded id .cancelled)).stopWorker id }
  | stop {a : Moment} {id : SubscriberId} {s : Subscriber} : a.slice = none →
    a.world.subscriber? id = some s → s.phase = .idle →
    (s.cancelled = true ∨ s.queue = [] ∧ a.world.isFed id = false) →
    Transition a { a with world := a.world.stopWorker id }

abbrev Transitions : Moment → Moment → Prop := Relation.ReflTransGen Transition

/-- The moments of all runs from the empty world on. -/
def Moment.Reached (a : Moment) : Prop := Transitions ⟨{}, none, []⟩ a

theorem Moment.Reached.trans {a b : Moment} (h : a.Reached) (k : Transitions a b) : b.Reached :=
  Relation.ReflTransGen.trans h k

theorem Moment.Reached.tail {a b : Moment} (h : a.Reached) (k : Transition a b) : b.Reached :=
  Relation.ReflTransGen.tail h k

end Fanout
