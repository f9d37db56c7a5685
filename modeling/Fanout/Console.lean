import Fanout.World.Schedule

/-! # The console of a host

A host works with names: of relays, handles, receivers and shutdown jobs. Its commands
return before any other task runs, except those that let time pass. Unknown relays are
noticed before unknown handles.
-/
namespace Fanout

/-- A reader of a bus in the hands of the host. It is told once that the bus has ended. -/
structure Receiver where
  relay : Nat
  next : Nat
  finished : Bool := false
deriving Repr

structure Console where
  world : World := {}
  receivers : List (String × Receiver) := []
  /-- For each built relay a receiver from its first event on. -/
  taps : List (String × Receiver) := []
  jobs : List (String × Nat) := []

inductive Command where
  | build (relay : String) (config : Config) (observers : List Observer)
  | clone (relay copy : String)
  | dropRelay (relay : String)
  | config (relay : String)
  | register (relay : String) (sink : Sink)
  | unregister (relay handle : String)
  | remove (handle : String)
  | dropHandle (handle : String)
  | isActive (relay handle : String)
  | describe (handle : String)
  | publish (relay : String) (payload : Value)
  | publishMany (relay : String) (count : Nat)
  | count (relay : String)
  | subscribers (relay : String)
  | receive (relay receiver : String)
  | drain (receiver : String)
  | settle
  | advance (ms : Nat)
  | shutdown (relay : String)
  | shutdownWithin (relay : String) (ms : Nat)
  | spawnShutdown (relay job : String)
  | isDone (job : String)
  | join (job : String)

namespace World

/-- The active subscribers by name; those of one name by registration. -/
def listing (w : World) (relay : Relay) : List (String × SubscriberId) :=
  (relay.active.map fun id => (w.nameOf id, id)).mergeSort fun a b => a.1 ≤ b.1

def receive (w : World) (x : Receiver) : List Bus.Mark × Receiver :=
  match w.relay? x.relay with
  | none => ([], x)
  | some relay =>
    let (marks, next) := relay.bus.drain x.next (relay.bus.size - x.next + 1)
    if w.busClosed x.relay && !x.finished then
      (marks ++ [.closed], { x with next := next, finished := true })
    else (marks, { x with next := next })

end World

namespace Console

def put {α : Type} (name : String) (a : α) (l : List (String × α)) : List (String × α) :=
  (name, a) :: l.filter (·.1 != name)

def receiverAt (w : World) (r : Nat) : Receiver :=
  ⟨r, ((w.relay? r).map (·.bus.size)).getD 0, false⟩

def withRelay (c : Console) (name : String) (f : Nat → Console × Reply) : Console × Reply :=
  match c.world.relayNamed? name with
  | some r => f r
  | none => (c, .noRelay)

def inWorld (c : Console) (r : World × Reply) : Console × Reply := ({ c with world := r.1 }, r.2)

def settled (c : Console) : Console := { c with world := c.world.settle }

def replyTo (w : World) (call : Nat) : Reply := (w.result? call).elim .cancelled .ofShutdown

def shutdown (c : Console) (r : Nat) (limit : Option Nat) : Console × Reply :=
  let (w, call) := c.world.beginShutdown r none
  let w := w.await call limit
  ({ c with world := w }, replyTo w call)

def numbered (n : Nat) : Message := Message.empty.set "n" (.ofNat n)

def publishMany (w : World) (r : Nat) (count : Nat) : World :=
  (List.range count).foldl (fun w n => w.publish r (numbered n)) w

def perform (c : Console) : Command → Console × Reply
  | .build name config observers =>
    match c.world.build name config observers with
    | (w, .config config) =>
      let tap := put name ⟨c.world.relays.size, 0, false⟩ c.taps
      ({ c with world := w, taps := tap }, .config config)
    | (w, reply) => ({ c with world := w }, reply)
  | .clone name copy =>
    c.withRelay name fun r => c.inWorld (c.world.nameRelay copy r, .nothing)
  | .dropRelay name =>
    c.inWorld (c.world.forgetRelay name, .flag (c.world.relayNamed? name).isSome)
  | .config name =>
    c.withRelay name fun r =>
      (c, ((c.world.relay? r).map fun q => Reply.config q.config).getD .noRelay)
  | .register name sink => c.withRelay name fun r => c.inWorld (c.world.registerNamed r name sink)
  | .unregister name h => c.withRelay name fun r => c.inWorld (c.world.unregisterNamed r h)
  | .remove h => c.inWorld (c.world.removeNamed h)
  | .dropHandle h => c.inWorld (c.world.forgetHandle h, .flag (c.world.handleNamed? h).isSome)
  | .isActive name h => c.withRelay name fun r => c.inWorld (c.world.isActiveNamed r h)
  | .describe h =>
    c.inWorld (c.world.withHandle h fun h => (c.world, .handle h))
  | .publish name payload =>
    c.withRelay name fun r =>
      match Message.ofValue? payload with
      | .ok m => c.inWorld (c.world.publish r m, .nothing)
      | .error e => (c, .failed e)
  | .publishMany name count =>
    c.withRelay name fun r => c.inWorld (publishMany c.world r count, .nothing)
  | .count name => c.withRelay name fun r => (c, .count (c.world.countOf r))
  | .subscribers name =>
    c.withRelay name fun r =>
      (c, ((c.world.locked? r).map fun q => Reply.listing (c.world.listing q)).getD .noRelay)
  | .receive name rx =>
    c.withRelay name fun r =>
      ({ c with receivers := put rx (receiverAt c.world r) c.receivers }, .nothing)
  | .drain rx =>
    match c.receivers.lookup rx with
    | none => (c, .marks [])
    | some x =>
      let (marks, x) := c.world.receive x
      ({ c with receivers := put rx x c.receivers }, .marks marks)
  | .settle => (c.settled, .nothing)
  | .advance ms =>
    c.inWorld (c.world.advance ms, .nothing)
  | .shutdown name => c.withRelay name fun r => c.shutdown r none
  | .shutdownWithin name ms => c.withRelay name fun r => c.shutdown r (some (c.world.now + ms))
  | .spawnShutdown name job =>
    c.withRelay name fun r =>
      let (w, call) := c.world.beginShutdown r none
      ({ c with world := w, jobs := put job call c.jobs }.settled, .nothing)
  | .isDone job =>
    (c, .flag (((c.jobs.lookup job).map fun call => (c.world.result? call).isSome).getD false))
  | .join job =>
    match c.jobs.lookup job with
    | none => (c, .nothing)
    | some call =>
      let w := c.world.await call none
      ({ c with world := w }, replyTo w call)

end Console
end Fanout
