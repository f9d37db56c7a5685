import Fanout.World

/-! # Membership

Building relays, registering and removing subscribers. None of it lets any other task run.
-/
namespace Fanout.World

/-- The largest ring a bus can be asked for: half of what 64 bits hold. -/
def maxBusCapacity : Nat := 9223372036854775807

def nameRelay (w : World) (name : String) (r : Nat) : World :=
  { w with relayNames := (name, r) :: w.relayNames.filter (·.1 != name) }

def forgetRelay (w : World) (name : String) : World :=
  { w with relayNames := w.relayNames.filter (·.1 != name) }

/-- Every observer listens from the first event on. -/
def build (w : World) (name : String) (config : Config) (observers : List Observer) :
    World × Reply :=
  if maxBusCapacity < config.busCapacity then
    (w, .panicked "broadcast channel capacity exceeded \x60usize::MAX / 2\x60")
  else
    let relay : Relay :=
      { config := config, bus := .ofCapacity config.busCapacity
        listeners := observers.map fun o => { observer := o } }
    let r := w.relays.size
    (({ w with relays := w.relays.push relay }).nameRelay name r, .config config)

def nameHandle (w : World) (name : String) (h : Handle) : World :=
  { w with handles := (name, h) :: w.handles.filter (·.1 != name) }

def forgetHandle (w : World) (name : String) : World :=
  { w with handles := w.handles.filter (·.1 != name) }

/-- The longest queue a subscriber can have: what 61 bits hold. -/
def maxQueueCapacity : Nat := 2305843009213693951

/-- The queue that a sink gets: at least one place, and no more than a queue can have. -/
def queueCapacity? : Capacity → Except String Nat
  | .panics => .error "capacity panicked"
  | .size n =>
    if maxQueueCapacity < max n 1 then
      .error ("a semaphore may not have more than MAX_PERMITS permits (" ++
        maxQueueCapacity.repr ++ ")")
    else .ok (max n 1)

/-- A new subscriber of an open relay becomes active and gets an idle worker. -/
def enroll (w : World) (r : Nat) (s : Subscriber) : World :=
  let id : SubscriberId := ⟨w.subscribers.size⟩
  let w := { w with subscribers := w.subscribers.push s }
  let w := w.modifyRelay r fun q => { q with active := q.active ++ [id] }
  (w.trace (.registered s.name id)).emit r (.registered s.name id)

/-- A closed relay takes no subscriber: the new one is already gone. -/
def turnAway (w : World) (r : Nat) (relayName : String) (sink : Sink) (name : String) : World :=
  let gone : Subscriber :=
    { relay := r, relayName := relayName, sink := sink, name := name, capacity := 1
      cancelled := true, phase := .stopped }
  { w with subscribers := w.subscribers.push gone }.trace (.registrationIgnored name)

/-- A sink is asked for its name first, whatever becomes of it. Its capacity is asked for, and
its queue made, with the lock held. -/
def register (w : World) (r : Nat) (relayName : String) (sink : Sink) :
    World × Except String Handle :=
  let id : SubscriberId := ⟨w.subscribers.size⟩
  match sink.name with
  | .panics p => (w, .error p.info)
  | .given name =>
    match w.locked? r with
    | none => (w, .error "")
    | some relay =>
      if relay.closed then (w.turnAway r relayName sink name, .ok ⟨id, name, none⟩)
      else
        match queueCapacity? sink.capacity with
        | .error info => (w.poison r, .error info)
        | .ok capacity =>
          (w.enroll r
              { relay := r, relayName := relayName, sink := sink, name := name
                capacity := capacity },
            .ok ⟨id, name, some r⟩)

/-- A subscriber is active no more and its worker is told to stop. -/
def withdraw (w : World) (r : Nat) (id : SubscriberId) : World :=
  let name := w.nameOf id
  let w := w.modifyRelay r fun q => { q with active := q.active.erase id }
  let w := w.modifySubscriber id fun s => { s with cancelled := true }
  (w.trace (.unregistered name id)).emit r (.unregistered name id)

def unregister (w : World) (r : Nat) (id : SubscriberId) : World × Bool :=
  if w.isActive r id then (w.withdraw r id, true) else (w.trace (.unregisterIgnored id), false)

/-- A handle removes its subscriber from the relay that issued it, if that still exists. -/
def remove (w : World) (h : Handle) : World × Bool :=
  match h.relay with
  | some r => if w.relayExists r then w.unregister r h.id else (w, false)
  | none => (w, false)

end Fanout.World
