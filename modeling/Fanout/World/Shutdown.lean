import Fanout.World

/-! # Shutdown

The first call closes the relay: every subscriber is removed, but its worker may finish
what is queued until grace runs out. Then the listeners finish. Any later call returns at
once. A call is an object of its own that goes on step by step and may be dropped midway.
-/
namespace Fanout.World

/-- Removes all subscribers without stopping their workers. -/
def close (w : World) (r : Nat) (relay : Relay) : World :=
  let w := w.modifyRelay r fun q => { q with closed := true, active := [] }
  let w := w.emit r ⟨.shutdownRequested, []⟩
  relay.active.foldl (fun w id => w.emit r (.unregistered (w.nameOf id) id)) w

/-- Tells every worker that the relay ever had to stop. -/
def cancelAll (w : World) (r : Nat) : World :=
  { w with subscribers := w.subscribers.map fun s =>
      if s.relay == r then { s with cancelled := true } else s }

def setPhase (w : World) (c : Nat) (p : CallPhase) : World :=
  w.modifyCall c fun k => { k with phase := p }

/-- The workers are gone: says how it went and orders the listeners to stop. -/
def flush (w : World) (c r : Nat) (report : Event.Draft) (result : Option RelayError) : World :=
  let w := w.emit r report
  let w := w.modifyRelay r fun q => { q with stopping := true }
  w.setPhase c (.flushing result)

def listenersStopped (w : World) (r : Nat) : Bool :=
  ((w.relay? r).map fun q => q.listeners.all (!·.live)).getD true

def graceOf (w : World) (r : Nat) : Duration :=
  ((w.relay? r).map (·.config.grace)).getD .zero

/-- One step of a call, if it can make one. Drained workers count before the deadline. -/
def stepCall (w : World) (c : Nat) : World :=
  match w.call? c with
  | none => w
  | some k =>
    match k.phase with
    | .draining deadline =>
      let pending := w.liveWorkers k.relay
      if pending = 0 then w.flush c k.relay ⟨.allDrainedWithin, []⟩ none
      else if deadline ≤ w.now then (w.cancelAll k.relay).setPhase c (.cancelling pending)
      else w
    | .cancelling pending =>
      if w.liveWorkers k.relay = 0 then
        w.flush c k.relay (.graceExceeded pending)
          (some (.graceExceeded (w.graceOf k.relay) pending))
      else w
    | .flushing result =>
      if w.listenersStopped k.relay then w.setPhase c (.returned result) else w
    | .returned _ | .dropped => w

/-- A call goes on until it has to wait. It passes at most two of its waits at once: a drain
that ends and listeners that are all done. -/
def driveCall (w : World) (c : Nat) : World := (w.stepCall c).stepCall c

/-- A new call. The first one for a relay closes it; any other has returned already. -/
def openCall (w : World) (r : Nat) (owner : Option SubscriberId) : World :=
  match w.locked? r with
  | none => w
  | some relay =>
    if relay.closed then { w with calls := w.calls.push ⟨r, owner, .returned none⟩ }
    else
      let call : Call := ⟨r, owner, .draining (w.after relay.config.grace)⟩
      let w := w.close r relay
      { w with calls := w.calls.push call }

def beginShutdown (w : World) (r : Nat) (owner : Option SubscriberId) : World × Nat :=
  ((w.openCall r owner).driveCall w.calls.size, w.calls.size)

def result? (w : World) (c : Nat) : Option (Option RelayError) :=
  match w.call? c with
  | some ⟨_, _, .returned result⟩ => some result
  | _ => none

def dropCall (w : World) (c : Nat) : World :=
  w.modifyCall c fun k => if k.phase.pending then { k with phase := .dropped } else k

def isHosted (w : World) (c : Nat) : Bool := (w.call? c).any (·.owner.isNone)

/-- The host can drop its own calls only. -/
def giveUp (w : World) (c : Nat) : World := if w.isHosted c then w.dropCall c else w

def callReady (w : World) (c : Nat) : Bool :=
  match w.call? c with
  | none => false
  | some k =>
    match k.phase with
    | .draining deadline => w.liveWorkers k.relay == 0 || deadline ≤ w.now
    | .cancelling _ => w.liveWorkers k.relay == 0
    | .flushing _ => w.listenersStopped k.relay
    | .returned _ | .dropped => false

end Fanout.World
