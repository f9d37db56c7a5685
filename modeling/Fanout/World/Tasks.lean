import Fanout.World.Delivering
import Fanout.World.Listening

/-! # Tasks

What one thread shares its time between: the shutdown calls, the listeners and the workers.
A call that belongs to a delivery is no task of its own. A world in which no task can make
a step is quiet, and only then does time pass, no further than to the next timer.
-/
namespace Fanout

inductive Task where
  | call (c : Nat)
  | listener (r i : Nat)
  | worker (id : SubscriberId)
deriving DecidableEq, Repr

def Phase.delivery? : Phase → Option Delivery
  | .delivering d => some d
  | _ => none

/-- The moments a delivery waits for. -/
def Delivery.timers (d : Delivery) : List Nat :=
  (match d.wait with
    | .until time => [time]
    | _ => []) ++ d.deadline.toList

def CallPhase.timer? : CallPhase → Option Nat
  | .draining deadline => some deadline
  | _ => none

def ListenerPhase.timer? : ListenerPhase → Option Nat
  | .calling wake _ => some wake
  | _ => none

namespace World

/-- Calls come first, then listeners, then workers, each in order of creation. -/
def tasks (w : World) : List Task :=
  (List.range w.calls.size).map .call ++
  (List.range w.relays.size).flatMap (fun r =>
    (List.range (((w.relay? r).map (·.listeners.length)).getD 0)).map (.listener r)) ++
  (List.range w.subscribers.size).map (.worker ⟨·⟩)

def ready (w : World) : Task → Bool
  | .call c => w.isHosted c && w.callReady c
  | .listener r i => w.listenerReady r i
  | .worker id => w.workerReady id

def step (w : World) : Task → World
  | .call c => w.stepCall c
  | .listener r i => w.stepListener r i
  | .worker id => w.stepWorker id

def quiet (w : World) : Bool := !w.tasks.any w.ready

def timers (w : World) : List Nat :=
  (w.subscribers.toList.filterMap (·.phase.delivery?)).flatMap Delivery.timers ++
  w.calls.toList.filterMap (·.phase.timer?) ++
  w.relays.toList.flatMap (fun q => q.listeners.filterMap (·.phase.timer?))

/-- The next timer after now. -/
def nextTimer? (w : World) : Option Nat := (w.timers.filter (w.now < ·)).min?

def jump (w : World) (time : Nat) : World := { w with now := max w.now time }

end World
end Fanout
