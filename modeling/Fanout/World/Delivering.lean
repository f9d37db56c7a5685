import Fanout.World.Membership
import Fanout.World.Publishing
import Fanout.World.Shutdown

/-! # Delivering

The worker of a subscriber takes messages from its queue, one at a time. Whatever a delivery
does in one go, until it ends or has to wait, is one step; so is taking up a delivery again
after its wait. Before each step the order to stop counts first, and a delivery that could go
on counts before its own deadline.
-/
namespace Fanout

/-- What one action does to its delivery. -/
inductive Effect where
  | proceed
  | ends (fault : Option SinkFault)
  | waits (wait : Wait)

/-- Where a delivery stands after a step. -/
inductive Outcome where
  | ended (fault : Option SinkFault)
  | crashed
  | waits (wait : Wait) (rest : List Action)

namespace World

/-- A registration also keeps the handle under the key of the sink. -/
def registerNamed (w : World) (r : Nat) (relayName : String) (sink : Sink) : World × Reply :=
  match w.register r relayName sink with
  | (w, .error info) => (w, .panicked info)
  | (w, .ok h) =>
    (w.nameHandle sink.key h, .registered h.name sink.announced (w.isActive r h.id))

def withHandle (w : World) (name : String) (f : Handle → World × Reply) : World × Reply :=
  match w.handleNamed? name with
  | some h => f h
  | none => (w, .noHandle)

def unregisterNamed (w : World) (r : Nat) (handle : String) : World × Reply :=
  w.withHandle handle fun h => let (w, b) := w.unregister r h.id; (w, .flag b)

def removeNamed (w : World) (handle : String) : World × Reply :=
  w.withHandle handle fun h => let (w, b) := w.remove h; (w, .flag b)

def isActiveNamed (w : World) (r : Nat) (handle : String) : World × Reply :=
  w.withHandle handle fun h => (w, .flag (w.isActive r h.id))

def countOf (w : World) (r : Nat) : Nat := ((w.locked? r).map (·.active.length)).getD 0

/-- The relay that now has the name a sink was registered with. -/
def home? (w : World) (id : SubscriberId) : Option (Nat × String) :=
  (w.subscriber? id).bind fun s => (w.relayNamed? s.relayName).map (·, s.relayName)

/-- Calls the relay of a sink and records what came back. -/
def callHome (w : World) (id : SubscriberId) (action : String) (f : Nat → World × Reply) :
    World × Effect :=
  let (w, reply) := match w.home? id with
    | some (r, _) => f r
    | none => (w, .noRelay)
  (w.row id (.called action reply), .proceed)

def act (w : World) (id : SubscriberId) : Action → World × Effect
  | .ok => (w.row id (.returned none), .ends none)
  | .fail error => (w.row id (.returned (some (.fail error))), .ends (some (.failed (.fail error))))
  | .closed => (w.row id (.returned (some .closed)), .ends (some (.failed .closed)))
  | .panic p => (w, .ends (some (.panicked p.info)))
  | .panicAtStart => (w, .ends (some (.panicked "sync panic")))
  | .hang => (w, .waits .forever)
  | .yield => (w, .waits .turn)
  | .sleep ms => (w, if ms = 0 then .proceed else .waits (.until (w.now + ms)))
  | .publish m => w.callHome id "publish" fun r => (w.publish r m, .nothing)
  | .unregister h => w.callHome id "unregister" fun r => w.unregisterNamed r h
  | .remove h =>
    let (w, reply) := w.removeNamed h
    (w.row id (.called "remove" reply), .proceed)
  | .isActive h => w.callHome id "is_active" fun r => w.isActiveNamed r h
  | .count => w.callHome id "count" fun r => (w, .count (w.countOf r))
  | .register sink =>
    match w.home? id with
    | none => (w.row id (.called "register" .noRelay), .proceed)
    | some (r, name) =>
      match w.registerNamed r name sink with
      | (w, .panicked info) => (w, .ends (some (.panicked info)))
      | (w, reply) => (w.row id (.called "register" reply), .proceed)
  | .shutdown =>
    match w.home? id with
    | none => (w.row id (.called "shutdown" .noRelay), .proceed)
    | some (r, _) =>
      let (w, c) := w.beginShutdown r (some id)
      match w.result? c with
      | some result => (w.row id (.called "shutdown" (.ofShutdown result)), .proceed)
      | none => (w, .waits (.call c))

def actAll (w : World) (id : SubscriberId) : List Action → World × Outcome
  | [] => (w.row id (.returned none), .ended none)
  | a :: rest =>
    match w.act id a with
    | (w, .proceed) => w.actAll id rest
    | (w, .ends fault) => (w, .ended fault)
    | (w, .waits wait) => (w, .waits wait rest)

def enter (w : World) (id : SubscriberId) (p : Phase) : World :=
  w.modifySubscriber id fun s => { s with phase := p }

def finish (w : World) (id : SubscriberId) (how : Conclusion) : World :=
  (w.note (.concluded id how)).enter id .idle

def contain (w : World) (id : SubscriberId) (r : Nat) (f : SinkFault) : World :=
  let name := w.nameOf id
  ((w.finish id (.fault f)).trace (.contained name id f)).emit r (.fault name id f)

/-- A worker that exits takes with it whatever is left in its queue. -/
def leave (w : World) (id : SubscriberId) (p : Phase) : World :=
  w.modifySubscriber id fun s => { s with phase := p, queue := [] }

def stopWorker (w : World) (id : SubscriberId) : World :=
  (w.leave id .stopped).trace (.workerStopped (w.nameOf id) id)

def crash (w : World) (id : SubscriberId) : World :=
  (w.note (.concluded id .crashed)).leave id .crashed

/-- Lets go of an unfinished delivery, and of the shutdown call that it waits for. -/
def abandon (w : World) (id : SubscriberId) (wait : Wait) : World :=
  let w := w.row id .aborted
  match wait with
  | .call c => w.dropCall c
  | _ => w

def timeoutOf (w : World) (r : Nat) : Duration :=
  ((w.relay? r).map (·.config.deliveryTimeout)).getD .zero

def overdue (w : World) (deadline : Option Nat) : Bool := deadline.any (· ≤ w.now)

/-- A delivery that has to wait goes on waiting, unless its time is over. -/
def waitOn (w : World) (id : SubscriberId) (r : Nat) (d : Delivery) : World :=
  if w.overdue d.deadline then
    (w.abandon id d.wait).contain id r (.timedOut (w.timeoutOf r))
  else w.enter id (.delivering d)

/-- What becomes of a delivery after a step. -/
def conclude (w : World) (id : SubscriberId) (r : Nat) (m : Message) (deadline : Option Nat) :
    Outcome → World
  | .ended none => w.finish id .delivered
  | .ended (some f) => w.contain id r f
  | .crashed => w.crash id
  | .waits wait rest => w.waitOn id r ⟨m, wait, rest, deadline⟩

def resume (w : World) (id : SubscriberId) (r : Nat) (d : Delivery) : World :=
  let (w, outcome) := w.actAll id d.rest
  w.conclude id r d.message d.deadline outcome

/-- The first step of a delivery. What a bare sink does at the start, no guard catches. -/
def start (w : World) (id : SubscriberId) (style : Style) (actions : List Action) :
    World × Outcome :=
  match style, actions with
  | .bare, .panicAtStart :: _ => (w, .crashed)
  | _, actions => w.actAll id actions

/-- Takes the first message from the queue: its delivery has begun. -/
def take (w : World) (id : SubscriberId) (m : Message) (queue : List Message) : World :=
  (w.modifySubscriber id fun s => { s with queue := queue, begun := s.begun + 1 }).row id
    (.started m)

/-- When a delivery that begins now is over at the latest. -/
def deadlineFor (w : World) (r : Nat) : Option Nat :=
  ((w.relay? r).bind (·.config.deliveryLimit)).map w.after

def begin (w : World) (id : SubscriberId) (s : Subscriber) (m : Message) (queue : List Message) :
    World :=
  let deadline := w.deadlineFor s.relay
  let (w, outcome) := (w.take id m queue).start id s.sink.style (s.sink.actions s.begun)
  w.conclude id s.relay m deadline outcome

/-- Goes on with an unfinished delivery, if what it waits for has come. -/
def proceed (w : World) (id : SubscriberId) (r : Nat) (d : Delivery) : World :=
  match d.wait with
  | .turn => w.resume id r d
  | .until time => if time ≤ w.now then w.resume id r d else w.waitOn id r d
  | .forever => w.waitOn id r d
  | .call c =>
    let w := w.driveCall c
    match w.result? c with
    | some result => (w.row id (.called "shutdown" (.ofShutdown result))).resume id r d
    | none => w.waitOn id r d

def stepWorker (w : World) (id : SubscriberId) : World :=
  match w.subscriber? id with
  | none => w
  | some s =>
    match s.phase with
    | .stopped | .crashed => w
    | .delivering d =>
      if s.cancelled then
        ((w.abandon id d.wait).note (.concluded id .cancelled)).stopWorker id
      else w.proceed id s.relay d
    | .idle =>
      if s.cancelled then w.stopWorker id
      else match s.queue with
        | m :: queue => w.begin id s m queue
        | [] => if w.isFed id then w else w.stopWorker id

def waitOver (w : World) : Wait → Bool
  | .turn => true
  | .until time => time ≤ w.now
  | .forever => false
  | .call c => w.callReady c

def workerReady (w : World) (id : SubscriberId) : Bool :=
  match w.subscriber? id with
  | none => false
  | some s =>
    match s.phase with
    | .stopped | .crashed => false
    | .delivering d => s.cancelled || w.waitOver d.wait || w.overdue d.deadline
    | .idle => s.cancelled || !s.queue.isEmpty || !w.isFed id

end World
end Fanout
