import Fanout.Fault
import Fanout.SubscriberId

/-! # Events

What a relay reports. An event has a kind, a sequence number, the moment it was made and
whatever details were attached to it; attaching the same detail again replaces it.
-/
namespace Fanout

inductive EventKind where
  | subscriberRegistered
  | subscriberUnregistered
  | messagePublished
  | publishedWithoutSubscribers
  | sinkFailed
  | sinkPanicked
  | sinkTimedOut
  | sinkOverflow
  | sinkWorkerGone
  | shutdownRequested
  | allDrainedWithin
  | graceExceeded
deriving DecidableEq, Repr

namespace EventKind

def all : List EventKind :=
  [.subscriberRegistered, .subscriberUnregistered, .messagePublished,
    .publishedWithoutSubscribers, .sinkFailed, .sinkPanicked, .sinkTimedOut, .sinkOverflow,
    .sinkWorkerGone, .shutdownRequested, .allDrainedWithin, .graceExceeded]

def name : EventKind → String
  | .subscriberRegistered => "SubscriberRegistered"
  | .subscriberUnregistered => "SubscriberUnregistered"
  | .messagePublished => "MessagePublished"
  | .publishedWithoutSubscribers => "PublishedWithoutSubscribers"
  | .sinkFailed => "SinkFailed"
  | .sinkPanicked => "SinkPanicked"
  | .sinkTimedOut => "SinkTimedOut"
  | .sinkOverflow => "SinkOverflow"
  | .sinkWorkerGone => "SinkWorkerGone"
  | .shutdownRequested => "ShutdownRequested"
  | .allDrainedWithin => "AllDrainedWithin"
  | .graceExceeded => "GraceExceeded"

def ofName? (s : String) : Option EventKind := all.find? (·.name == s)

theorem mem_all (k : EventKind) : k ∈ all := by cases k <;> decide

def isFault : EventKind → Bool
  | .sinkFailed | .sinkPanicked | .sinkTimedOut | .sinkOverflow | .sinkWorkerGone => true
  | _ => false

/-- The kind of event that reports a fault. -/
def ofFault : SinkFault → EventKind
  | .failed _ => .sinkFailed
  | .panicked _ => .sinkPanicked
  | .timedOut _ => .sinkTimedOut
  | .overflow _ => .sinkOverflow
  | .workerGone => .sinkWorkerGone

theorem isFault_ofFault (f : SinkFault) : (ofFault f).isFault = true := by cases f <;> rfl

end EventKind

structure Event where
  seq : Nat
  kind : EventKind
  time : Nat := 0
  subscriber : Option String := none
  id : Option SubscriberId := none
  reason : Option String := none
  recipients : Option UInt32 := none
  timeoutMs : Option UInt32 := none
deriving DecidableEq, Repr

/-- The largest count that 32 bits hold. -/
def maxCount : Nat := 4294967295

/-- A count in a field of 32 bits; larger ones stay at the largest. -/
def capped (n : Nat) : UInt32 := UInt32.ofNat (min n maxCount)

theorem toNat_capped (n : Nat) : (capped n).toNat = min n maxCount := by
  simp only [capped, maxCount, UInt32.toNat_ofNat']
  omega

namespace Event

def isFault (e : Event) : Bool := e.kind.isFault

/-- A detail that can be attached to an event. -/
inductive Detail where
  | subscriber (name : String)
  | id (id : SubscriberId)
  | reason (text : String)
  | recipients (n : Nat)
  | timeout (d : Duration)
deriving Repr

def attach (e : Event) : Detail → Event
  | .subscriber name => { e with subscriber := some name }
  | .id id => { e with id := some id }
  | .reason text => { e with reason := some text }
  | .recipients n => { e with recipients := some (capped n) }
  | .timeout d => { e with timeoutMs := some (capped d.millis) }

/-- A report before it has a place in the sequence. -/
structure Draft where
  kind : EventKind
  details : List Detail := []
deriving Repr

def Draft.stamp (d : Draft) (seq time : Nat) : Event :=
  d.details.foldl attach { seq := seq, kind := d.kind, time := time }

theorem seq_attach (e : Event) (d : Detail) : (e.attach d).seq = e.seq := by cases d <;> rfl
theorem kind_attach (e : Event) (d : Detail) : (e.attach d).kind = e.kind := by cases d <;> rfl
theorem time_attach (e : Event) (d : Detail) : (e.attach d).time = e.time := by cases d <;> rfl

theorem seq_attachAll (e : Event) (ds : List Detail) : (ds.foldl attach e).seq = e.seq := by
  induction ds generalizing e with
  | nil => rfl
  | cons d ds ih => simp [ih, seq_attach]

theorem kind_attachAll (e : Event) (ds : List Detail) : (ds.foldl attach e).kind = e.kind := by
  induction ds generalizing e with
  | nil => rfl
  | cons d ds ih => simp [ih, kind_attach]

theorem time_attachAll (e : Event) (ds : List Detail) : (ds.foldl attach e).time = e.time := by
  induction ds generalizing e with
  | nil => rfl
  | cons d ds ih => simp [ih, time_attach]

@[simp] theorem Draft.seq_stamp (d : Draft) (n t : Nat) : (d.stamp n t).seq = n :=
  seq_attachAll _ _
@[simp] theorem Draft.kind_stamp (d : Draft) (n t : Nat) : (d.stamp n t).kind = d.kind :=
  kind_attachAll _ _
@[simp] theorem Draft.time_stamp (d : Draft) (n t : Nat) : (d.stamp n t).time = t :=
  time_attachAll _ _

namespace Draft

def registered (name : String) (id : SubscriberId) : Draft :=
  ⟨.subscriberRegistered, [.subscriber name, .id id]⟩

def unregistered (name : String) (id : SubscriberId) : Draft :=
  ⟨.subscriberUnregistered, [.subscriber name, .id id]⟩

def published (recipients : Nat) : Draft := ⟨.messagePublished, [.recipients recipients]⟩

def fault (name : String) (id : SubscriberId) (f : SinkFault) : Draft :=
  ⟨.ofFault f, [.subscriber name, .id id, .reason f.reason] ++
    match f with
    | .timedOut d => [.timeout d]
    | _ => []⟩

def graceExceeded (pending : Nat) : Draft :=
  ⟨.graceExceeded, [.reason ("pending=" ++ pending.repr)]⟩

end Draft
end Event
end Fanout
