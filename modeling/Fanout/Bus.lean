import Fanout.Event

/-! # The event bus

A bus keeps every event ever published and lets each reader see the last `slots` of them.
A reader is a position: the number of events it is past. One that falls further behind is
told once how many it lost and goes on with the oldest event still kept.
-/
namespace Fanout

structure Bus where
  slots : Nat
  events : Array Event := #[]
deriving Repr

namespace Bus

/-- The least power of two that is no less than a number. -/
def ringSize (n : Nat) : Nat := if n ≤ 1 then 1 else 2 * Nat.pow 2 (n - 1).log2

/-- The ring has the least power of two that holds the wanted number of events. -/
def ofCapacity (n : Nat) : Bus := { slots := ringSize (max n 1) }

def size (b : Bus) : Nat := b.events.size
def push (b : Bus) (e : Event) : Bus := { b with events := b.events.push e }

/-- What a reader at a position finds, and the position after it. -/
inductive Found where
  | event (e : Event) (next : Nat)
  | lagged (count : Nat) (next : Nat)
  | nothing
deriving Repr

def read (b : Bus) (next : Nat) : Found :=
  let unread := b.size - next
  if b.slots < unread then .lagged (unread - b.slots) (b.size - b.slots)
  else match b.events[next]? with
    | some e => .event e (next + 1)
    | none => .nothing

/-- What a reader reports: events, stretches it lost, and the end of the bus. -/
inductive Mark where
  | event (e : Event)
  | lagged (count : Nat)
  | closed
deriving Repr

/-- Reads until nothing is left: every read but the last leaves less unread. -/
def drain (b : Bus) (next : Nat) : Nat → List Mark × Nat
  | 0 => ([], next)
  | fuel + 1 =>
    match b.read next with
    | .nothing => ([], next)
    | .event e next =>
      let (marks, last) := b.drain next fuel
      (.event e :: marks, last)
    | .lagged count next =>
      let (marks, last) := b.drain next fuel
      (.lagged count :: marks, last)

@[simp] theorem size_push (b : Bus) (e : Event) : (b.push e).size = b.size + 1 := by
  simp [size, push]

@[simp] theorem slots_push (b : Bus) (e : Event) : (b.push e).slots = b.slots := rfl

end Bus
end Fanout
