import Fanout.Event
import Fanout.Message

/-! # Sinks and observers

A sink is known by a key and a name, asks for a queue of some capacity, and follows a
script: a list of actions for each delivery, the first list for the first one. Actions end
the delivery, make it wait, or call the relay under the name the sink was registered with.
An observer only hears of events. Whoever is asked for a name or a capacity may panic.
-/
namespace Fanout

inductive Panic where
  | text (s : String)
  | payload
deriving DecidableEq, Repr

def Panic.info : Panic → String
  | .text s => s
  | .payload => "unknown panic"

/-- What a sink or an observer says when asked for its name. -/
inductive Naming where
  | given (name : String)
  | panics (p : Panic)
deriving DecidableEq, Repr

instance : Inhabited Naming := ⟨.given ""⟩
instance : Coe String Naming := ⟨.given⟩

def Naming.given? : Naming → Option String
  | .given name => some name
  | .panics _ => none

/-- What a sink says when asked for its capacity. -/
inductive Capacity where
  | size (n : Nat)
  | panics
deriving DecidableEq, Repr

/-- How a sink is made. A `closure` has no capacity of its own to announce; a `bare` sink
starts each delivery outside the guard against panics. -/
inductive Style where
  | plain
  | closure
  | bare
deriving DecidableEq, Repr

/-- A sink whose deliveries run scripts over a type of actions. -/
structure Scripted (α : Type) where
  key : String
  name : Naming
  style : Style := .plain
  capacity : Capacity := .size 1024
  script : List (List α) := []
  cycle : Bool := false
deriving Repr, Inhabited

inductive Action where
  | ok
  | fail (error : String)
  | closed
  | panic (p : Panic)
  /-- Panics at once, before anything that could wait. -/
  | panicAtStart
  | hang
  | yield
  | sleep (ms : Nat)
  | publish (m : Message)
  | unregister (handle : String)
  | remove (handle : String)
  | isActive (handle : String)
  | count
  | register (sink : Scripted Action)
  | shutdown

instance : Inhabited Action := ⟨.ok⟩

abbrev Sink := Scripted Action

namespace Scripted
variable {α : Type}

def announced (s : Scripted α) : Option Nat :=
  match s.style, s.capacity with
  | .closure, _ => none
  | _, .size n => some n
  | _, .panics => none

/-- The actions of the delivery with the given number. A script that cycles starts over at
its end; any other leaves later deliveries without actions. -/
def actions (s : Scripted α) (delivery : Nat) : List α :=
  let i := if s.cycle then delivery % s.script.length else delivery
  s.script.getD i []

end Scripted

/-- An observer is called with every event of a relay. A call may panic at once, where no guard
catches it; any other call waits a while, and then it may panic. -/
structure Observer where
  key : String
  name : Naming
  writesLines : Bool := false
  panicsAtStart : Event → Bool := fun _ => false
  sleep : Event → Nat := fun _ => 0
  panic : Event → Option Panic := fun _ => none

end Fanout
