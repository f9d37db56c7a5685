import Fanout.World.Tasks

/-! # The schedule

The tasks take turns, in rounds, until the world is quiet; then the clock jumps. A task
keeps its turn as long as it can go on and does not give way. `patience` bounds every loop
by a number of rounds that only a script that never waits exceeds.
-/
namespace Fanout.World

@[irreducible] def patience : Nat := 1000000

/-- Whether a task has given way although it could go on. -/
def yields (w : World) : Task → Bool
  | .worker id => ((w.subscriber? id).bind (·.phase.delivery?)).any (·.wait == .turn)
  | _ => false

def turn (w : World) (t : Task) : Nat → World
  | 0 => w
  | fuel + 1 =>
    if w.ready t then
      let w := w.step t
      if w.yields t then w else w.turn t fuel
    else w

def round (w : World) : World := w.tasks.foldl (fun w t => w.turn t patience) w

def rounds (w : World) : Nat → World
  | 0 => w
  | fuel + 1 => if w.quiet then w else w.round.rounds fuel

def settle (w : World) : World := w.rounds patience

def runUntil (w : World) (time : Nat) : Nat → World
  | 0 => w
  | fuel + 1 =>
    let w := w.settle
    if !w.quiet then w
    else match w.nextTimer? with
      | some t => if t < time then (w.jump t).runUntil time fuel else (w.jump time).settle
      | none => (w.jump time).settle

def advance (w : World) (ms : Nat) : World := w.runUntil (w.now + ms) patience

/-- Lets time pass until a call returns. At each moment the call goes on first and the other
tasks after it. A call that has not returned at its limit is dropped. -/
def awaitCall (w : World) (c : Nat) (limit : Option Nat) : Nat → World
  | 0 => w
  | fuel + 1 =>
    let w := w.turn (.call c) patience
    if (w.result? c).isSome then w.settle
    else if limit.any (· ≤ w.now) then (w.giveUp c).settle
    else
      let w := w.settle
      if (w.result? c).isSome || !w.quiet then w
      else match (w.nextTimer?.toList ++ limit.toList).min? with
        | some t => (w.jump t).awaitCall c limit fuel
        | none => w

def await (w : World) (c : Nat) (limit : Option Nat) : World := w.awaitCall c limit patience

end Fanout.World
