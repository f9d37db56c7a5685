import Fanout.World.Schedule

/-! # Runs

A run is any sequence of moves: calls of the host, steps of tasks that can make one, in any
order, and the passing of time whenever it likes. In virtual time it passes only in a quiet world
and over no timer. The schedule picks one order and keeps to virtual time; what holds of every run
depends on neither.
-/
namespace Fanout

inductive Move where
  | build (name : String) (config : Config) (observers : List Observer)
  /-- Gives a relay a name; a clone is a relay with one more. -/
  | nameRelay (name : String) (r : Nat)
  | forgetRelay (name : String)
  | register (r : Nat) (relayName : String) (sink : Sink)
  | unregister (r : Nat) (id : SubscriberId)
  | remove (h : Handle)
  | forgetHandle (name : String)
  | publish (r : Nat) (m : Message)
  | beginShutdown (r : Nat)
  | giveUp (c : Nat)
  | make (d : Event.Draft)
  | step (t : Task)
  | pass (time : Nat)

namespace World

def move (w : World) : Move → World
  | .build name config observers => (w.build name config observers).1
  | .nameRelay name r => w.nameRelay name r
  | .forgetRelay name => w.forgetRelay name
  | .register r relayName sink => (w.registerNamed r relayName sink).1
  | .unregister r id => (w.unregister r id).1
  | .remove h => (w.remove h).1
  | .forgetHandle name => w.forgetHandle name
  | .publish r m => w.publish r m
  | .beginShutdown r => (w.beginShutdown r none).1
  | .giveUp c => w.giveUp c
  | .make d => (w.make d).1
  | .step t => w.step t
  | .pass time => w.jump time

/-- Whether a move is possible. A relay is called through a name, a subscriber through its
handle; tasks step when they can; time may pass at any moment. -/
def Allows (w : World) : Move → Prop
  | .nameRelay _ r => ∃ name, w.relayNamed? name = some r
  | .register r name _ => w.relayNamed? name = some r
  | .unregister r id =>
    (∃ name, w.relayNamed? name = some r) ∧ ∃ key h, w.handleNamed? key = some h ∧ h.id = id
  | .remove h => ∃ key, w.handleNamed? key = some h
  | .publish r _ | .beginShutdown r => ∃ name, w.relayNamed? name = some r
  | .step t => w.ready t
  | .build .. | .forgetRelay _ | .forgetHandle _ | .giveUp _ | .make _ | .pass _ => True

/-- In virtual time the clock waits until nobody can do anything, and stops at every timer. -/
def OnTime (w : World) : Move → Prop
  | .pass time => w.quiet ∧ ∀ t ∈ w.timers, w.now < t → time ≤ t
  | _ => True

inductive Run (w : World) : World → Prop where
  | refl : Run w w
  | tail {v : World} (m : Move) : Run w v → v.Allows m → Run w (v.move m)

/-- The worlds that some run reaches from the empty one. -/
def Reachable (w : World) : Prop := Run {} w

theorem Run.trans {u v w : World} (h : Run u v) (k : Run v w) : Run u w := by
  induction k with
  | refl => exact h
  | tail m _ a ih => exact ih.tail m a

theorem Run.single {w : World} (m : Move) (h : w.Allows m) : Run w (w.move m) := Run.refl.tail m h

/-- A run in virtual time. -/
inductive TimedRun (w : World) : World → Prop where
  | refl : TimedRun w w
  | tail {v : World} (m : Move) : TimedRun w v → v.Allows m → v.OnTime m → TimedRun w (v.move m)

def TimedReachable (w : World) : Prop := TimedRun {} w

namespace TimedRun

theorem trans {u v w : World} (h : TimedRun u v) (k : TimedRun v w) : TimedRun u w := by
  induction k with
  | refl => exact h
  | tail m _ a t ih => exact ih.tail m a t

theorem single {w : World} (m : Move) (h : w.Allows m) (t : w.OnTime m) : TimedRun w (w.move m) :=
  refl.tail m h t

theorem run {v w : World} (h : TimedRun v w) : Run v w := by
  induction h with
  | refl => exact .refl
  | tail m _ a _ ih => exact ih.tail m a

end TimedRun

theorem TimedReachable.reachable {w : World} (h : w.TimedReachable) : w.Reachable := h.run

theorem timedRun_turn (w : World) (t : Task) (fuel : Nat) : TimedRun w (w.turn t fuel) := by
  induction fuel generalizing w with
  | zero => exact .refl
  | succ fuel ih =>
    rw [turn]
    split
    · rename_i h
      have s : TimedRun w (w.step t) := .single (.step t) h trivial
      dsimp only
      split
      · exact s
      · exact s.trans (ih _)
    · exact .refl

theorem timedRun_round (w : World) : TimedRun w w.round := by
  rw [round]
  generalize w.tasks = ts
  induction ts generalizing w with
  | nil => exact .refl
  | cons t ts ih => exact (timedRun_turn w t patience).trans (ih _)

theorem timedRun_rounds (w : World) (fuel : Nat) : TimedRun w (w.rounds fuel) := by
  induction fuel generalizing w with
  | zero => exact .refl
  | succ fuel ih =>
    rw [rounds]
    split
    · exact .refl
    · exact (timedRun_round w).trans (ih _)

theorem timedRun_settle (w : World) : TimedRun w w.settle := timedRun_rounds w patience

theorem le_of_nextTimer? {w : World} {time : Nat} (h : ∀ t ∈ w.nextTimer?, time ≤ t) :
    ∀ u ∈ w.timers, w.now < u → time ≤ u := by
  intro u hu later
  have m : u ∈ w.timers.filter (w.now < ·) := List.mem_filter.2 ⟨hu, by simpa using later⟩
  match e : w.nextTimer? with
  | none => exact absurd m (List.min?_eq_none_iff.1 e ▸ List.not_mem_nil)
  | some t => exact Nat.le_trans (h t e) ((List.min?_eq_some_iff.1 e).2 u m)

theorem timedRun_jump {w : World} {time : Nat} (q : w.quiet = true)
    (h : ∀ t ∈ w.nextTimer?, time ≤ t) : TimedRun w (w.jump time) :=
  .single (.pass time) trivial ⟨q, le_of_nextTimer? h⟩

theorem timedRun_runUntil (w : World) (time fuel : Nat) : TimedRun w (w.runUntil time fuel) := by
  induction fuel generalizing w with
  | zero => exact .refl
  | succ fuel ih =>
    rw [runUntil]
    generalize e : w.settle = v
    have s : TimedRun w v := e ▸ timedRun_settle w
    split
    · exact s
    · rename_i q
      have q : v.quiet = true := by simpa using q
      split
      · rename_i t next
        split
        · exact (s.trans (timedRun_jump q fun u hu => by simp_all)).trans (ih _)
        · rename_i late
          refine (s.trans (timedRun_jump q fun u hu => ?_)).trans (timedRun_settle _)
          have : t = u := by simpa [next] using hu
          omega
      · rename_i none
        exact (s.trans (timedRun_jump q fun u hu => by simp [none] at hu)).trans
          (timedRun_settle _)

theorem timedRun_giveUp (w : World) (c : Nat) : TimedRun w (w.giveUp c) :=
  .single (.giveUp c) trivial trivial

theorem timedRun_awaitCall (w : World) (c : Nat) (limit : Option Nat) (fuel : Nat) :
    TimedRun w (w.awaitCall c limit fuel) := by
  induction fuel generalizing w with
  | zero => exact .refl
  | succ fuel ih =>
    rw [awaitCall]
    generalize e : w.turn (.call c) patience = v
    have s : TimedRun w v := e ▸ timedRun_turn w _ _
    dsimp only
    split
    · exact s.trans (timedRun_settle v)
    · split
      · exact (s.trans (timedRun_giveUp v c)).trans (timedRun_settle _)
      · generalize e : v.settle = u
        have s : TimedRun w u := s.trans (e ▸ timedRun_settle v)
        split
        · exact s
        · rename_i q
          have q : u.quiet = true := by simp_all
          split
          · rename_i t least
            refine (s.trans (timedRun_jump q fun n hn => ?_)).trans (ih _)
            exact (List.min?_eq_some_iff.1 least).2 n (by simp_all)
          · exact s

theorem timedRun_await (w : World) (c : Nat) (limit : Option Nat) : TimedRun w (w.await c limit) :=
  timedRun_awaitCall w c limit patience

theorem timedRun_advance (w : World) (ms : Nat) : TimedRun w (w.advance ms) :=
  timedRun_runUntil w (w.now + ms) patience

end World
end Fanout
