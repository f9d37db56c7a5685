import Fanout.Console
import Fanout.World.Run

/-! # Commands are runs

Whatever command a host gives, the world it leaves is one that a run in virtual time reaches from
the world before. So a console that starts empty reaches reachable worlds only.
-/
namespace Fanout
namespace World

theorem timedRun_unregisterNamed {w : World} {name : String} {r : Nat}
    (h : w.relayNamed? name = some r) (handle : String) :
    TimedRun w (w.unregisterNamed r handle).1 := by
  rw [unregisterNamed, withHandle]
  split
  · rename_i k e
    exact .single (.unregister r k.id) ⟨⟨name, h⟩, handle, k, e, rfl⟩ trivial
  · exact .refl

theorem timedRun_removeNamed (w : World) (handle : String) :
    TimedRun w (w.removeNamed handle).1 := by
  rw [removeNamed, withHandle]
  split
  · rename_i k e
    exact .single (.remove k) ⟨handle, e⟩ trivial
  · exact .refl

theorem fst_withHandle (w : World) (name : String) (f : Handle → Reply) :
    (w.withHandle name fun h => (w, f h)).1 = w := by
  rw [withHandle]
  split <;> rfl

end World

namespace Console
open World

theorem timedRun_publishMany {w : World} {name : String} {r : Nat} (h : w.relayNamed? name = some r)
    (count : Nat) : TimedRun w (publishMany w r count) := by
  rw [publishMany]
  generalize List.range count = ns
  induction ns generalizing w with
  | nil => exact .refl
  | cons n ns ih =>
    refine (TimedRun.single (.publish r (numbered n)) ⟨name, h⟩ trivial).trans (ih ?_)
    exact (congrArg (List.lookup name) (relayNames_publish ..)).trans h

theorem timedRun_beginShutdown {w : World} {name : String} {r : Nat}
    (h : w.relayNamed? name = some r) : TimedRun w (w.beginShutdown r none).1 :=
  .single (.beginShutdown r) ⟨name, h⟩ trivial

theorem timedRun_shutdown {c : Console} {name : String} {r : Nat}
    (h : c.world.relayNamed? name = some r) (limit : Option Nat) :
    TimedRun c.world (c.shutdown r limit).1.world :=
  (timedRun_beginShutdown h).trans (timedRun_await _ _ _)

theorem timedRun_withRelay {c : Console} {name : String} {f : Nat → Console × Reply}
    (h : ∀ r, c.world.relayNamed? name = some r → TimedRun c.world (f r).1.world) :
    TimedRun c.world (c.withRelay name f).1.world := by
  rw [withRelay]
  split
  · exact h _ (by assumption)
  · exact .refl

theorem timedRun_perform (c : Console) (k : Command) : TimedRun c.world (c.perform k).1.world := by
  cases k with
  | build name config observers =>
    have s : TimedRun c.world (c.world.build name config observers).1 :=
      .single (.build name config observers) trivial trivial
    rw [perform]
    split <;> rename_i e <;> rw [e] at s <;> exact s
  | clone name copy =>
    exact timedRun_withRelay fun r h => .single (.nameRelay copy r) ⟨name, h⟩ trivial
  | dropRelay name => exact .single (.forgetRelay name) trivial trivial
  | config name => exact timedRun_withRelay fun _ _ => .refl
  | register name sink =>
    exact timedRun_withRelay fun r h => .single (.register r name sink) h trivial
  | unregister name handle => exact timedRun_withRelay fun _ h => timedRun_unregisterNamed h handle
  | remove handle => exact timedRun_removeNamed c.world handle
  | dropHandle handle => exact .single (.forgetHandle handle) trivial trivial
  | isActive name handle =>
    refine timedRun_withRelay fun r _ => ?_
    rw [inWorld, isActiveNamed, fst_withHandle]
    exact .refl
  | describe handle =>
    rw [perform, inWorld, fst_withHandle]
    exact .refl
  | publish name payload =>
    refine timedRun_withRelay fun r h => ?_
    split
    · exact .single (.publish r _) ⟨name, h⟩ trivial
    · exact .refl
  | publishMany name count => exact timedRun_withRelay fun _ h => timedRun_publishMany h count
  | count name => exact timedRun_withRelay fun _ _ => .refl
  | subscribers name => exact timedRun_withRelay fun _ _ => .refl
  | receive name rx => exact timedRun_withRelay fun _ _ => .refl
  | drain rx =>
    rw [perform]
    split
    · exact .refl
    · exact .refl
  | settle => exact timedRun_settle c.world
  | advance ms => exact timedRun_advance c.world ms
  | shutdown name => exact timedRun_withRelay fun _ h => timedRun_shutdown h none
  | shutdownWithin name ms => exact timedRun_withRelay fun _ h => timedRun_shutdown h _
  | spawnShutdown name job =>
    exact timedRun_withRelay fun _ h => (timedRun_beginShutdown h).trans (timedRun_settle _)
  | isDone job => exact .refl
  | join job =>
    rw [perform]
    split
    · exact .refl
    · exact timedRun_await _ _ _

theorem timedReachable_perform {c : Console} (h : TimedReachable c.world) (k : Command) :
    TimedReachable (c.perform k).1.world := h.trans (timedRun_perform c k)

end Console
end Fanout
