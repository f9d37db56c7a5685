import Fanout.Proofs.Observing

/-! # How long a shutdown takes

When the grace of a shutdown is over and the world is quiet, all that the call may still wait for
is observers. It waits for the calls that are underway, and for one call for each event that the
ring still holds.
-/
namespace Fanout

variable {a b : Moment} {w v : World} {r i c S B : Nat} {l k : Listener}

theorem World.le_after (w : World) (d : Duration) : w.now ≤ w.after d := by
  rw [after]
  split <;> omega

/-- When a listener can read next, unless it has stopped. -/
def ListenerPhase.free? (now : Nat) : ListenerPhase → Option Nat
  | .receiving => some now
  | .calling wake _ => some wake
  | .stopped | .crashed => none

theorem Observer.free_holds {o : Observer} {e : Event} {now t : Nat}
    (h : (o.holds e now).free? now = some t) : now ≤ t ∧ t ≤ now + o.sleep e := by
  unfold holds leaves at h
  split at h
  · cases h
  · split at h
    · split at h
      · cases h
      · have ht : now = t := Option.some.inj h
        omega
    · have ht : now + o.sleep e = t := Option.some.inj h
      omega

/-- A call of an observer is over when it has slept, and time waits for it. -/
theorem Moment.TimedWalked.wake (ha : a.TimedWalked) (hl : a.world.listener? r i = some l)
    {wake : Nat} {panic : Option Panic} (hp : l.phase = .calling wake panic) :
    a.world.now ≤ wake ∧ ∃ e, wake ≤ a.world.now + l.observer.sleep e := by
  induction ha generalizing l wake panic with
  | refl => cases hl
  | @tail c d _ hcd ih =>
    cases hm : c.world.listener? r i with
    | none =>
      obtain ⟨-, o, rfl⟩ := hcd.walkStep.listener_new hm hl
      cases hp
    | some m =>
      rcases hcd.walkStep.listener hm with hb | ⟨-, hnow, k, hk, hstep⟩
      · obtain rfl := Option.mem_unique (hb.listener.symm.trans hl) hm
        obtain ⟨hle, e, hge⟩ := ih hm hp
        rcases hcd.clock with he | ⟨-, hq, hpast, htimer⟩
        · exact ⟨by omega, e, by omega⟩
        · rcases World.listener_of_quiet hq hm with ⟨t, _, ht, hlt⟩ | hs | ⟨hs, -⟩
          · obtain ⟨rfl, -⟩ := ListenerPhase.calling.inj (hp.symm.trans ht)
            have hnext := htimer _ (World.mem_timers_of_listener hm ht) hlt
            exact ⟨hnext, e, by omega⟩
          · rw [Listener.live, hp] at hs
            cases hs
          · cases hp.symm.trans hs
      · obtain rfl := Option.mem_unique hk hl
        cases hstep with
        | @hears e =>
          dsimp only at hp ⊢
          rw [hnow]
          have hfree : (m.observer.holds e c.world.now).free? c.world.now = some wake := by
            rw [hp]
            rfl
          obtain ⟨hle, hge⟩ := Observer.free_holds hfree
          exact ⟨hle, e, hge⟩
        | misses hr | skips hr | leaves hr => cases hr.symm.trans hp
        | ends =>
          have hp : m.observer.leaves _ = .calling wake panic := hp
          unfold Observer.leaves at hp
          split at hp <;> cases hp
        | falls | stops => cases hp

def World.backlog (w : World) (r : Nat) (l : Listener) : Nat := min (w.unread r l) (w.slots r)

/-- A listener has worked off its backlog at time `B` if it is never kept waiting and no call of
its observer takes longer than `S`. -/
def World.DoneBy (w : World) (r S B : Nat) (l : Listener) : Prop :=
  ∀ t, l.phase.free? w.now = some t → t + w.backlog r l * S ≤ B

theorem World.DoneBy.mono {B' : Nat} (h : w.DoneBy r S B l) (hB : B ≤ B') : w.DoneBy r S B' l :=
  fun t ht => Nat.le_trans (h t ht) hB

/-- All workers of a relay have been told to stop. -/
def World.Halts (w : World) (r : Nat) : Prop :=
  ∀ id s, w.subscriber? id = some s → s.relay = r → s.live = true → s.cancelled = true

theorem Transition.halts (h : Transition a b) (ha : a.Sound) (hc : a.world.closed r = true)
    (hh : a.world.Halts r) : b.world.Halts r := by
  intro id t ht htr hv
  rcases h.subscriber_cases ha ht with ⟨s, hs, hsr, hcancel, hlive⟩ | ⟨-, hopen⟩
  · exact hcancel (hh id s hs (hsr.symm.trans htr) (hlive hv))
  · cases hc.symm.trans (htr ▸ hopen hv)

theorem World.halts_cancelAll (w : World) (r : Nat) : (w.cancelAll r).Halts r := by
  intro id t ht htr _
  rw [subscriber?_cancelAll] at ht
  obtain ⟨s, -, rfl⟩ := Option.map_eq_some_iff.mp ht
  split at htr
  · rename_i hr
    rw [if_pos hr]
  · rename_i hr
    exact absurd (by simpa using htr) hr

theorem Moment.Sound.not_halts (ha : a.Sound) (hl : a.slice = none) (hq : a.world.quiet = true)
    {j : Call} (hj : a.world.call? c = some j) {n : Nat} (hp : j.phase = .cancelling n) :
    ¬ a.world.Halts j.relay := by
  intro hh
  have hready := ha.callReady hl hq hj (by rw [hp]; rfl)
  simp only [World.callReady, hj, hp, beq_eq_false_iff_ne] at hready
  apply hready
  rw [World.liveWorkers_eq_zero_iff]
  intro id s hs hsr
  by_contra hlive
  have hlive : s.live = true := by simpa using hlive
  have hcancelled := hh id s hs hsr hlive
  have hworker := World.workerReady_of_quiet hq id
  simp only [World.workerReady, hs] at hworker
  rw [Subscriber.live] at hlive
  cases hph : s.phase with
  | idle | delivering => simp [hph, hcancelled] at hworker
  | stopped | crashed =>
    rw [hph] at hlive
    cases hlive

/-- Where the call that closes a relay stands at `b`: its grace ends at `deadline`, and no call of
an observer takes longer than `S`. -/
inductive Moment.Timely (r S deadline : Nat) (b : Moment) : CallPhase → Prop where
  | draining : b.world.now ≤ deadline → Timely r S deadline b (.draining deadline)
  | cancelling {n : Nat} : b.world.now ≤ deadline → b.world.Halts r →
    Timely r S deadline b (.cancelling n)
  | flushing {result : Option RelayError} : b.world.stopping r = true →
    (∀ i l, b.world.listener? r i = some l →
      b.world.DoneBy r S (deadline + (b.world.slots r + 1) * S) l) →
    Timely r S deadline b (.flushing result)
  | returned {result : Option RelayError} : Timely r S deadline b (.returned result)
  | dropped : Timely r S deadline b .dropped

theorem Moment.timedWalkStep_shutdown (a : Moment) (hr : a.world.relayExists r = true)
    (hl : ∀ l ∈ a.slice, l.call = none) : TimedWalkStep a (a.shutdown r) :=
  .of_clock (.transition (.shutdown r hr hl) (World.SparesListeners.records.openCall ..))
    (World.SparesListeners.records.openCall ..).clock

/-- In a quiet world that is past the grace, the call waits for observers or for nothing. -/
theorem Moment.Timely.late {j : Call} {deadline : Nat} (h : b.Timely j.relay S deadline j.phase)
    (hb : b.Sound) (hslice : b.slice = none) (hq : b.world.quiet = true)
    (hj : b.world.call? c = some j) (hp : j.phase.pending = true)
    (hlate : deadline ≤ b.world.now) :
    (∃ result, j.phase = .flushing result) ∧
    ∃ i l wake panic, b.world.listener? j.relay i = some l ∧ l.phase = .calling wake panic ∧
      b.world.now < wake ∧ wake ≤ deadline + (b.world.slots j.relay + 1) * S := by
  have hready := hb.callReady hslice hq hj hp
  generalize hph : j.phase = phase at h
  cases h with
  | draining =>
    simp only [World.callReady, hj, hph, Bool.or_eq_false_iff, decide_eq_false_iff_not] at hready
    exact absurd hlate hready.2
  | cancelling _ hh => exact absurd hh (hb.not_halts hslice hq hj hph)
  | flushing hstop hd =>
    refine ⟨⟨_, rfl⟩, ?_⟩
    simp only [World.callReady, hj, hph] at hready
    have hsome : ∃ i l, b.world.listener? j.relay i = some l ∧ l.live ≠ false := by
      by_contra hnone
      push Not at hnone
      rw [World.listenersStopped_iff.mpr hnone] at hready
      cases hready
    obtain ⟨i, l, hl, hne⟩ := hsome
    rcases World.listener_of_quiet hq hl with ⟨wake, panic, hw, hlt⟩ | hs | ⟨-, -, hno⟩
    · have hby := hd i l hl wake (by rw [hw]; rfl)
      exact ⟨i, l, wake, panic, hl, hw, hlt, by omega⟩
    · exact absurd hs hne
    · cases hstop.symm.trans hno
  | returned | dropped =>
    rw [hph] at hp
    cases hp

def Moment.jump (a : Moment) (time : Nat) : Moment := { a with world := a.world.jump time }

theorem TimedWalkStep.stepCall (hl : a.slice = none) (hc : a.world.isHosted c = true) :
    TimedWalkStep a (a.stepCall c) :=
  .of_clock (.stepCall hl hc) (World.sparesListeners_stepCall ..).clock

theorem TimedWalkStep.listen (hl : a.slice = none) (hr : a.world.listenerReady r i = true) :
    TimedWalkStep a (a.listen r i) :=
  .of_clock (.listen r i hl hr) (World.now_stepListener ..)

theorem TimedWalkStep.jump {time : Nat} (hl : a.slice = none) (hq : a.world.quiet = true)
    (ht : ∀ t ∈ a.world.timers, a.world.now < t → max a.world.now time ≤ t) :
    TimedWalkStep a (a.jump time) :=
  ⟨.pass time hl, fun _ => ⟨hq, ht⟩⟩

end Fanout
