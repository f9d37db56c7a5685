import Fanout.Proofs.Listeners

/-! # The quiet world

In a quiet world no task can make a step. So every shutdown call waits for a worker, a listener or
the clock, every worker that is there waits for something to come, and every listener waits for its
observer or for the next event. Time passes only then, and no further than to the next timer.
-/
namespace Fanout

variable {w : World} {a b : Moment} {r i c : Nat}

namespace World

theorem ready_of_quiet (hq : w.quiet = true) {t : Task} (ht : t ∈ w.tasks) : w.ready t = false := by
  have hnone : ¬ w.tasks.any w.ready = true := by simpa [quiet] using hq
  by_contra hr
  exact hnone (List.any_eq_true.mpr ⟨t, ht, by simpa using hr⟩)

theorem listenerReady_of_quiet (hq : w.quiet = true) {l : Listener}
    (hl : w.listener? r i = some l) : w.listenerReady r i = false := by
  obtain ⟨q, hrq, hi⟩ := relay?_of_listener? hl
  have hlt : i < q.listeners.length := (List.getElem?_eq_some_iff.mp hi).1
  apply ready_of_quiet hq (t := .listener r i)
  have hmem : Task.listener r i ∈
      (List.range (((w.relay? r).map (·.listeners.length)).getD 0)).map (.listener r) := by
    simp [hrq, hlt]
  have hrange : r ∈ List.range w.relays.size := List.mem_range.mpr (lt_size_of_relay? hrq)
  rw [tasks]
  exact List.mem_append_left _ (List.mem_append_right _
    (List.mem_flatMap.mpr ⟨r, hrange, hmem⟩))

theorem callReady_of_quiet (hq : w.quiet = true) {k : Call} (hk : w.call? c = some k)
    (ho : k.owner = none) : w.callReady c = false := by
  have hlt : c < w.calls.size := (Array.getElem?_eq_some_iff.mp hk).1
  have hready : w.ready (.call c) = false := by
    apply ready_of_quiet hq
    simp [tasks, hlt]
  simpa [ready, isHosted, hk, ho] using hready

theorem workerReady_of_quiet (hq : w.quiet = true) (id : SubscriberId) :
    w.workerReady id = false := by
  cases hs : w.subscriber? id with
  | none => simp [workerReady, hs]
  | some s =>
    have hlt : id.serial < w.subscribers.size := (Array.getElem?_eq_some_iff.mp hs).1
    apply ready_of_quiet hq (t := .worker id)
    simp only [tasks, List.mem_append, List.mem_map, List.mem_range]
    exact .inr ⟨id.serial, hlt, rfl⟩

theorem listener_of_quiet (hq : w.quiet = true) {l : Listener} (hl : w.listener? r i = some l) :
    (∃ wake panic, l.phase = .calling wake panic ∧ w.now < wake) ∨ l.live = false ∨
      l.phase = .receiving ∧ (w.events r).length ≤ l.next ∧ w.stopping r = false := by
  obtain ⟨q, hrq, -⟩ := relay?_of_listener? hl
  have hsize : q.bus.size = (w.events r).length := by simp [Bus.size, events, hrq]
  have hstop : q.stopping = w.stopping r := by simp [stopping, hrq]
  have hready := listenerReady_of_quiet hq hl
  simp only [listenerReady, hrq, hl] at hready
  cases hp : l.phase with
  | stopped | crashed =>
    refine .inr (.inl ?_)
    rw [Listener.live, hp]
    rfl
  | calling wake panic =>
    have hlt : w.now < wake := by simpa [hp] using hready
    exact .inl ⟨wake, panic, rfl, hlt⟩
  | receiving =>
    rw [hp, hsize, hstop] at hready
    simp only [Bool.or_eq_false_iff, decide_eq_false_iff_not, Nat.not_lt] at hready
    exact .inr (.inr ⟨rfl, hready.1.1.1, hready.1.2⟩)

theorem mem_timers_of_call {k : Call} {deadline : Nat} (hk : w.call? c = some k)
    (hp : k.phase = .draining deadline) : deadline ∈ w.timers := by
  have hmem : k ∈ w.calls.toList := (Array.mem_of_getElem? hk).val
  have htimer : k.phase.timer? = some deadline := by rw [hp]; rfl
  rw [timers]
  exact List.mem_append_left _ (List.mem_append_right _ (List.mem_filterMap.mpr ⟨k, hmem, htimer⟩))

theorem mem_timers_of_listener {l : Listener} {wake : Nat} {panic : Option Panic}
    (hl : w.listener? r i = some l) (hp : l.phase = .calling wake panic) : wake ∈ w.timers := by
  obtain ⟨q, hrq, hi⟩ := relay?_of_listener? hl
  have hmem : q ∈ w.relays.toList := (Array.mem_of_getElem? hrq).val
  have htimer : l.phase.timer? = some wake := by rw [hp]; rfl
  rw [timers]
  exact List.mem_append_right _ (List.mem_flatMap.mpr ⟨q, hmem,
    List.mem_filterMap.mpr ⟨l, List.mem_of_getElem? hi, htimer⟩⟩)

end World

/-- Whoever drives a shutdown call, in a quiet world it cannot go on. -/
theorem Moment.Sound.callReady (ha : a.Sound) (hl : a.slice = none) (hq : a.world.quiet = true)
    {k : Call} (hk : a.world.call? c = some k) (hp : k.phase.pending = true) :
    a.world.callReady c = false := by
  cases ho : k.owner with
  | none => exact World.callReady_of_quiet hq hk ho
  | some id =>
    rcases ha.owner c k id hk ho hp with ⟨l, hslice, -⟩ | ⟨-, s, d, hs, hd, hw⟩
    · obtain ⟨hslice, -⟩ := sliceOf_eq_some_iff.mp hslice
      cases hl.symm.trans hslice
    · have hs : a.world.subscriber? id = some s := hs
      have hready := World.workerReady_of_quiet hq id
      simp only [World.workerReady, hs, hd, hw, World.waitOver] at hready
      simp only [Bool.or_eq_false_iff] at hready
      exact hready.1.2

theorem WalkStep.clock (h : WalkStep a b) :
    b.world.now = a.world.now ∨ a.slice = none ∧ a.world.now ≤ b.world.now := by
  cases h with
  | transition _ hw => exact .inl hw.clock
  | build name config observers => exact .inl (World.now_build ..)
  | listen r i => exact .inl (World.now_stepListener ..)
  | pass time hl => exact .inr ⟨hl, Nat.le_max_left ..⟩

/-- In virtual time the clock stands still, but for a quiet world, where it goes no further than to
the next timer. -/
theorem TimedWalkStep.clock (h : TimedWalkStep a b) : b.world.now = a.world.now ∨
    a.slice = none ∧ a.world.quiet = true ∧ a.world.now ≤ b.world.now ∧
      ∀ t ∈ a.world.timers, a.world.now < t → b.world.now ≤ t := by
  rcases h.walkStep.clock with he | ⟨hl, hle⟩
  · exact .inl he
  · rcases Nat.lt_or_eq_of_le hle with hlt | he
    · obtain ⟨hq, ht⟩ := h.onTime hlt
      exact .inr ⟨hl, hq, hle, ht⟩
    · exact .inl he.symm

end Fanout
