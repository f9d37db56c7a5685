import Fanout.Proofs.Draining
import Fanout.Proofs.Grammar

/-! # What it means that a shutdown has returned

The call that closes a relay returns when its workers are gone for good. A call that finds the
relay closed has returned already, whatever the workers still do, and is a promise only once the
last report is on the bus.
-/
namespace Fanout

/-- Nothing goes on for the subscribers of a relay: no worker is there, no delivery is underway
and no message waits in a queue. -/
structure Moment.Over (a : Moment) (r : Nat) : Prop where
  workers : a.world.liveWorkers r = 0
  deliveries : ∀ id s, a.world.subscriber? id = some s → s.relay = r →
    (a.part id).isUnderway = false
  queues : ∀ id s, a.world.subscriber? id = some s → s.relay = r → s.queue = []

variable {a b : Moment} {r : Nat}

theorem Moment.Reached.over (ha : a.Reached) (hc : a.world.closed r = true)
    (hl : a.world.liveWorkers r = 0) : ∀ c, Transitions a c → c.Over r := by
  intro c hac
  have hr : c.Reached := ha.trans hac
  obtain ⟨-, hzero⟩ := hac.workerless ha.sound hc hl
  have hdead := World.liveWorkers_eq_zero_iff.mp hzero
  exact ⟨hzero, fun id s hs hsr => (hr.sound.part id).not_underway hs (hdead id s hs hsr),
    fun id s hs hsr => ((hr.ordered id).accounts s hs).exited (hdead id s hs hsr)⟩

theorem Moment.Reached.over_of_settled (ha : a.Reached) (hr : a.world.Settled r) :
    ∀ c, Transitions a c → c.Over r :=
  ha.over hr.closed (World.liveWorkers_eq_zero_iff.mpr hr.workers)

theorem Moment.Reached.settled_of_final (ha : a.Reached) {e : Event}
    (he : e ∈ a.world.events r) (hf : e.isFinal = true) : a.world.Settled r := by
  obtain ⟨g, hg⟩ := ha.logged r
  exact hg.done (hg.reads.done_of_final he hf)

theorem Moment.Verdict.final {result : Option RelayError} (hv : a.Verdict r b result) :
    ∃ e ∈ b.world.events r, e.isFinal = true := by
  cases hv with
  | drained _ he hk => exact ⟨_, List.mem_of_getLast? he, by simp [Event.isFinal, hk]⟩
  | exceeded _ _ _ _ he hk => exact ⟨_, List.mem_of_getLast? he, by simp [Event.isFinal, hk]⟩

/-- When the call that closed a relay returns, the relay is settled and the last report made. -/
theorem Transitions.returned (hab : Transitions (a.shutdown r) b) (ha : a.Sound)
    (hr : a.world.relayExists r = true) (ho : a.world.closed r = false)
    (hl : ∀ l ∈ a.slice, l.call = none) {result : Option RelayError}
    (hres : b.world.result? a.world.calls.size = some result) :
    b.world.Settled r ∧ ∃ e ∈ b.world.events r, e.isFinal = true := by
  obtain ⟨k, hk, -, hc⟩ := hab.course ha hr ho hl
  obtain ⟨i, o, phase⟩ := k
  rw [World.result?, hk] at hres
  cases hc with
  | draining | cancelling | flushing | dropped => cases hres
  | returned hset hv => exact ⟨hset, hv.final⟩

theorem Transitions.call_over (hab : Transitions a b) {c : Nat} {k : Call}
    (hk : a.world.call? c = some k) (hp : k.phase.pending = false) : b.world.call? c = some k := by
  induction hab with
  | refl => exact hk
  | tail _ hcd ih =>
    obtain ⟨j, hj, ht⟩ := hcd.callChange ih
    exact ht.eq_of_pending hp ▸ hj

theorem shutdown_of_closed (hr : r < a.world.relays.size) (hc : a.world.closed r = true) :
    (a.shutdown r).world = { a.world with
      calls := a.world.calls.push ⟨r, a.slice.map (·.id), .returned none⟩ } := by
  change a.world.openCall r (a.slice.map (·.id)) = _
  have hstep := a.world.openCallStep r (a.slice.map (·.id))
  generalize a.world.openCall r (a.slice.map (·.id)) = v at hstep
  cases hstep with
  | missing hn => cases hn.symm.trans (World.relay?_of_lt_size hr)
  | late => rfl
  | closes ho => cases hc.symm.trans ho

theorem Transitions.result_of_closed (hab : Transitions (a.shutdown r) b)
    (hr : r < a.world.relays.size)
    (hc : a.world.closed r = true) : b.world.result? a.world.calls.size = some none := by
  have hk : (a.shutdown r).world.call? a.world.calls.size =
      some ⟨r, a.slice.map (·.id), .returned none⟩ := by
    rw [shutdown_of_closed hr hc]
    exact Array.getElem?_push_size
  rw [World.result?, hab.call_over hk rfl]

/-- When the call that closed a relay has returned, everything is over, and so it is when a call
finds a closed relay without workers, as it does once the last report is made. Any call that
finds its relay closed returns at once without an error and changes nothing. -/
theorem returned_means_over (ha : a.Reached) (hr : a.world.relayExists r = true)
    (hl : ∀ l ∈ a.slice, l.call = none) (hab : Transitions (a.shutdown r) b)
    {result : Option RelayError} (hres : b.world.result? a.world.calls.size = some result) :
    (a.world.closed r = false →
      (∃ e ∈ b.world.events r, e.isFinal = true) ∧ ∀ c, Transitions b c → c.Over r) ∧
    (a.world.closed r = true → a.world.liveWorkers r = 0 → ∀ c, Transitions b c → c.Over r) ∧
    ((∃ e ∈ a.world.events r, e.isFinal = true) →
      a.world.closed r = true ∧ a.world.liveWorkers r = 0) ∧
    (a.world.closed r = true → result = none ∧
      (a.shutdown r).world.result? a.world.calls.size = some none ∧
      (a.shutdown r).world = { a.world with
        calls := a.world.calls.push ⟨r, a.slice.map (·.id), .returned none⟩ }) := by
  have hstep : Transition a (a.shutdown r) := .shutdown r hr hl
  have hb : b.Reached := (ha.tail hstep).trans hab
  have hsize := ha.sound.named r hr
  refine ⟨fun ho => ?_, fun hc hz => ?_, fun ⟨e, he, hf⟩ => ?_, fun hc => ⟨?_, ?_, ?_⟩⟩
  · obtain ⟨hset, hfinal⟩ := hab.returned ha.sound hr ho hl hres
    exact ⟨hfinal, hb.over_of_settled hset⟩
  · exact fun c hbc => ha.over hc hz c ((Relation.ReflTransGen.head hstep hab).trans hbc)
  · have hset := ha.settled_of_final he hf
    exact ⟨hset.closed, World.liveWorkers_eq_zero_iff.mpr hset.workers⟩
  · have hnone := hab.result_of_closed hsize hc
    rw [hres] at hnone
    exact Option.some.inj hnone
  · exact Transitions.result_of_closed .refl hsize hc
  · exact shutdown_of_closed hsize hc

/-- Its message delivered in time, a relay is shut down for good. -/
def Moment.parted : Moment := (Moment.relieved.stepCall 0).stepCall 0

theorem transitions_parted : Transitions (Moment.closing (.ofMillis 5000)) Moment.parted :=
  transitions_relieved.trans (transitions_stepCall rfl (by decide +kernel))

theorem reached_parted : Moment.parted.Reached := by
  have hclosing : (Moment.closing (.ofMillis 5000)).Reached :=
    (reached_pressed _).tail (.shutdown 0 rfl fun l hl => by cases hl)
  exact hclosing.trans transitions_parted

/-- The call that closed the relay and one made later both return when everything is over. -/
theorem returned_means_over_parted :
    (∃ e ∈ Moment.parted.world.events 0, e.isFinal = true) ∧ Moment.parted.Over 0 ∧
    (Moment.parted.shutdown 0).world.result? 1 = some none ∧ (Moment.parted.shutdown 0).Over 0 := by
  have hfirst : Moment.parted.world.result? 0 = some none := by decide +kernel
  obtain ⟨hdone, -⟩ := returned_means_over (reached_pressed (.ofMillis 5000)) rfl
    (fun l hl => by cases hl) transitions_parted hfirst
  obtain ⟨hfinal, hover⟩ := hdone rfl
  have hnext : (Moment.parted.shutdown 0).world.result? Moment.parted.world.calls.size =
      some none := by decide +kernel
  obtain ⟨-, hlate, hlast, -⟩ := returned_means_over reached_parted (r := 0) (by decide +kernel)
    (fun l hl => by cases hl) .refl hnext
  obtain ⟨hc, hz⟩ := hlast hfinal
  exact ⟨hfinal, hover _ .refl, by decide +kernel, hlate hc hz _ .refl⟩

/-- A relay is closed while two messages are on their way to a sink that sleeps. -/
def Moment.drowsy : Moment :=
  (((Moment.opening {} [{ key := "sink", name := "sink", script := [[.sleep 100]] }]).publish 0
    .empty).publish 0 .empty).shutdown 0

def Moment.dozing : Moment :=
  { Moment.drowsy with
    world := (Moment.drowsy.world.take ⟨0⟩ .empty [.empty]).conclude ⟨0⟩ 0 .empty none
      (.waits (.until 100) []) }

theorem reached_dozing : Moment.dozing.Reached := by
  have hd : Moment.drowsy.Reached :=
    (((reached_opening {} (by decide) _).tail (.publish 0 .empty rfl)).tail
      (.publish 0 .empty rfl)).tail (.shutdown 0 rfl fun l hl => by cases hl)
  have hs : Moment.drowsy.world.subscriber? ⟨0⟩ = some _ := rfl
  let l : Slice := ⟨⟨0⟩, 0, .empty, none, none⟩
  let a : Moment := { Moment.drowsy with
    world := Moment.drowsy.world.take ⟨0⟩ .empty [.empty], slice := some l }
  have ha : a.Reached := hd.tail (.begin rfl hs rfl rfl rfl)
  have hwait : Transition a { a with
      world := a.world.conclude l.id l.relay l.message l.deadline (.waits (.until 100) [])
      slice := none } := .conclude _ rfl rfl
  exact ha.tail hwait

/-- A second call returns without an error although the worker goes on. -/
theorem later_shutdown_returns_early : ¬ ∀ (a b : Moment) (r : Nat), a.Reached →
    a.world.relayExists r = true → (∀ l ∈ a.slice, l.call = none) → Transitions (a.shutdown r) b →
    b.world.result? a.world.calls.size = some none → b.Over r := by
  intro h
  have hover := h Moment.dozing (Moment.dozing.shutdown 0) 0 reached_dozing (by decide +kernel)
    (fun l hl => by cases hl) .refl (by decide +kernel)
  have hone : (Moment.dozing.shutdown 0).world.liveWorkers 0 = 1 := by decide +kernel
  rw [hover.workers] at hone
  cases hone

end Fanout
