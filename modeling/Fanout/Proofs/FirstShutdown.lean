import Fanout.Proofs.SameBare
import Fanout.Proofs.Steps

/-! # The first call of shutdown

The first call of shutdown on a relay closes it, and it comes to a result only with the last report
on the bus. Any later call has its result at once. So where a call has come back in one of two
worlds that differ in observers only and not in the other, the last report is there.
-/
namespace Fanout

variable {a b : Moment} {r c : Nat}

namespace World

def reported (w : World) (r : Nat) : Bool := (w.events r).any Event.isFinal

def anyReported (w : World) : Bool := (List.range w.relays.size).any w.reported

/-- Whether shutdown has been called on a relay before call `c`. -/
def CalledBefore (w : World) (c r : Nat) : Prop := ∃ n k, n < c ∧ w.call? n = some k ∧ k.relay = r

variable {w v : World}

theorem reported_iff : w.reported r = true ↔ ∃ e ∈ w.events r, e.isFinal = true := List.any_eq_true

theorem reported_of_prefix (h : w.events r <+: v.events r) (hw : w.reported r = true) :
    v.reported r = true := by
  obtain ⟨e, he, hf⟩ := reported_iff.mp hw
  exact reported_iff.mpr ⟨e, h.subset he, hf⟩

theorem anyReported_iff : w.anyReported = true ↔ ∃ r, w.reported r = true := by
  rw [anyReported, List.any_eq_true]
  refine ⟨fun ⟨r, _, hr⟩ => ⟨r, hr⟩, fun ⟨r, hr⟩ => ⟨r, List.mem_range.mpr ?_, hr⟩⟩
  obtain ⟨e, he, -⟩ := reported_iff.mp hr
  by_contra hn
  have hnone : w.relay? r = none := Array.getElem?_eq_none_iff.mpr (Nat.le_of_not_lt hn)
  rw [events, hnone] at he
  cases he

theorem SparesListeners.anyReported (h : w.SparesListeners v) (hw : w.anyReported = true) :
    v.anyReported = true := by
  obtain ⟨r, hr⟩ := anyReported_iff.mp hw
  exact anyReported_iff.mpr ⟨r, reported_of_prefix (h.events r) hr⟩

theorem reported_flush (hr : r < w.relays.size) (c : Nat) {d : Event.Draft}
    (hd : d.kind = .allDrainedWithin ∨ d.kind = .graceExceeded) (result : Option RelayError) :
    (w.flush c r d result).reported r = true := by
  refine reported_iff.mpr ⟨_, List.mem_of_getLast? (getLast?_flush hr c d result), ?_⟩
  simpa [Event.isFinal, Event.Draft.kind_stamp] using hd

end World

namespace World

variable {w : World}

theorem closed_register (w : World) (n : Nat) (name : String) (sink : Sink) (r : Nat) :
    (w.register n name sink).1.closed r = w.closed r := by
  have hstep := w.registerStep n name sink
  generalize (w.register n name sink).1 = v at hstep
  cases hstep with
  | panics | ignored => rfl
  | enrolls => exact closed_enroll ..

theorem closed_unregister (w : World) (n : Nat) (id : SubscriberId) (r : Nat) :
    (w.unregister n id).1.closed r = w.closed r := by
  rw [unregister]
  split
  · exact closed_withdraw ..
  · rfl

theorem closed_publish (w : World) (n : Nat) (m : Message) (r : Nat) :
    (w.publish n m).closed r = w.closed r := by
  have hstep := w.publishStep n m
  generalize w.publish n m = v at hstep
  cases hstep with
  | missing | ignored => rfl
  | unheard => exact closed_emit ..
  | fansOut => exact closed_fanOut ..

theorem closed_openCall_of_ne {n r : Nat} (hne : n ≠ r) (owner : Option SubscriberId) :
    (w.openCall n owner).closed r = w.closed r := by
  have hstep := w.openCallStep n owner
  generalize w.openCall n owner = v at hstep
  cases hstep with
  | missing | late => rfl
  | @closes q _ hq =>
    have hsame := closed_close (lt_size_of_relay? hq) q r
    rw [if_neg hne] at hsame
    exact hsame

theorem closed_stepCall (w : World) (c r : Nat) : (w.stepCall c).closed r = w.closed r := by
  have hstep := w.callStep c
  generalize w.stepCall c = v at hstep
  cases hstep with
  | stays | expired | returns => rfl
  | drained | stopped => exact closed_flush ..

theorem closed_giveUp (w : World) (c r : Nat) : (w.giveUp c).closed r = w.closed r := by
  rw [giveUp]
  split <;> rfl

theorem closed_abandon (w : World) (id : SubscriberId) (wait : Wait) (r : Nat) :
    (w.abandon id wait).closed r = w.closed r := by
  obtain ⟨calls, he⟩ := w.abandon_eq id wait
  rw [he]
  rfl

theorem closed_conclude (w : World) (id : SubscriberId) (n : Nat) (m : Message)
    (deadline : Option Nat) (o : Outcome) (r : Nat) :
    (w.conclude id n m deadline o).closed r = w.closed r := by
  cases o with
  | ended f =>
    cases f with
    | none => rfl
    | some f => exact closed_contain ..
  | crashed => rfl
  | waits wait rest =>
    rw [conclude, waitOn]
    split
    · exact (closed_contain ..).trans (closed_abandon ..)
    · rfl

end World

theorem Transition.closed_cases (h : Transition a b) (hc : b.world.closed r = true) :
    a.world.closed r = true ∨ a.world.relayExists r = true ∧ b = a.shutdown r := by
  cases h with
  | sameCore hv => exact .inl ((hv.closed r).symm.trans hc)
  | build => exact .inl ((World.closed_build ..).symm.trans hc)
  | register => exact .inl ((World.closed_register ..).symm.trans hc)
  | unregister => exact .inl ((World.closed_unregister ..).symm.trans hc)
  | publish => exact .inl ((World.closed_publish ..).symm.trans hc)
  | shutdown n hex =>
    by_cases hn : n = r
    · exact .inr ⟨hn ▸ hex, hn ▸ rfl⟩
    · exact .inl ((World.closed_openCall_of_ne hn _).symm.trans hc)
  | call => exact .inl ((World.closed_stepCall ..).symm.trans hc)
  | giveUp => exact .inl ((World.closed_giveUp ..).symm.trans hc)
  | begin | crash | poll | row | back | stop => exact .inl hc
  | conclude => exact .inl ((World.closed_conclude ..).symm.trans hc)
  | abort => exact .inl ((World.closed_abandon ..).symm.trans hc)

theorem Moment.Reached.called (ha : a.Reached) (hc : a.world.closed r = true) :
    ∃ c k, a.world.call? c = some k ∧ k.relay = r := by
  induction ha with
  | refl => cases hc
  | @tail b d hb hbd ih =>
    have hs : b.Sound := Moment.Reached.sound hb
    rcases hbd.closed_cases hc with hc | ⟨hex, rfl⟩
    · obtain ⟨c, k, hk, hr⟩ := ih hc
      obtain ⟨j, hj, ht⟩ := hbd.callChange hk
      exact ⟨c, j, hj, ht.relay.trans hr⟩
    · obtain ⟨p, hp, -⟩ := World.calls_openCall (hs.named r hex) (b.slice.map (·.id))
      refine ⟨b.world.calls.size, ⟨r, b.slice.map (·.id), p⟩, ?_, rfl⟩
      change (b.world.openCall r _).calls[_]? = _
      rw [hp]
      exact Array.getElem?_push_size

theorem Transition.calledBefore (h : Transition a b) (hc : c ≤ a.world.calls.size) :
    b.world.CalledBefore c r ↔ a.world.CalledBefore c r := by
  constructor
  · rintro ⟨n, k, hn, hk, hr⟩
    obtain ⟨j, hj⟩ : ∃ j, a.world.call? n = some j :=
      ⟨_, Array.getElem?_eq_getElem (Nat.lt_of_lt_of_le hn hc)⟩
    obtain ⟨i, hi, ht⟩ := h.callChange hj
    obtain rfl := Option.mem_unique hi hk
    exact ⟨n, j, hn, hj, ht.relay.symm.trans hr⟩
  · rintro ⟨n, k, hn, hk, hr⟩
    obtain ⟨j, hj, ht⟩ := h.callChange hk
    exact ⟨n, j, hn, hj, ht.relay.trans hr⟩

/-- A call that is not the first one on its relay has returned at once. -/
theorem Moment.Reached.returned_of_calledBefore (ha : a.Reached) {k : Call}
    (hk : a.world.call? c = some k) (hf : a.world.CalledBefore c k.relay) :
    k.phase = .returned none := by
  induction ha generalizing k with
  | refl => cases hk
  | @tail b d hb hbd ih =>
    have hs : b.Sound := Moment.Reached.sound hb
    cases hj : b.world.call? c with
    | some j =>
      obtain ⟨i, hi, ht⟩ := hbd.callChange hj
      obtain rfl := Option.mem_unique hi hk
      have hc := Nat.le_of_lt (Array.getElem?_eq_some_iff.mp hj).1
      rw [hbd.calledBefore hc, ht.relay] at hf
      have hdone := ih hj hf
      rw [ht.eq_of_pending (by rw [hdone]; rfl)]
      exact hdone
    | none =>
      obtain ⟨-, hc, -, -, hp⟩ := hbd.call_new hs hj hk
      obtain ⟨n, i, -, hi, hir⟩ := (hbd.calledBefore (Nat.le_of_eq hc)).mp hf
      have hshut := Moment.Reached.call_closed hb hi
      rcases hp with ⟨hp, -⟩ | ⟨-, ho⟩
      · exact hp
      · rw [← hir, hshut] at ho
        cases ho

theorem Moment.Walked.reported (ha : a.Walked) {k : Call} (hk : a.world.call? c = some k)
    (hf : ¬ a.world.CalledBefore c k.relay) {x : Option RelayError}
    (hv : k.phase.verdict? = some x) : a.world.reported k.relay = true := by
  induction ha generalizing k with
  | refl => cases hk
  | @tail b d hb hbd ih =>
    have hb : b.Walked := hb
    have hs := hb.reached.sound
    cases hj : b.world.call? c with
    | some j =>
      obtain ⟨i, hi, ht⟩ := hbd.transition_of.callChange hj
      obtain rfl := Option.mem_unique hi hk
      have hc := Nat.le_of_lt (Array.getElem?_eq_some_iff.mp hj).1
      rw [hbd.transition_of.calledBefore hc, ht.relay] at hf
      have hlt := hs.calls c j hj
      rw [ht.relay]
      cases ht with
      | keep => exact World.reported_of_prefix (hbd.events _) (ih hj hf hv)
      | returns hp =>
        refine World.reported_of_prefix (hbd.events _) (ih hj hf ?_)
        rw [hp]
        exact hv
      | drop | expired => cases hv
      | drained _ _ hd =>
        rw [hd]
        exact World.reported_flush hlt c (.inl rfl) none
      | stopped _ _ hd =>
        rw [hd]
        exact World.reported_flush hlt c (.inr rfl) _
    | none =>
      obtain ⟨-, hc, -, -, hp⟩ := hbd.transition_of.call_new hs hj hk
      rcases hp with ⟨-, hclosed⟩ | ⟨hp, -⟩
      · -- A relay that is closed already has been closed by an earlier call.
        obtain ⟨n, i, hi, hir⟩ := hb.reached.called hclosed
        have hn : n < c := hc ▸ (Array.getElem?_eq_some_iff.mp hi).1
        exact absurd ((hbd.transition_of.calledBefore (Nat.le_of_eq hc)).mpr ⟨n, i, hn, hi, hir⟩) hf
      · rw [hp] at hv
        cases hv

theorem World.result?_eq_some_iff {w : World} {x : Option RelayError} :
    w.result? c = some x ↔ ∃ k, w.call? c = some k ∧ k.phase = .returned x := by
  rw [World.result?]
  cases w.call? c with
  | none => simp
  | some k =>
    obtain ⟨n, o, p⟩ := k
    cases p <;> simp

def World.Visited (w : World) : Prop := ∃ f ps, Moment.Walked ⟨w, f, ps⟩

/-- Where a call has come back in one of two worlds with the same calls, and not in the other, the
last report is there. -/
theorem World.Concur.reported {u v : World} (h : u.Concur v) (hu : u.Visited) (hv : v.Visited)
    {x : Option RelayError} (hx : u.result? c = some x) (hy : v.result? c = none) :
    ∃ k, u.call? c = some k ∧ u.reported k.relay = true := by
  obtain ⟨f, ps, hu⟩ := hu
  obtain ⟨g, qs, hv⟩ := hv
  obtain ⟨k, hk, hp⟩ := World.result?_eq_some_iff.mp hx
  refine ⟨k, hk, hu.reported hk (x := x) ?_ (by rw [hp]; rfl)⟩
  rintro ⟨n, i, hn, hi, hir⟩
  -- In the other world it is no first call either, and has come back at once.
  obtain ⟨j, hj, hm⟩ := h.call?_left hk
  obtain ⟨m, hm', hmi⟩ := h.call?_left hi
  have hf : v.CalledBefore c j.relay := ⟨n, m, hn, hm', hmi.relay.symm.trans (hir.trans hm.relay)⟩
  have hback := World.result?_eq_some_iff.mpr ⟨j, hj, hv.reached.returned_of_calledBefore hj hf⟩
  cases hy.symm.trans hback

end Fanout
