import Fanout.Proofs.Soundness

/-! # Settled relays

A relay that is closed, has no workers and is watched by no shutdown call stays so. Nothing is
reported on its bus any more, and nothing happens to its subscribers.
-/
namespace Fanout

/-- A relay that is closed, without workers and without a shutdown that still looks at them. -/
structure World.Settled (w : World) (r : Nat) : Prop where
  closed : w.closed r = true
  workers : ∀ id s, w.subscriber? id = some s → s.relay = r → s.live = false
  calls : ∀ c k, w.call? c = some k → k.relay = r → k.phase.unsettled = false

theorem World.liveWorkers_eq_zero_iff {w : World} {r : Nat} : w.liveWorkers r = 0 ↔
    ∀ id s, w.subscriber? id = some s → s.relay = r → s.live = false := by
  rw [World.liveWorkers, Array.countP_eq_zero]
  constructor
  · intro h id s hs hr
    have hn := h s (Array.mem_of_getElem? hs)
    simpa [hr] using hn
  · intro h s hs
    obtain ⟨i, hi⟩ := Array.mem_iff_getElem?.mp hs
    have hn := h ⟨i⟩ s hi
    simpa using hn

variable {a b : Moment} {r : Nat}

theorem Transition.workerless (h : Transition a b) (ha : a.Sound) (hc : a.world.closed r = true)
    (hl : a.world.liveWorkers r = 0) : b.world.liveWorkers r = 0 := by
  rw [World.liveWorkers_eq_zero_iff] at hl ⊢
  intro id t ht htr
  cases hv : t.live with
  | false => rfl
  | true =>
    rcases h.subscriber_cases ha ht with ⟨s, hs, hsr, -, hlive⟩ | ⟨-, hopen⟩
    · exact (hlive hv).symm.trans (hl id s hs (hsr.symm.trans htr))
    · exact hc.symm.trans (htr ▸ hopen hv)

theorem Transitions.workerless (hab : Transitions a b) (ha : a.Sound) (hc : a.world.closed r = true)
    (hl : a.world.liveWorkers r = 0) : b.world.closed r = true ∧ b.world.liveWorkers r = 0 := by
  induction hab with
  | refl => exact ⟨hc, hl⟩
  | tail hac hcd ih =>
    have hs := Transitions.sound hac ha
    exact ⟨(hcd.relayChange hs).stays_closed ih.1, hcd.workerless hs ih.1 ih.2⟩

theorem Transition.settled (h : Transition a b) (ha : a.Sound) (hr : a.world.Settled r) :
    b.world.Settled r where
  closed := (h.relayChange ha).stays_closed hr.closed
  workers := World.liveWorkers_eq_zero_iff.mp
    (h.workerless ha hr.closed (World.liveWorkers_eq_zero_iff.mpr hr.workers))
  calls c k hk hkr := by
    cases hu : k.phase.unsettled with
    | false => rfl
    | true =>
      rcases h.unsettled ha hk hu with ⟨j, hj, hju, hjr⟩ | ⟨-, ho, -⟩
      · rw [hr.calls c j hj (hjr.trans hkr)] at hju
        cases hju
      · rw [hkr, hr.closed] at ho
        cases ho

theorem Transitions.settled (hab : Transitions a b) (ha : a.Sound) (hr : a.world.Settled r) :
    b.world.Settled r := by
  induction hab with
  | refl => exact hr
  | tail hac hcd ih => exact hcd.settled (Transitions.sound hac ha) ih

/-- The last report comes when the relay is settled. -/
theorem Transition.settled_of_ended (h : Transition a b) (ha : a.Sound) {c : Nat} {k j : Call}
    (hk : a.world.call? c = some k) (hu : k.phase.unsettled = true)
    (hl : a.world.liveWorkers k.relay = 0)
    (hs : b.world.subscribers = a.world.subscribers) (hj : b.world.call? c = some j)
    (hn : j.phase.unsettled = false) : b.world.Settled k.relay where
  closed := (h.relayChange ha).stays_closed (ha.closing c k hk hu)
  workers id s hsub hr := by
    rw [World.subscriber?, hs] at hsub
    exact World.liveWorkers_eq_zero_iff.mp hl id s hsub hr
  calls n i hi hr := by
    cases hiu : i.phase.unsettled with
    | false => rfl
    | true =>
      rcases h.unsettled ha hi hiu with ⟨m, hm, hmu, hmr⟩ | ⟨-, ho, -⟩
      · obtain rfl := ha.alone c n k m hk hm hu hmu (hr.symm.trans hmr.symm)
        obtain rfl := Option.mem_unique hj hi
        cases hn.symm.trans hiu
      · rw [hr, ha.closing c k hk hu] at ho
        cases ho

theorem Transition.callFree (h : Transition a b) (ha : a.Sound) (hr : a.world.Settled r) :
    b.world.events r = a.world.events r := by
  have hother : ∀ {n ds}, a.world.Reports n ds b.world → n ≠ r →
      b.world.events r = a.world.events r := by
    intro n ds hv hn
    rw [hv.events, if_neg hn, List.append_nil]
  have hopen : ∀ {n}, a.world.closed n = false → n ≠ r := by
    rintro n ho rfl
    rw [hr.closed] at ho
    cases ho
  cases h.relayChange ha with
  | still _ _ hev => exact hev r
  | enrolled n _ ho hv | ignored n ho _ hv | published n ho _ hv | shut n ho hv =>
    exact hother hv (hopen ho)
  | withdrawn n id hm hv =>
    apply hother hv
    rintro rfl
    rw [ha.shut n hr.closed] at hm
    cases hm
  | faulted n id s f hs hsr hl _ hv =>
    apply hother hv
    rintro rfl
    cases hl.symm.trans (hr.workers id s hs hsr)
  | ended c k _ _ hk hu _ _ hv =>
    apply hother hv
    intro hkr
    cases hu.symm.trans (hr.calls c k hk hkr)

theorem Transitions.callFree (hab : Transitions a b) (ha : a.Sound) (hr : a.world.Settled r) :
    b.world.events r = a.world.events r := by
  induction hab with
  | refl => rfl
  | tail hac hcd ih =>
    exact (hcd.callFree (Transitions.sound hac ha) (Transitions.settled hac ha hr)).trans ih

/-- From one part to another nothing has happened in deliveries, and none is running. -/
structure Part.Rests (p q : Part) : Prop where
  slice : q.slice = none
  enqueued : q.enqueued = p.enqueued
  rows : q.rows = p.rows
  conclusions : q.conclusions = p.conclusions
  faults : q.faults = p.faults

theorem PartChange.rests {id : SubscriberId} {w v : World} {o p q : Part}
    (h : PartChange id w v p q)
    (hs : ∀ s, p.sub = some s → s.live = false) (hp : o.Rests p) : o.Rests q := by
  obtain ⟨hslice, he, hx, hc, hf⟩ := hp
  cases h with
  | born | refused | withdraw | close | halt | stop => exact ⟨hslice, he, hx, hc, hf⟩
  | accept m ht hv => cases (hs _ ht).symm.trans hv
  | begin ht _ hi | crash ht _ hi =>
    cases (hs _ ht).symm.trans (Subscriber.live_of_idle hi)
  | poll ht _ hd | abort ht _ hd =>
    cases (hs _ ht).symm.trans (Subscriber.live_of_delivering hd)
  | row hm | engage _ hm | back hm | finish _ hm | fail _ hm | overrun _ hm | wait _ hm =>
    cases hslice.symm.trans hm

/-- The subscribers of a settled relay have no deliveries any more, not even new ones. -/
theorem Transitions.rests {id : SubscriberId} (hab : Transitions a b) (ha : a.Sound)
    (hr : a.world.Settled r) (hb : ∀ t, b.world.subscriber? id = some t → t.relay = r) :
    (a.part id).Rests (b.part id) := by
  induction hab with
  | refl =>
    refine ⟨?_, rfl, rfl, rfl, rfl⟩
    cases hm : (a.part id).slice with
    | none => rfl
    | some l =>
      obtain ⟨-, s, hs, -, hv⟩ := (ha.part id).slice l hm
      cases (hr.workers id s hs (hb s hs)).symm.trans hv
  | @tail c d hac hcd ih =>
    have hcs := Transitions.sound hac ha
    have hc : ∀ s, c.world.subscriber? id = some s → s.relay = r := by
      intro s hs
      obtain ⟨t, ht, htr, -⟩ := Transitions.subscriber (.single hcd) hcs hs
      exact htr.symm.trans (hb t ht)
    have hdead : ∀ s, (c.part id).sub = some s → s.live = false :=
      fun s hs => (Transitions.settled hac ha hr).workers id s hs (hc s hs)
    rcases hcd.partChange hcs id with he | hchange
    · rw [he]
      exact ih hc
    · exact hchange.rests hdead (ih hc)

end Fanout
