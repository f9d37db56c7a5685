import Fanout.Proofs.Fifo

/-! # Who feeds a queue

The queue of a subscriber has a sender as long as its relay exists and has it active. A sender
that is gone never comes back, so the queue gets no more messages, and only then an idle worker
may stop without having been told to.
-/
namespace Fanout

theorem World.isFed_iff {w : World} {id : SubscriberId} : w.isFed id = true ↔
    ∃ s, w.subscriber? id = some s ∧ w.relayExists s.relay = true ∧ id ∈ w.active s.relay := by
  rw [World.isFed]
  cases w.subscriber? id with
  | none => simp
  | some s => simp [World.isActive_iff]

namespace PartChange

variable {id : SubscriberId} {w v : World} {p q : Part}

theorem active (h : PartChange id w v p q) {s : Subscriber} (hs : p.sub = some s) {n : Nat}
    (hn : q.active n) : p.active n := by
  cases h with
  | born hb => cases hb.symm.trans hs
  | withdraw | close | engage => exact hn.1
  | refused | halt | accept | begin | crash | poll | row | back | finish | fail | overrun | wait
  | abort | stop => exact hn

theorem enqueued (h : PartChange id w v p q) {s : Subscriber} (hs : p.sub = some s)
    (hf : ¬ (w.relayExists s.relay = true ∧ p.active s.relay)) : q.enqueued = p.enqueued := by
  cases h with
  | accept m ht _ _ ha he =>
    obtain rfl := Option.mem_unique hs ht
    exact absurd ⟨he, ha⟩ hf
  | born | refused | withdraw | close | halt | begin | crash | poll | row | engage | back | finish
  | fail | overrun | wait | abort | stop => rfl

/-- How a worker may exit: told to stop, or idle with nothing left to come, or taken down. -/
theorem exits (h : PartChange id w v p q) {s t : Subscriber} (hs : p.sub = some s)
    (ht : q.sub = some t) (hl : s.live = true) (hd : t.live = false) :
    s.cancelled = true ∨
      p.slice = none ∧ s.phase = .idle ∧ s.queue = [] ∧ w.isFed id = false ∨
      t.phase = .crashed ∧ s.sink.BringsDown s.begun := by
  cases h with
  | born hn | refused hn => cases hn.symm.trans hs
  | withdraw hu | halt hu | accept _ hu | begin hu =>
    obtain rfl := Option.mem_unique hs hu
    obtain rfl := Option.some.inj ht
    cases hl.symm.trans hd
  | close | poll | row | engage | back =>
    obtain rfl := Option.mem_unique hs ht
    cases hl.symm.trans hd
  | crash hu _ _ _ _ hb =>
    obtain rfl := Option.mem_unique hs hu
    obtain rfl := Option.some.inj ht
    exact .inr (.inr ⟨rfl, hb⟩)
  | finish | fail | overrun | wait =>
    obtain rfl := Option.some.inj ht
    cases hd
  | abort hu _ _ hc =>
    obtain rfl := Option.mem_unique hs hu
    exact .inl hc
  | stop hu hslice hi hc =>
    obtain rfl := Option.mem_unique hs hu
    exact hc.imp_right fun ⟨hq, hf⟩ => .inl ⟨hslice, hi, hq, hf⟩

end PartChange

variable {a b : Moment} {id : SubscriberId} {r : Nat}

theorem Transition.exits (h : Transition a b) (ha : a.Sound) {s t : Subscriber}
    (hs : a.world.subscriber? id = some s) (ht : b.world.subscriber? id = some t)
    (hl : s.live = true) (hd : t.live = false) :
    s.cancelled = true ∨
      a.sliceOf id = none ∧ s.phase = .idle ∧ s.queue = [] ∧ a.world.isFed id = false ∨
      t.phase = .crashed ∧ s.sink.BringsDown s.begun := by
  rcases h.partChange ha id with he | hchange
  · have he : b.world.subscriber? id = a.world.subscriber? id := congrArg Part.sub he
    obtain rfl := Option.mem_unique (he.trans hs) ht
    cases hl.symm.trans hd
  · exact hchange.exits hs ht hl hd

theorem Transition.existence (h : Transition a b) (ha : a.Sound) (hr : r < a.world.relays.size)
    (hb : b.world.relayExists r = true) : a.world.relayExists r = true := by
  rcases (World.relayExists_iff _ r).mp hb with ⟨x, hx, rfl⟩ | ⟨k, hk, rfl, hp⟩
  · rcases h.name_cases hx with he | ⟨he, -⟩
    · exact he
    · omega
  · obtain ⟨c, hc⟩ := Array.mem_iff_getElem?.mp hk
    cases hj : a.world.call? c with
    | none => exact (h.call_new ha hj hc).2.2.1
    | some j =>
      obtain ⟨i, hi, ht⟩ := h.callChange hj
      obtain rfl := Option.mem_unique hi hc
      refine (World.relayExists_iff _ _).mpr (.inr ⟨j, Array.mem_of_getElem? hj, ?_⟩)
      exact ⟨ht.relay.symm, ht.pending hp⟩

theorem Transitions.relays_le (hab : Transitions a b) (ha : a.Sound) :
    a.world.relays.size ≤ b.world.relays.size := by
  induction hab with
  | refl => exact Nat.le_refl _
  | tail hac hcd ih => exact Nat.le_trans ih (hcd.relayChange (Transitions.sound hac ha)).relays_le

theorem Transitions.existence (hab : Transitions a b) (ha : a.Sound) (hr : r < a.world.relays.size)
    (hb : b.world.relayExists r = true) : a.world.relayExists r = true := by
  induction hab with
  | refl => exact hb
  | tail hac hcd ih =>
    have hlt := Nat.lt_of_lt_of_le hr (Transitions.relays_le hac ha)
    exact ih (hcd.existence (Transitions.sound hac ha) hlt hb)

theorem Transition.unfed (h : Transition a b) (ha : a.Sound) {s : Subscriber}
    (hs : a.world.subscriber? id = some s) (hf : a.world.isFed id = false) :
    b.world.isFed id = false := by
  rw [Bool.eq_false_iff] at hf ⊢
  intro hb
  obtain ⟨t, ht, he, hact⟩ := World.isFed_iff.mp hb
  obtain ⟨u, hu, hr, -⟩ := Transitions.subscriber (.single h) ha hs
  obtain rfl := Option.mem_unique hu ht
  rw [hr] at he hact
  refine hf (World.isFed_iff.mpr ⟨s, hs, h.existence ha (ha.housed id s hs) he, ?_⟩)
  rcases h.partChange ha id with hpart | hchange
  · have hsame : (id ∈ b.world.active s.relay) = (id ∈ a.world.active s.relay) :=
      congrFun (congrArg Part.active hpart) s.relay
    exact hsame.mp hact
  · exact hchange.active hs hact

theorem Transitions.unfed (hab : Transitions a b) (ha : a.Sound) {s : Subscriber}
    (hs : a.world.subscriber? id = some s) (hf : a.world.isFed id = false) :
    b.world.isFed id = false := by
  induction hab with
  | refl => exact hf
  | tail hac hcd ih =>
    obtain ⟨t, ht, -⟩ := Transitions.subscriber hac ha hs
    exact hcd.unfed (Transitions.sound hac ha) ht ih

/-- Without a sender nothing more is enqueued. -/
theorem Transitions.enqueued (hab : Transitions a b) (ha : a.Sound) {s : Subscriber}
    (hs : a.world.subscriber? id = some s) (hf : a.world.isFed id = false) :
    b.enqueued id = a.enqueued id := by
  induction hab with
  | refl => rfl
  | @tail c d hac hcd ih =>
    have hc := Transitions.sound hac ha
    obtain ⟨t, ht, -⟩ := Transitions.subscriber hac ha hs
    have hfc := Transitions.unfed hac ha hs hf
    rcases hcd.partChange hc id with he | hchange
    · exact (congrArg Part.enqueued he).trans ih
    · refine (hchange.enqueued ht fun ⟨he, hact⟩ => ?_).trans ih
      cases hfc.symm.trans (World.isFed_iff.mpr ⟨t, ht, he, hact⟩)

end Fanout
