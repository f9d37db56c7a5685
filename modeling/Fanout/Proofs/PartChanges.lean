import Fanout.Proofs.Parts

/-! # How a transition changes a part

A transition leaves the part of a subscriber as it is, or changes it in one of the ways below. What
a run keeps of one subscriber is proved over these changes alone.
-/
namespace Fanout

/-- A call that has yet to see the workers off. -/
def CallPhase.unsettled : CallPhase → Bool
  | .draining _ | .cancelling _ => true
  | _ => false

def Part.Engaged (p : Part) (c : Nat) : Prop :=
  (∃ l, p.slice = some l ∧ l.call = some c) ∨
    p.slice = none ∧ ∃ s d, p.sub = some s ∧ s.phase = .delivering d ∧ d.wait = .call c

/-- The facts that hold at every moment of a run. -/
structure Moment.Sound (a : Moment) : Prop where
  nodup : ∀ r, (a.world.active r).Nodup
  shut : ∀ r, a.world.closed r = true → a.world.active r = []
  member : ∀ r, ∀ id ∈ a.world.active r,
    ∃ s, a.world.subscriber? id = some s ∧ s.relay = r ∧ s.cancelled = false
  housed : ∀ id s, a.world.subscriber? id = some s → s.relay < a.world.relays.size
  named : ∀ r, a.world.relayExists r = true → r < a.world.relays.size
  slice : ∀ l, a.slice = some l →
    ∃ s, a.world.subscriber? l.id = some s ∧ s.relay = l.relay ∧ s.live = true
  calls : ∀ c k, a.world.call? c = some k → k.relay < a.world.relays.size
  closing : ∀ c k, a.world.call? c = some k → k.phase.unsettled = true →
    a.world.closed k.relay = true
  alone : ∀ c n k j, a.world.call? c = some k → a.world.call? n = some j →
    k.phase.unsettled = true → j.phase.unsettled = true → k.relay = j.relay → c = n
  owner : ∀ c k o, a.world.call? c = some k → k.owner = some o → k.phase.pending = true →
    (a.part o).Engaged c
  engaged : ∀ id c, (a.part id).Engaged c →
    ∃ k, a.world.call? c = some k ∧ k.owner = some id

def Part.withFault (p : Part) (w : World) (id : SubscriberId) (s : Subscriber) (f : SinkFault) :
    Nat → List Event :=
  fun n => p.faults n ++
    if s.relay = n then [(Event.Draft.fault s.name id f).stamp w.nextSeq w.now] else []

inductive PartChange (id : SubscriberId) (w v : World) : Part → Part → Prop where
  | born {p : Part} {s : Subscriber} : p.sub = none → s.phase = .idle → s.cancelled = false →
    s.queue = [] → s.relay < w.relays.size → w.closed s.relay = false →
    World.queueCapacity? s.sink.capacity = .ok s.capacity → w.relayExists s.relay = true →
    s.sink.name = .given s.name →
    PartChange id w v p { p with
      sub := some s
      active := fun n => p.active n ∨ n = s.relay }
  /-- Registered on a closed relay. -/
  | refused {p : Part} {s : Subscriber} : p.sub = none → s.phase = .stopped → s.queue = [] →
    w.closed s.relay = true → w.relayExists s.relay = true → s.sink.name = .given s.name →
    PartChange id w v p { p with sub := some s }
  | withdraw {p : Part} {s : Subscriber} : p.sub = some s → p.active s.relay →
    w.relayExists s.relay = true → v = w.withdraw s.relay id →
    PartChange id w v p { p with
      sub := some { s with cancelled := true }
      active := fun n => p.active n ∧ n ≠ s.relay }
  | close {p : Part} (r : Nat) : v.closed r = true →
    PartChange id w v p { p with active := fun n => p.active n ∧ n ≠ r }
  | halt {p : Part} {s : Subscriber} {c : Nat} {k : Call} {deadline : Nat} : p.sub = some s →
    w.call? c = some k → k.relay = s.relay → k.phase = .draining deadline →
    v.call? c = some { k with phase := .cancelling (w.liveWorkers k.relay) } →
    (∀ n, ¬ p.active n) → w.liveWorkers k.relay ≠ 0 → deadline ≤ w.now → v = w.stepCall c →
    PartChange id w v p { p with sub := some { s with cancelled := true } }
  | accept {p : Part} {s : Subscriber} (m : Message) : p.sub = some s → s.live = true →
    s.isFull = false → p.active s.relay → w.relayExists s.relay = true →
    PartChange id w v p { p with
      sub := some { s with queue := s.queue ++ [m] }
      enqueued := p.enqueued ++ [m] }
  | begin {p : Part} {s : Subscriber} {m : Message} {queue : List Message} : p.sub = some s →
    p.slice = none → s.phase = .idle → s.cancelled = false → s.queue = m :: queue →
    PartChange id w v p { p with
      sub := some { s with queue := queue, begun := s.begun + 1 }
      slice := some ⟨id, s.relay, m, w.deadlineFor s.relay, none⟩
      rows := p.rows ++ [.started m] }
  | crash {p : Part} {s : Subscriber} {m : Message} {queue : List Message} : p.sub = some s →
    p.slice = none → s.phase = .idle → s.cancelled = false → s.queue = m :: queue →
    s.sink.BringsDown s.begun →
    PartChange id w v p { p with
      sub := some { s with queue := [], begun := s.begun + 1, phase := .crashed }
      rows := p.rows ++ [.started m]
      conclusions := p.conclusions ++ [.crashed] }
  | poll {p : Part} {s : Subscriber} {d : Delivery} : p.sub = some s → p.slice = none →
    s.phase = .delivering d → s.cancelled = false →
    PartChange id w v p { p with slice := some ⟨id, s.relay, d.message, d.deadline, d.wait.call?⟩ }
  | row {p : Part} {l : Slice} {x : Row} : p.slice = some l → x.isPlain = true →
    PartChange id w v p { p with rows := p.rows ++ [x] }
  | engage {p : Part} {l : Slice} {k : Call} {c : Nat} (r : Nat) : p.slice = some l →
    l.call = none → v.call? c = some k → k.owner = some id → v.closed r = true →
    PartChange id w v p { p with
      slice := some { l with call := some c }
      active := fun n => p.active n ∧ n ≠ r }
  | back {p : Part} {l : Slice} {c : Nat} : p.slice = some l → l.call = some c →
    (v.result? c).isSome = true →
      PartChange id w v p { p with slice := some { l with call := none } }
  | finish {p : Part} {s : Subscriber} {l : Slice} : p.sub = some s → p.slice = some l →
    l.call = none →
    PartChange id w v p { p with
      sub := some { s with phase := .idle }
      slice := none
      conclusions := p.conclusions ++ [.delivered] }
  | fail {p : Part} {s : Subscriber} {l : Slice} {f : SinkFault} : p.sub = some s →
    p.slice = some l → l.call = none → f.isOwn = true →
    PartChange id w v p { p with
      sub := some { s with phase := .idle }
      slice := none
      conclusions := p.conclusions ++ [.fault f]
      faults := p.withFault w id s f }
  /-- Its delivery has to wait although its time is over. -/
  | overrun {p : Part} {s : Subscriber} {l : Slice} : p.sub = some s → p.slice = some l →
    (∃ t, l.deadline = some t ∧ t ≤ w.now) →
    (∀ c k, l.call = some c → v.call? c = some k → k.phase.pending = false) →
    PartChange id w v p { p with
      sub := some { s with phase := .idle }
      slice := none
      rows := p.rows ++ [.aborted]
      conclusions := p.conclusions ++ [.fault (.timedOut (w.timeoutOf s.relay))]
      faults := p.withFault w id s (.timedOut (w.timeoutOf s.relay)) }
  | wait {p : Part} {s : Subscriber} {l : Slice} {d : Delivery} : p.sub = some s →
    p.slice = some l → d.message = l.message → d.deadline = l.deadline → d.wait.call? = l.call →
    PartChange id w v p { p with
      sub := some { s with phase := .delivering d }
      slice := none }
  | abort {p : Part} {s : Subscriber} {d : Delivery} : p.sub = some s → p.slice = none →
    s.phase = .delivering d → s.cancelled = true →
    (∀ c k, d.wait = .call c → v.call? c = some k → k.phase.pending = false) →
    PartChange id w v p { p with
      sub := some { s with phase := .stopped, queue := [] }
      rows := p.rows ++ [.aborted]
      conclusions := p.conclusions ++ [.cancelled] }
  | stop {p : Part} {s : Subscriber} : p.sub = some s → p.slice = none → s.phase = .idle →
    s.cancelled = true ∨ s.queue = [] ∧ w.isFed id = false →
    PartChange id w v p { p with sub := some { s with phase := .stopped, queue := [] } }

variable {a b : Moment} {v w : World} {id : SubscriberId}

theorem sliceOf_of_slice {l : Slice} (hl : a.slice = some l) (hi : l.id = id) :
    a.sliceOf id = some l := by
  simp [Moment.sliceOf, hl, hi]

theorem sliceOf_of_ne {l : Slice} (hl : a.slice = some l) (hi : l.id ≠ id) :
    a.sliceOf id = none := by
  simp [Moment.sliceOf, hl, hi]

theorem sliceOf_of_none (hl : a.slice = none) (id : SubscriberId) : a.sliceOf id = none := by
  simp [Moment.sliceOf, hl]

theorem sliceOf_eq_some_iff {l : Slice} : a.sliceOf id = some l ↔ a.slice = some l ∧ l.id = id := by
  simp [Moment.sliceOf, Option.filter_eq_some_iff]

theorem World.Spares.part (hw : a.world.Spares id b.world) (hl : b.sliceOf id = a.sliceOf id)
    (he : b.enqueued id = a.enqueued id) : b.part id = a.part id := by
  simp only [Moment.part, hw.subscriber, hw.active, hl, he, hw.rows, hw.conclusions, hw.faults]

theorem enqueued_publish (a : Moment) (r : Nat) (m : Message) (id : SubscriberId) :
    (a.publish r m).enqueued id =
      a.enqueued id ++ if a.world.enqueues r id = true then [m] else [] := by
  simp only [Moment.enqueued, Moment.publish, List.filter_append, List.map_append]
  by_cases hr : a.world.enqueues r id = true
  · simp [Publication.reaches, hr]
  · simp [Publication.reaches, hr]

theorem PartChange.of_eq {p q x : Part} (hq : PartChange id w v p q) (hx : x = q) :
    PartChange id w v p x := hx ▸ hq

theorem partChange_enroll {r : Nat} {s : Subscriber} (hr : r < a.world.relays.size)
    (hex : a.world.relayExists r = true)
    (hc : a.world.closed r = false) (hs : s.relay = r) (hp : s.phase = .idle)
    (hk : s.cancelled = false) (hq : s.queue = [])
    (hcap : World.queueCapacity? s.sink.capacity = .ok s.capacity)
    (hname : s.sink.name = .given s.name) :
    ({ a with world := a.world.enroll r s } : Moment).part id = a.part id ∨
      PartChange id a.world (a.world.enroll r s) (a.part id)
        (({ a with world := a.world.enroll r s } : Moment).part id) := by
  by_cases hi : id.serial = a.world.subscribers.size
  · have hn : (a.part id).sub = none := by simp [Moment.part, World.subscriber?, hi]
    have ht : PartChange id a.world (a.world.enroll r s) (a.part id) _ :=
      .born hn hp hk hq (hs ▸ hr) (hs ▸ hc) hcap (hs ▸ hex) hname
    refine .inr (ht.of_eq (Part.ext ?_ ?_ rfl rfl ?_ ?_ ?_))
    · exact (World.subscriber?_enroll ..).trans (if_pos hi)
    · have he : id = ⟨a.world.subscribers.size⟩ := congrArg SubscriberId.mk hi
      funext n
      refine (congrArg (id ∈ ·) (World.active_enroll hr s n)).trans ?_
      by_cases hn : r = n
      · subst hn
        simp [Moment.part, he, hs]
      · have hn' : n ≠ r := fun h => hn h.symm
        simp [Moment.part, hs, hn, hn']
    · exact World.rows_enroll ..
    · exact World.conclusions_enroll ..
    · funext n
      exact (World.reports_enroll hr s).spares
        (by simp [Event.Draft.registered, EventKind.endsDelivery]) n id
  · exact .inl ((World.spares_enroll hr hi s).part rfl rfl)

theorem partChange_turnAway {r : Nat} (hc : a.world.closed r = true)
    (hex : a.world.relayExists r = true) (name : String) {sink : Sink} {title : String}
    (hname : sink.name = .given title) :
    ({ a with world := a.world.turnAway r name sink title } : Moment).part id = a.part id ∨
      PartChange id a.world (a.world.turnAway r name sink title) (a.part id)
        (({ a with world := a.world.turnAway r name sink title } : Moment).part id) := by
  by_cases hi : id.serial = a.world.subscribers.size
  · let s : Subscriber :=
      { relay := r, relayName := name, sink := sink, name := title, capacity := 1
        cancelled := true, phase := .stopped }
    have hn : (a.part id).sub = none := by simp [Moment.part, World.subscriber?, hi]
    have ht : PartChange id a.world (a.world.turnAway r name sink title) (a.part id) _ :=
      .refused (s := s) hn rfl rfl hc hex hname
    refine .inr (ht.of_eq (Part.ext ?_ rfl rfl rfl ?_ ?_ rfl))
    · exact (World.subscriber?_push ..).trans (if_pos hi)
    · exact World.rows_trace ..
    · exact World.conclusions_trace ..
  · exact .inl ((World.spares_turnAway hi r name sink title).part rfl rfl)

theorem partChange_register {r : Nat} (hex : a.world.relayExists r = true) (name : String)
    (sink : Sink) :
    ({ a with world := (a.world.register r name sink).1 } : Moment).part id = a.part id ∨
      PartChange id a.world (a.world.register r name sink).1 (a.part id)
        (({ a with world := (a.world.register r name sink).1 } : Moment).part id) := by
  have hstep := a.world.registerStep r name sink
  generalize (a.world.register r name sink).1 = v at hstep
  cases hstep with
  | panics rs => exact .inl rfl
  | ignored hc hname => exact partChange_turnAway hc hex name hname
  | enrolls ho hr hname hcap => exact partChange_enroll hr hex ho rfl rfl rfl rfl hcap hname

theorem part_withdraw (ha : a.Sound) {s : Subscriber} (hs : a.world.subscriber? id = some s)
    (hm : id ∈ a.world.active s.relay) :
    ({ a with world := a.world.withdraw s.relay id } : Moment).part id = { a.part id with
      sub := some { s with cancelled := true }
      active := fun n => (a.part id).active n ∧ n ≠ s.relay } := by
  refine Part.ext ?_ ?_ rfl rfl ?_ ?_ ?_
  · exact (World.subscriber?_withdraw ..).trans (by rw [if_pos rfl, hs]; rfl)
  · funext n
    refine (congrArg (id ∈ ·) (World.active_withdraw ..)).trans ?_
    by_cases hn : s.relay = n
    · subst hn
      simp [Moment.part, (ha.nodup s.relay).mem_erase_iff]
    · have hn' : n ≠ s.relay := fun h => hn h.symm
      simp [Moment.part, hn, hn']
  · exact World.rows_withdraw ..
  · exact World.conclusions_withdraw ..
  · funext n
    exact (World.reports_withdraw (World.lt_size_of_mem_active hm) id).spares
      (by simp [Event.Draft.unregistered, EventKind.endsDelivery]) n id

theorem partChange_unregister (ha : a.Sound) {r : Nat} (hr : a.world.relayExists r = true)
    (i : SubscriberId) :
    ({ a with world := (a.world.unregister r i).1 } : Moment).part id = a.part id ∨
      PartChange id a.world (a.world.unregister r i).1 (a.part id)
        (({ a with world := (a.world.unregister r i).1 } : Moment).part id) := by
  by_cases hm : i ∈ a.world.active r
  · rw [World.unregister_of_mem hm]
    by_cases hi : i = id
    · subst hi
      obtain ⟨s, hs, rfl, -⟩ := ha.member r i hm
      exact .inr ((PartChange.withdraw (s := s) hs hm hr rfl).of_eq (part_withdraw ha hs hm))
    · exact .inl ((World.spares_withdraw (World.lt_size_of_mem_active hm) hi).part rfl rfl)
  · rw [World.unregister_of_notMem hm]
    exact .inl ((World.spares_trace ..).part rfl rfl)

theorem part_fanOut (ha : a.Sound) {r : Nat} {s : Subscriber}
    (hr : r < a.world.relays.size) (hi : id ∈ a.world.takers (a.world.active r))
    (hs : a.world.subscriber? id = some s) (m : Message) (published : List Publication) :
    let b : Moment := { a with
      world := a.world.fanOut r (a.world.active r) m
      published := published }
    b.part id = { a.part id with
      sub := some { s with queue := s.queue ++ [m] }
      enqueued := b.enqueued id } := by
  intro b
  refine Part.ext ?_ ?_ rfl rfl ?_ ?_ ?_
  · refine (World.subscriber?_fanOut _ r m (ha.nodup r) id).trans ?_
    rw [if_pos hi, hs]
    rfl
  · funext n
    exact congrArg (id ∈ ·) (World.active_fanOut ..)
  · exact World.rows_fanOut ..
  · exact World.conclusions_fanOut ..
  · funext n
    exact (World.reports_fanOut hr _ m).spares (World.kinds_fanOut _ _) n id

theorem partChange_publish (ha : a.Sound) {r : Nat} (hex : a.world.relayExists r = true)
    (m : Message) :
    let b := a.publish r m
    b.part id = a.part id ∨ PartChange id a.world b.world (a.part id) (b.part id) := by
  intro b
  have hq := enqueued_publish a r m id
  have hno : a.world.enqueues r id = false → b.enqueued id = a.enqueued id := by
    intro h
    rw [hq, h]
    exact List.append_nil _
  have hspares : a.world.Spares id (a.world.publish r m) → a.world.enqueues r id = false →
      b.part id = a.part id := fun hs hn => World.Spares.part hs rfl (hno hn)
  have hstep := a.world.publishStep r m
  generalize he : a.world.publish r m = v at hstep
  rw [he] at hspares
  cases hstep with
  | missing hnobody => exact .inl (hspares (.refl ..) (by simp [World.enqueues, hnobody]))
  | ignored hc => exact .inl (hspares (World.spares_trace ..) (by simp [World.enqueues, hc]))
  | unheard _ _ hnobody =>
    have hs := (World.spares_trace a.world .publishedToNobody id).trans
      (World.spares_emit _ r (d := ⟨.publishedWithoutSubscribers, []⟩) fun seq time => rfl)
    exact .inl (hspares hs (by simp [World.enqueues, hnobody]))
  | fansOut hc hr =>
    have hb : b = { a with
        world := a.world.fanOut r (a.world.active r) m
        published := b.published } := congrArg (fun w => ({ b with world := w } : Moment)) he
    by_cases hi : id ∈ a.world.takers (a.world.active r)
    · obtain ⟨hm, s, hs, hl, hf⟩ := World.mem_takers_iff.mp hi
      have hn : a.world.enqueues r id = true := World.enqueues_iff.mpr ⟨hc, hi⟩
      obtain ⟨t, ht, hrel, -⟩ := ha.member r id hm
      obtain rfl : s = t := Option.mem_unique hs ht
      have ht : PartChange id a.world b.world (a.part id) _ :=
        .accept (s := s) m hs hl hf (hrel.symm ▸ hm) (hrel.symm ▸ hex)
      refine .inr (ht.of_eq ?_)
      rw [hb, part_fanOut ha hr hi hs, ← hb, hq, if_pos hn]
      rfl
    · have hn : a.world.enqueues r id = false := by
        rw [← Bool.not_eq_true, World.enqueues_iff]
        exact fun h => hi h.2
      exact .inl (hspares (World.spares_fanOut hr (ha.nodup r) hi m) hn)

theorem sliceOf_shutdown (a : Moment) (r : Nat) (id : SubscriberId) :
    (a.shutdown r).sliceOf id =
      (a.sliceOf id).map ({ · with call := some a.world.calls.size }) := by
  rw [Moment.sliceOf, Moment.sliceOf, Moment.shutdown, Option.filter_map]
  rfl

theorem part_shutdown (ha : a.Sound) {r : Nat} (hr : r < a.world.relays.size) :
    (a.shutdown r).part id = { a.part id with
      active := fun n => (a.part id).active n ∧ n ≠ r
      slice := (a.sliceOf id).map ({ · with call := some a.world.calls.size }) } := by
  have hj : (a.shutdown r).world.journal = a.world.journal := World.journal_openCall ..
  refine Part.ext ?_ ?_ (sliceOf_shutdown a r id) rfl ?_ ?_ ?_
  · exact congrArg (·[id.serial]?) (World.subscribers_openCall a.world r _)
  · funext n
    refine (congrArg (id ∈ ·) (World.active_openCall hr (ha.shut r) _ n)).trans ?_
    by_cases hn : r = n
    · simp [hn]
    · have hn' : n ≠ r := fun h => hn h.symm
      simp [Moment.part, hn, hn']
  · change (a.shutdown r).world.rows id = a.world.rows id
    rw [World.rows, hj, World.rows]
  · change (a.shutdown r).world.conclusions id = a.world.conclusions id
    rw [World.conclusions, hj, World.conclusions]
  · exact funext fun n => World.faults_openCall a.world r _ n id

theorem partChange_shutdown (ha : a.Sound) {r : Nat} (hr : r < a.world.relays.size)
    (hl : ∀ l, a.slice = some l → l.call = none) :
    let b := a.shutdown r
    b.part id = a.part id ∨ PartChange id a.world b.world (a.part id) (b.part id) := by
  intro b
  have hc : b.world.closed r = true := World.closed_openCall hr _
  have hb : b.part id = _ := part_shutdown ha hr
  cases he : a.sliceOf id with
  | some l =>
    obtain ⟨hslice, hi⟩ := sliceOf_eq_some_iff.mp he
    obtain ⟨p, hk, -⟩ := World.calls_openCall hr (a.slice.map (·.id))
    have hk : b.world.call? a.world.calls.size = some ⟨r, some id, p⟩ := by
      change (a.world.openCall r _).calls[_]? = _
      rw [hk, hslice, ← hi]
      exact Array.getElem?_push_size
    have ht : PartChange id a.world b.world (a.part id) _ := .engage r he (hl l hslice) hk rfl hc
    exact .inr (ht.of_eq (by rw [hb, he]; rfl))
  | none =>
    have ht : PartChange id a.world b.world (a.part id) _ := .close r hc
    refine .inr (ht.of_eq (hb.trans (Part.ext rfl rfl ?_ rfl rfl rfl rfl)))
    rw [he]
    exact he.symm

theorem part_expire {s : Subscriber} {r : Nat} (hs : a.world.subscriber? id = some s)
    (hr : s.relay = r) (c : Nat) (phase : CallPhase) :
    ({ a with world := (a.world.cancelAll r).setPhase c phase } : Moment).part id =
      { a.part id with sub := some { s with cancelled := true } } := by
  refine Part.ext ?_ rfl rfl rfl rfl rfl rfl
  refine (World.subscriber?_cancelAll a.world r id).trans ?_
  rw [hs, Option.map_some, if_pos (beq_iff_eq.mpr hr)]

theorem partChange_stepCall (ha : a.Sound) (c : Nat) :
    ({ a with world := a.world.stepCall c } : Moment).part id = a.part id ∨
      PartChange id a.world (a.world.stepCall c) (a.part id)
        (({ a with world := a.world.stepCall c } : Moment).part id) := by
  have hstep := a.world.callStep c
  by_cases hx : ∃ k deadline s, a.world.call? c = some k ∧ k.phase = .draining deadline ∧
      a.world.liveWorkers k.relay ≠ 0 ∧ deadline ≤ a.world.now ∧
      a.world.subscriber? id = some s ∧ s.relay = k.relay
  · obtain ⟨k, deadline, s, hk, hp, hl, hd, hs, hr⟩ := hx
    have he := World.stepCall_expired hk hp hl hd
    have hc : a.world.closed k.relay = true := ha.closing c k hk (by rw [hp]; rfl)
    have hv : ∀ n, ¬ (a.part id).active n := by
      intro n hn
      obtain ⟨t, ht, htr, -⟩ := ha.member n id hn
      obtain rfl : s = t := Option.mem_unique hs ht
      have he := ha.shut k.relay hc
      rw [← hr, htr] at he
      change id ∈ a.world.active n at hn
      rw [he] at hn
      cases hn
    have hk' : (a.world.stepCall c).call? c =
        some { k with phase := .cancelling (a.world.liveWorkers k.relay) } := by
      rw [he, World.call?_setPhase, if_pos rfl]
      exact congrArg (Option.map _) hk
    have ht : PartChange id a.world (a.world.stepCall c) (a.part id) _ :=
      .halt (s := s) hs hk hr.symm hp hk' hv hl hd rfl
    refine .inr (ht.of_eq ?_)
    rw [he]
    exact part_expire hs hr c _
  · refine .inl ((hstep.spares (ha.calls c) ?_).part rfl rfl)
    intro k deadline hk hp hl hd s hs hr
    exact hx ⟨k, deadline, s, hk, hp, hl, hd, hs, hr⟩

theorem part_giveUp (c : Nat) :
    ({ a with world := a.world.giveUp c } : Moment).part id = a.part id := by
  refine World.Spares.part ?_ rfl rfl
  change a.world.Spares id (a.world.giveUp c)
  rw [World.giveUp]
  split
  · exact World.spares_calls ..
  · exact .refl ..

section

variable {g : Option Slice} {ps : List Publication} {s : Subscriber}

theorem part_trace (w : World) (t : Trace) :
    (Moment.mk (w.trace t) g ps).part id = (Moment.mk w g ps).part id :=
  (World.spares_trace w t id).part rfl rfl

theorem part_row (w : World) (x : Row) :
    (Moment.mk (w.row id x) g ps).part id =
      { (Moment.mk w g ps).part id with rows := w.rows id ++ [x] } := by
  refine Part.ext rfl rfl rfl rfl ?_ (World.conclusions_row ..) rfl
  exact (World.rows_row ..).trans (by rw [if_pos rfl])

theorem part_concluded (w : World) (how : Conclusion) :
    (Moment.mk (w.note (.concluded id how)) g ps).part id =
      { (Moment.mk w g ps).part id with conclusions := w.conclusions id ++ [how] } := by
  refine Part.ext rfl rfl rfl rfl (World.rows_concluded ..) ?_ rfl
  exact (World.conclusions_concluded ..).trans (by rw [if_pos rfl])

theorem part_modifySubscriber (hs : w.subscriber? id = some s) (f : Subscriber → Subscriber) :
    (Moment.mk (w.modifySubscriber id f) g ps).part id =
      { (Moment.mk w g ps).part id with sub := some (f s) } := by
  refine Part.ext ?_ rfl rfl rfl rfl rfl rfl
  refine (World.subscriber?_modifySubscriber ..).trans ?_
  rw [if_pos rfl, hs]
  rfl

theorem part_take (hs : w.subscriber? id = some s) (m : Message) (queue : List Message) :
    (Moment.mk (w.take id m queue) g ps).part id = { (Moment.mk w g ps).part id with
      sub := some { s with queue := queue, begun := s.begun + 1 }
      rows := w.rows id ++ [.started m] } := by
  rw [World.take, part_row, part_modifySubscriber hs]
  rfl

theorem part_finish (hs : w.subscriber? id = some s) (how : Conclusion) :
    (Moment.mk (w.finish id how) g ps).part id = { (Moment.mk w g ps).part id with
      sub := some { s with phase := .idle }
      conclusions := w.conclusions id ++ [how] } := by
  refine (part_modifySubscriber (w := w.note (.concluded id how)) hs _).trans ?_
  rw [part_concluded]

theorem part_crash (hs : w.subscriber? id = some s) :
    (Moment.mk (w.crash id) g ps).part id = { (Moment.mk w g ps).part id with
      sub := some { s with phase := .crashed, queue := [] }
      conclusions := w.conclusions id ++ [.crashed] } := by
  refine (part_modifySubscriber (w := w.note (.concluded id .crashed)) hs _).trans ?_
  rw [part_concluded]

theorem part_stopWorker (hs : w.subscriber? id = some s) :
    (Moment.mk (w.stopWorker id) g ps).part id = { (Moment.mk w g ps).part id with
      sub := some { s with phase := .stopped, queue := [] } } := by
  rw [World.stopWorker, part_trace]
  exact part_modifySubscriber hs _

theorem part_abandon (w : World) (wait : Wait) :
    (Moment.mk (w.abandon id wait) g ps).part id =
      { (Moment.mk w g ps).part id with rows := w.rows id ++ [.aborted] } := by
  obtain ⟨calls, he⟩ := w.abandon_eq id wait
  rw [he]
  exact part_row w .aborted

theorem nameOf_eq (hs : w.subscriber? id = some s) : w.nameOf id = s.name := by
  rw [World.nameOf, hs]
  rfl

theorem faults_contain {f : SinkFault} (hs : w.subscriber? id = some s)
    (hr : s.relay < w.relays.size) (hf : f.endsDelivery = true) (n : Nat) :
    (w.contain id s.relay f).faults n id = w.faults n id ++ if s.relay = n then
      [(Event.Draft.fault s.name id f).stamp w.nextSeq w.now] else [] := by
  rw [(World.reports_contain hr id f).faults, nameOf_eq hs]
  have ht : ((Event.Draft.fault s.name id f).stamp w.nextSeq w.now).tellsOf id = true := by
    have hk : (Event.Draft.fault s.name id f).kind.endsDelivery = true := hf
    rw [Event.tellsOf, Event.Draft.kind_stamp, hk, World.id_fault]
    simp
  simp [Event.stampAll, ht]

theorem part_contain {f : SinkFault} (hs : w.subscriber? id = some s)
    (hr : s.relay < w.relays.size) (hf : f.endsDelivery = true) :
    (Moment.mk (w.contain id s.relay f) g ps).part id = { (Moment.mk w g ps).part id with
      sub := some { s with phase := .idle }
      conclusions := w.conclusions id ++ [.fault f]
      faults := ((Moment.mk w g ps).part id).withFault w id s f } := by
  have hp : (Moment.mk (w.finish id (.fault f)) g ps).part id = _ := part_finish hs (.fault f)
  rw [← part_trace _ (.contained (w.nameOf id) id f)] at hp
  have hsub := congrArg Part.sub hp
  have hrows := congrArg Part.rows hp
  have hconclusions := congrArg Part.conclusions hp
  refine Part.ext hsub ?_ rfl rfl hrows hconclusions ?_
  · funext n
    exact congrArg (id ∈ ·) (World.active_contain ..)
  · funext n
    exact faults_contain hs hr hf n

end

theorem pending_abandon (w : World) (i : SubscriberId) {wait : Wait} {c : Nat} {k : Call}
    (hw : wait.call? = some c) (hk : (w.abandon i wait).call? c = some k) :
    k.phase.pending = false := by
  cases wait with
  | turn => cases hw
  | «until» time => cases hw
  | forever => cases hw
  | call n =>
    obtain rfl : n = c := Option.some.inj hw
    have he := (World.call?_dropCall (w.row i .aborted) n n).symm.trans hk
    rw [if_pos rfl, Option.map_eq_some_iff] at he
    obtain ⟨j, -, hj⟩ := he
    by_cases hp : j.phase.pending = true
    · rw [if_pos hp] at hj
      rw [← hj]
      rfl
    · rw [if_neg hp] at hj
      rw [← hj]
      simpa using hp

theorem partChange_begin {i : SubscriberId} {s : Subscriber} {m : Message} {queue : List Message}
    (hl : a.slice = none) (hs : a.world.subscriber? i = some s) (hp : s.phase = .idle)
    (hc : s.cancelled = false) (hq : s.queue = m :: queue) :
    let b : Moment := { a with
      world := a.world.take i m queue
      slice := some ⟨i, s.relay, m, a.world.deadlineFor s.relay, none⟩ }
    b.part id = a.part id ∨ PartChange id a.world b.world (a.part id) (b.part id) := by
  intro b
  have hslice : b.slice = some ⟨i, s.relay, m, a.world.deadlineFor s.relay, none⟩ := rfl
  by_cases hi : i = id
  · subst hi
    have ht : PartChange i a.world b.world (a.part i) _ :=
      .begin (s := s) hs (sliceOf_of_none hl _) hp hc hq
    refine .inr (ht.of_eq ((part_take hs m queue).trans ?_))
    exact Part.ext rfl rfl (sliceOf_of_slice hslice rfl) rfl rfl rfl rfl
  · refine .inl (((World.Spares.deliveries hi).take ..).part ?_ rfl)
    exact (sliceOf_of_ne hslice hi).trans (sliceOf_of_none hl _).symm

theorem partChange_crash {i : SubscriberId} {s : Subscriber} {m : Message} {queue : List Message}
    (hl : a.slice = none) (hs : a.world.subscriber? i = some s) (hp : s.phase = .idle)
    (hc : s.cancelled = false) (hq : s.queue = m :: queue) (hb : s.sink.BringsDown s.begun) :
    let b : Moment := { a with world := (a.world.take i m queue).crash i }
    b.part id = a.part id ∨ PartChange id a.world b.world (a.part id) (b.part id) := by
  intro b
  by_cases hi : i = id
  · subst hi
    have ht : PartChange i a.world b.world (a.part i) _ :=
      .crash (s := s) hs (sliceOf_of_none hl _) hp hc hq hb
    let u : Moment := { a with world := a.world.take i m queue }
    have htake : u.part i = _ := part_take hs m queue
    refine .inr (ht.of_eq ((part_crash (congrArg Part.sub htake)).trans ?_))
    rw [htake, World.conclusions_take]
    rfl
  · have htake := (World.Spares.deliveries hi).take a.world m queue
    exact .inl ((htake.trans ((World.Spares.deliveries hi).crash _)).part rfl rfl)

theorem partChange_poll {i : SubscriberId} {s : Subscriber} {d : Delivery} (hl : a.slice = none)
    (hs : a.world.subscriber? i = some s) (hp : s.phase = .delivering d)
    (hc : s.cancelled = false) :
    let b : Moment := { a with slice := some ⟨i, s.relay, d.message, d.deadline, d.wait.call?⟩ }
    b.part id = a.part id ∨ PartChange id a.world b.world (a.part id) (b.part id) := by
  intro b
  have hslice : b.slice = some ⟨i, s.relay, d.message, d.deadline, d.wait.call?⟩ := rfl
  by_cases hi : i = id
  · subst hi
    have ht : PartChange i a.world b.world (a.part i) _ :=
      .poll (s := s) hs (sliceOf_of_none hl _) hp hc
    exact .inr (ht.of_eq (Part.ext rfl rfl (sliceOf_of_slice hslice rfl) rfl rfl rfl rfl))
  · have hb : a.world.Spares id b.world := .refl ..
    exact .inl (hb.part ((sliceOf_of_ne hslice hi).trans (sliceOf_of_none hl _).symm) rfl)

theorem partChange_row {l : Slice} {x : Row} (hl : a.slice = some l) (hx : x.isPlain = true) :
    let b : Moment := { a with world := a.world.row l.id x }
    b.part id = a.part id ∨ PartChange id a.world b.world (a.part id) (b.part id) := by
  intro b
  by_cases hi : l.id = id
  · subst hi
    have ht : PartChange l.id a.world b.world (a.part l.id) _ := .row (sliceOf_of_slice hl rfl) hx
    exact .inr (ht.of_eq (part_row ..))
  · exact .inl ((World.spares_row hi x).part rfl rfl)

theorem partChange_back {l : Slice} {c : Nat} (hl : a.slice = some l) (hc : l.call = some c)
    (hr : (a.world.result? c).isSome = true) :
    let b : Moment := { a with slice := some { l with call := none } }
    b.part id = a.part id ∨ PartChange id a.world b.world (a.part id) (b.part id) := by
  intro b
  have hslice : b.slice = some { l with call := none } := rfl
  by_cases hi : l.id = id
  · have ht : PartChange id a.world b.world (a.part id) _ := .back (sliceOf_of_slice hl hi) hc hr
    exact .inr (ht.of_eq (Part.ext rfl rfl (sliceOf_of_slice hslice hi) rfl rfl rfl rfl))
  · have hb : a.world.Spares id b.world := .refl ..
    exact .inl (hb.part ((sliceOf_of_ne hslice hi).trans (sliceOf_of_ne hl hi).symm) rfl)

theorem partChange_finish {l : Slice} (ha : a.Sound) (hl : a.slice = some l) (hc : l.call = none) :
    let b : Moment := { a with world := a.world.finish l.id .delivered, slice := none }
    b.part id = a.part id ∨ PartChange id a.world b.world (a.part id) (b.part id) := by
  intro b
  have hslice : b.slice = none := rfl
  by_cases hi : l.id = id
  · subst hi
    obtain ⟨s, hs, -, -⟩ := ha.slice l hl
    have ht : PartChange l.id a.world b.world (a.part l.id) _ :=
      .finish (s := s) hs (sliceOf_of_slice hl rfl) hc
    exact .inr (ht.of_eq (part_finish hs .delivered))
  · refine .inl (((World.Spares.deliveries hi).finish ..).part ?_ rfl)
    exact (sliceOf_of_none hslice _).trans (sliceOf_of_ne hl hi).symm

theorem partChange_fail {l : Slice} {f : SinkFault} (ha : a.Sound) (hl : a.slice = some l)
    (hc : l.call = none) (hf : f.isOwn = true) :
    let b : Moment := { a with world := a.world.contain l.id l.relay f, slice := none }
    b.part id = a.part id ∨ PartChange id a.world b.world (a.part id) (b.part id) := by
  intro b
  have hslice : b.slice = none := rfl
  by_cases hi : l.id = id
  · subst hi
    obtain ⟨s, hs, hr, -⟩ := ha.slice l hl
    have ht : PartChange l.id a.world b.world (a.part l.id) _ :=
      .fail (s := s) hs (sliceOf_of_slice hl rfl) hc hf
    have hb : b = ⟨a.world.contain l.id s.relay f, none, a.published⟩ := by rw [hr]
    refine .inr (ht.of_eq ?_)
    rw [hb]
    exact part_contain hs (ha.housed _ s hs) (SinkFault.endsDelivery_of_isOwn hf)
  · refine .inl (((World.Spares.deliveries hi).contain ..).part ?_ rfl)
    exact (sliceOf_of_none hslice _).trans (sliceOf_of_ne hl hi).symm

theorem partChange_wait {l : Slice} {d : Delivery} (ha : a.Sound) (hl : a.slice = some l)
    (hm : d.message = l.message) (hd : d.deadline = l.deadline) (hw : d.wait.call? = l.call) :
    let b : Moment := { a with world := a.world.enter l.id (.delivering d), slice := none }
    b.part id = a.part id ∨ PartChange id a.world b.world (a.part id) (b.part id) := by
  intro b
  have hslice : b.slice = none := rfl
  by_cases hi : l.id = id
  · subst hi
    obtain ⟨s, hs, -, -⟩ := ha.slice l hl
    have ht : PartChange l.id a.world b.world (a.part l.id) _ :=
      .wait (s := s) hs (sliceOf_of_slice hl rfl) hm hd hw
    exact .inr (ht.of_eq (part_modifySubscriber hs _))
  · refine .inl ((World.spares_modifySubscriber hi _).part ?_ rfl)
    exact (sliceOf_of_none hslice _).trans (sliceOf_of_ne hl hi).symm

theorem part_overrun {s : Subscriber} {g : Option Slice} {ps : List Publication}
    (hs : w.subscriber? id = some s) (hr : s.relay < w.relays.size) (wait : Wait) (t : Duration) :
    (Moment.mk ((w.abandon id wait).contain id s.relay (.timedOut t)) g ps).part id =
      { (Moment.mk w g ps).part id with
        sub := some { s with phase := .idle }
        rows := w.rows id ++ [.aborted]
        conclusions := w.conclusions id ++ [.fault (.timedOut t)]
        faults := ((Moment.mk w g ps).part id).withFault w id s (.timedOut t) } := by
  obtain ⟨calls, he⟩ := w.abandon_eq id wait
  let u : World := { w.row id .aborted with calls := calls }
  have hc : (Moment.mk (u.contain id s.relay (.timedOut t)) g ps).part id = _ :=
    part_contain hs hr rfl
  rw [he]
  refine hc.trans (Part.ext rfl rfl rfl rfl ?_ ?_ rfl)
  · exact (World.rows_row ..).trans (by rw [if_pos rfl])
  · exact congrArg (· ++ [_]) (World.conclusions_row ..)

theorem partChange_overrun {l : Slice} {wait : Wait} (ha : a.Sound) (hl : a.slice = some l)
    (ho : a.world.overdue l.deadline = true) (hw : wait.call? = l.call) :
    let f : SinkFault := .timedOut (a.world.timeoutOf l.relay)
    let b : Moment := { a with
      world := (a.world.abandon l.id wait).contain l.id l.relay f
      slice := none }
    b.part id = a.part id ∨ PartChange id a.world b.world (a.part id) (b.part id) := by
  intro f b
  have hslice : b.slice = none := rfl
  by_cases hi : l.id = id
  · subst hi
    obtain ⟨s, hs, hr, -⟩ := ha.slice l hl
    have ht : ∃ t, l.deadline = some t ∧ t ≤ a.world.now := by
      cases hd : l.deadline with
      | none =>
        rw [hd] at ho
        cases ho
      | some t =>
        rw [hd] at ho
        exact ⟨t, rfl, of_decide_eq_true ho⟩
    have hp : ∀ c k, l.call = some c → b.world.call? c = some k → k.phase.pending = false :=
      fun c k hc hk => pending_abandon a.world l.id (hw.trans hc) hk
    have ht : PartChange l.id a.world b.world (a.part l.id) _ :=
      .overrun (s := s) hs (sliceOf_of_slice hl rfl) ht hp
    have hb : b = ⟨(a.world.abandon l.id wait).contain l.id s.relay
        (.timedOut (a.world.timeoutOf s.relay)), none, a.published⟩ := by rw [hr]
    refine .inr (ht.of_eq ?_)
    rw [hb]
    exact part_overrun hs (ha.housed _ s hs) wait _
  · have hs := ((World.Spares.deliveries hi).abandon a.world wait).trans
      ((World.Spares.deliveries hi).contain _ l.relay f)
    refine .inl (hs.part ?_ rfl)
    exact (sliceOf_of_none hslice _).trans (sliceOf_of_ne hl hi).symm

theorem partChange_abort {i : SubscriberId} {s : Subscriber} {d : Delivery} (hl : a.slice = none)
    (hs : a.world.subscriber? i = some s) (hp : s.phase = .delivering d)
    (hc : s.cancelled = true) :
    let b : Moment := { a with
      world := ((a.world.abandon i d.wait).note (.concluded i .cancelled)).stopWorker i }
    b.part id = a.part id ∨ PartChange id a.world b.world (a.part id) (b.part id) := by
  intro b
  by_cases hi : i = id
  · subst hi
    have hd : ∀ c k, d.wait = .call c → b.world.call? c = some k → k.phase.pending = false :=
      fun c k hw hk => pending_abandon a.world i (by rw [hw]; rfl) hk
    have ht : PartChange i a.world b.world (a.part i) _ :=
      .abort (s := s) hs (sliceOf_of_none hl _) hp hc hd
    let v : Moment := { a with world := a.world.abandon i d.wait }
    have habandon : v.part i = _ := part_abandon a.world d.wait
    have hsub : (a.world.abandon i d.wait).subscriber? i = some s :=
      (congrArg Part.sub habandon).trans hs
    have hcon : (a.world.abandon i d.wait).conclusions i = a.world.conclusions i :=
      congrArg Part.conclusions habandon
    let u : World := (a.world.abandon i d.wait).note (.concluded i .cancelled)
    refine .inr (ht.of_eq ((part_stopWorker (w := u) hsub).trans ?_))
    rw [part_concluded, habandon, hcon]
    rfl
  · exact .inl (((World.Spares.deliveries hi).abort ..).part rfl rfl)

theorem partChange_stop {i : SubscriberId} {s : Subscriber} (hl : a.slice = none)
    (hs : a.world.subscriber? i = some s) (hp : s.phase = .idle)
    (hc : s.cancelled = true ∨ s.queue = [] ∧ a.world.isFed i = false) :
    let b : Moment := { a with world := a.world.stopWorker i }
    b.part id = a.part id ∨ PartChange id a.world b.world (a.part id) (b.part id) := by
  intro b
  by_cases hi : i = id
  · subst hi
    have ht : PartChange i a.world b.world (a.part i) _ :=
      .stop (s := s) hs (sliceOf_of_none hl _) hp hc
    exact .inr (ht.of_eq (part_stopWorker hs))
  · exact .inl (((World.Spares.deliveries hi).stopWorker _).part rfl rfl)

theorem partChange_conclude {l : Slice} {o : Outcome} (ha : a.Sound) (hl : a.slice = some l)
    (ho : o.Fits l) :
    let b : Moment := { a with
      world := a.world.conclude l.id l.relay l.message l.deadline o
      slice := none }
    b.part id = a.part id ∨ PartChange id a.world b.world (a.part id) (b.part id) := by
  cases o with
  | ended f =>
    cases f with
    | none => exact partChange_finish ha hl ho
    | some f => exact partChange_fail ha hl ho.1 ho.2
  | crashed => exact ho.elim
  | waits wait rest =>
    rw [World.conclude, World.waitOn]
    by_cases hd : a.world.overdue l.deadline = true
    · rw [if_pos hd]
      exact partChange_overrun ha hl hd ho
    · rw [if_neg hd]
      exact partChange_wait ha hl rfl rfl ho

/-- Every transition leaves a part as it is or changes it. -/
theorem Transition.partChange (h : Transition a b) (ha : a.Sound) (id : SubscriberId) :
    b.part id = a.part id ∨ PartChange id a.world b.world (a.part id) (b.part id) := by
  cases h with
  | sameCore hv => exact .inl ((hv.spares id).part rfl rfl)
  | build name config observers => exact .inl ((World.spares_build ..).part rfl rfl)
  | register r name sink hr => exact partChange_register hr name sink
  | unregister r i hr => exact partChange_unregister ha hr i
  | publish r m hr => exact partChange_publish ha hr m
  | shutdown r hr hl => exact partChange_shutdown ha (ha.named r hr) hl
  | call c => exact partChange_stepCall ha c
  | giveUp c => exact .inl (part_giveUp c)
  | begin hl hs hp hc hq => exact partChange_begin hl hs hp hc hq
  | crash hl hs hp hc hq hb => exact partChange_crash hl hs hp hc hq hb
  | poll hl hs hp hc => exact partChange_poll hl hs hp hc
  | row x hl hx => exact partChange_row hl hx
  | back hl hc hr => exact partChange_back hl hc hr
  | conclude o hl ho => exact partChange_conclude ha hl ho
  | abort hl hs hp hc => exact partChange_abort hl hs hp hc
  | stop hl hs hp hc => exact partChange_stop hl hs hp hc

end Fanout
