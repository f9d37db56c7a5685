import Fanout.Proofs.Feeding

/-! # Whoever is active has a worker

As long as no sink panics outside the guard, an active subscriber of a relay that exists has a
worker whose token has not fired and a queue with a sender, filled up to its capacity at most.
Any other worker can only finish. So no publish finds a worker gone.
-/
namespace Fanout

/-- No sink panics before its delivery can wait. -/
def World.Guarded (w : World) : Prop :=
  ∀ id s, w.subscriber? id = some s → ∀ n, ¬ s.sink.BringsDown n

theorem World.guarded_of_style {w : World}
    (hw : w.subscribers.all (·.sink.style != .bare) = true) : w.Guarded := by
  rintro id s hs n ⟨hb, -⟩
  obtain ⟨hi, rfl⟩ := Array.getElem?_eq_some_iff.mp hs
  have hn := Array.all_eq_true.mp hw id.serial hi
  rw [hb] at hn
  cases hn

theorem World.queueCapacity?_eq_ok {c : Capacity} {k : Nat} (h : queueCapacity? c = .ok k) :
    ∃ n, c = .size n ∧ k = max n 1 := by
  cases c with
  | panics => cases h
  | size n =>
    rw [queueCapacity?] at h
    split at h
    · cases h
    · exact ⟨n, rfl, (Except.ok.inj h).symm⟩

/-- A worker has the queue that its sink asked for, and no more than that in it. -/
def Part.Roomy (p : Part) : Prop := ∀ s, p.sub = some s → s.live = true →
  World.queueCapacity? s.sink.capacity = .ok s.capacity ∧ s.queue.length ≤ s.capacity

namespace PartChange

variable {id : SubscriberId} {w v : World} {p q : Part}

theorem roomy (h : PartChange id w v p q) (hs : p.Sound id) (hp : p.Roomy) : q.Roomy := by
  intro u hu hl
  cases h with
  | born _ _ _ hq _ _ hc =>
    obtain rfl := Option.some.inj hu
    rw [hq]
    exact ⟨hc, Nat.zero_le _⟩
  | refused _ hi =>
    obtain rfl := Option.some.inj hu
    rw [Subscriber.live, hi] at hl
    cases hl
  | withdraw ht | halt ht =>
    obtain rfl := Option.some.inj hu
    have hroom := hp _ ht hl
    exact hroom
  | close | poll | row | engage | back => exact hp u hu hl
  | @accept s m ht hv hf =>
    obtain rfl := Option.some.inj hu
    obtain ⟨hc, -⟩ := hp s ht hv
    have hlt : s.queue.length < s.capacity := by simpa [Subscriber.isFull] using hf
    exact ⟨hc, by rw [List.length_append]; exact hlt⟩
  | begin ht _ hi _ hq =>
    obtain rfl := Option.some.inj hu
    obtain ⟨hc, hle⟩ := hp _ ht (Subscriber.live_of_idle hi)
    rw [hq] at hle
    exact ⟨hc, Nat.le_of_succ_le hle⟩
  | crash | abort | stop =>
    obtain rfl := Option.some.inj hu
    cases hl
  | finish ht hm | fail ht hm | overrun ht hm | wait ht hm =>
    obtain rfl := Option.some.inj hu
    have hroom := hp _ ht (hs.live hm ht)
    exact hroom

theorem anchored (h : PartChange id w v p q) (hc : ∀ n, w.closed n = true → v.closed n = true)
    (hp : ∀ s, p.sub = some s → s.cancelled = false → p.active s.relay ∨ w.closed s.relay = true)
    {t : Subscriber} (ht : q.sub = some t) (hf : t.cancelled = false) :
    q.active t.relay ∨ v.closed t.relay = true := by
  have hkeep : ∀ s, p.sub = some s → s.cancelled = false →
      p.active s.relay ∨ v.closed s.relay = true :=
    fun s hs hcan => (hp s hs hcan).imp_right (hc s.relay)
  have hshut : ∀ r s, p.sub = some s → s.cancelled = false → v.closed r = true →
      (p.active s.relay ∧ s.relay ≠ r) ∨ v.closed s.relay = true := by
    intro r s hs hcan hr
    by_cases he : s.relay = r
    · exact .inr (he ▸ hr)
    · exact (hkeep s hs hcan).imp_left fun hact => ⟨hact, he⟩
  cases h with
  | born =>
    obtain rfl := Option.some.inj ht
    exact .inl (.inr rfl)
  | refused _ _ _ hr =>
    obtain rfl := Option.some.inj ht
    exact .inr (hc _ hr)
  | withdraw | halt =>
    obtain rfl := Option.some.inj ht
    cases hf
  | close r hr => exact hshut r t ht hf hr
  | engage r _ _ _ _ hr => exact hshut r t ht hf hr
  | poll | row | back => exact hkeep t ht hf
  | accept _ hs | begin hs | crash hs | finish hs | fail hs | overrun hs | wait hs | abort hs
  | stop hs =>
    obtain rfl := Option.some.inj ht
    have hthere := hkeep _ hs hf
    exact hthere

end PartChange

variable {a b : Moment} {id : SubscriberId} {r : Nat}

theorem Moment.Reached.roomy (ha : a.Reached) (id : SubscriberId) : (a.part id).Roomy := by
  refine Transitions.keeps (fun ht hs hp => ht.roomy hs hp) ha sound_empty ?_
  intro s hs
  cases hs

theorem Moment.Reached.anchored (ha : a.Reached) : ∀ {s : Subscriber},
    a.world.subscriber? id = some s → s.cancelled = false →
    id ∈ a.world.active s.relay ∨ a.world.closed s.relay = true := by
  induction ha with
  | refl =>
    intro s hs
    cases hs
  | @tail c d hac hcd ih =>
    intro s hs hf
    have hc := Transitions.sound hac sound_empty
    have hstay : ∀ n, c.world.closed n = true → d.world.closed n = true :=
      fun n hn => (hcd.relayChange hc).stays_closed hn
    rcases hcd.partChange hc id with he | hchange
    · have hs' : (c.part id).sub = some s := (congrArg Part.sub he).symm.trans hs
      refine (ih hs' hf).imp (fun hact => ?_) (hstay _)
      have hsame := congrFun (congrArg Part.active he) s.relay
      exact hsame.mpr hact
    · exact hchange.anchored hstay (fun s hs hf => ih hs hf) hs hf

theorem Transition.keeps_worker (h : Transition a b) (ha : a.Sound) {s t : Subscriber}
    (hs : a.world.subscriber? id = some s) (ht : b.world.subscriber? id = some t)
    (hf : a.world.isFed id = true) (hl : s.live = true) :
    t.live = true ∨ t.phase = .crashed := by
  cases hd : t.live with
  | true => exact .inl rfl
  | false =>
    rcases h.exits ha hs ht hl hd with hc | ⟨-, -, -, hn⟩ | ⟨hp, -⟩
    · obtain ⟨u, hu, -, hact⟩ := World.isFed_iff.mp hf
      obtain ⟨v, hv, -, hno⟩ := ha.member _ id hact
      obtain rfl := Option.mem_unique hs hv
      cases hc.symm.trans hno
    · cases hn.symm.trans hf
    · exact .inr hp

theorem Transition.new_worker (h : Transition a b) (ha : a.Sound) {t : Subscriber}
    (hs : a.world.subscriber? id = none) (ht : b.world.subscriber? id = some t)
    (hf : b.world.isFed id = true) : t.live = true := by
  obtain ⟨u, hu, -, hact⟩ := World.isFed_iff.mp hf
  obtain rfl := Option.mem_unique ht hu
  rcases h.partChange ha id with he | hchange
  · cases ht.symm.trans ((congrArg Part.sub he).trans hs)
  · obtain ⟨-, -, ⟨hi, -⟩ | ⟨-, hc⟩⟩ := hchange.newborn hs ht
    · exact Subscriber.live_of_idle hi
    · rw [(h.sound ha).shut _ ((h.relayChange ha).stays_closed hc)] at hact
      cases hact

/-- A worker whose queue has a sender is there, unless a panic has taken it down. -/
theorem Moment.Reached.fed (ha : a.Reached) : ∀ {s : Subscriber},
    a.world.subscriber? id = some s → a.world.isFed id = true →
    s.live = true ∨ s.phase = .crashed := by
  induction ha with
  | refl =>
    intro s hs
    cases hs
  | @tail c d hac hcd ih =>
    intro t ht hf
    have hc := Transitions.sound hac sound_empty
    cases hs : c.world.subscriber? id with
    | none => exact .inl (hcd.new_worker hc hs ht hf)
    | some s =>
      have hfc : c.world.isFed id = true := by
        cases hn : c.world.isFed id with
        | true => rfl
        | false => cases (hcd.unfed hc hs hn).symm.trans hf
      rcases ih hs hfc with hl | hp
      · exact hcd.keeps_worker hc hs ht hfc hl
      · obtain ⟨u, hu, -, -, -, hdead⟩ := Transitions.subscriber (.single hcd) hc hs
        obtain rfl := Option.mem_unique hu ht
        have hgone : s.live = false := by
          rw [Subscriber.live, hp]
          rfl
        exact .inr ((hdead hgone).1.trans hp)

theorem Moment.Reached.live (ha : a.Reached) (hg : a.world.Guarded)
    (hf : a.world.isFed id = true) : ∃ s, a.world.subscriber? id = some s ∧ s.live = true := by
  obtain ⟨s, hs, -⟩ := World.isFed_iff.mp hf
  rcases ha.fed hs hf with hl | hp
  · exact ⟨s, hs, hl⟩
  · exact absurd (((ha.ordered id).accounts s hs).crashed hp) (hg id s hs _)

theorem World.refusal?_of_live {w : World} {s : Subscriber} {f : SinkFault}
    (hs : w.subscriber? id = some s) (hl : s.live = true) (hf : w.refusal? id = some f) :
    EventKind.ofFault f = .sinkOverflow := by
  cases hfull : s.isFull <;> simp only [World.refusal?, hs, hl, hfull] at hf <;> cases hf
  rfl

theorem Event.kind_of_mem_stampAll {time seq : Nat} {ds : List Event.Draft} {e : Event}
    (he : e ∈ Event.stampAll time seq ds) : ∃ d ∈ ds, e.kind = d.kind := by
  induction ds generalizing seq with
  | nil => cases he
  | cons d ds ih =>
    rcases List.mem_cons.mp he with rfl | he
    · exact ⟨d, List.mem_cons_self, Event.Draft.kind_stamp ..⟩
    · obtain ⟨c, hc, hk⟩ := ih he
      exact ⟨c, List.mem_cons_of_mem d hc, hk⟩

/-- Sinks do not change, so a guard that holds now has always held. -/
theorem Transitions.guarded (hab : Transitions a b) (ha : a.Sound) (hb : b.world.Guarded) :
    a.world.Guarded := by
  intro id s hs
  obtain ⟨t, ht, -, ⟨hk, -⟩, -⟩ := hab.subscriber ha hs
  exact hk ▸ hb id t ht

theorem kind_of_drop (ha : a.Sound)
    (hw : ∀ id, a.world.isFed id = true →
      ∃ s, a.world.subscriber? id = some s ∧ s.live = true)
    (hr : a.world.relayExists r = true) {d : SubscriberId × SinkFault}
    (hd : d ∈ a.world.drops (a.world.active r)) : EventKind.ofFault d.2 = .sinkOverflow := by
  obtain ⟨i, hi, hf⟩ := List.mem_filterMap.mp hd
  obtain ⟨f, hr', rfl⟩ := Option.map_eq_some_iff.mp hf
  obtain ⟨t, ht, rfl, -⟩ := ha.member r i hi
  obtain ⟨s, hs, hl⟩ := hw i (World.isFed_iff.mpr ⟨t, ht, hr, hi⟩)
  exact World.refusal?_of_live hs hl hr'

theorem Transition.kind_of_report (h : Transition a b) (ha : a.Sound)
    (hw : ∀ id, a.world.isFed id = true →
      ∃ s, a.world.subscriber? id = some s ∧ s.live = true)
    {e : Event} (he : e ∈ b.world.events r) (hn : e ∉ a.world.events r) :
    e.kind ≠ .sinkWorkerGone := by
  have hnew : ∀ {n ds}, a.world.Reports n ds b.world →
      (∀ d ∈ ds, d.kind ≠ .sinkWorkerGone) → e.kind ≠ .sinkWorkerGone := by
    intro n ds hv hds
    rw [hv.events] at he
    split at he
    · obtain ⟨d, hd, hk⟩ := Event.kind_of_mem_stampAll ((List.mem_append.mp he).resolve_left hn)
      exact hk ▸ hds d hd
    · rw [List.append_nil] at he
      exact absurd he hn
  cases h.relayChange ha with
  | still _ _ hev =>
    rw [hev] at he
    exact absurd he hn
  | enrolled _ _ _ hv => exact hnew hv (by simp [Event.Draft.registered])
  | withdrawn _ _ _ hv => exact hnew hv (by simp [Event.Draft.unregistered])
  | ignored _ _ _ hv => exact hnew hv (by simp)
  | published n _ _ hv _ _ hr =>
    refine hnew hv fun d hd => ?_
    rcases List.mem_append.mp hd with hd | hd
    · obtain ⟨x, hx, rfl⟩ := List.mem_map.mp hd
      simp [Event.Draft.fault, kind_of_drop ha hw hr hx]
    · rw [List.mem_singleton.mp hd]
      simp [Event.Draft.published]
  | shut _ _ hv => exact hnew hv (by simp [Event.Draft.unregistered])
  | faulted _ _ _ f _ _ _ hf hv =>
    refine hnew hv fun d hd hgone => ?_
    rw [List.mem_singleton.mp hd] at hgone
    have hgone : EventKind.ofFault f = .sinkWorkerGone := hgone
    rw [SinkFault.endsDelivery, hgone] at hf
    cases hf
  | ended _ _ _ _ _ _ _ hd hv =>
    refine hnew hv fun d' hd' => ?_
    rw [List.mem_singleton.mp hd']
    cases hd <;> simp [Event.Draft.graceExceeded]

theorem Moment.Reached.reports_no_gap (ha : a.Reached) (hg : a.world.Guarded) (r : Nat) :
    ∀ e ∈ a.world.events r, e.kind ≠ .sinkWorkerGone := by
  induction ha with
  | refl =>
    intro e he
    cases he
  | @tail c d hac hcd ih =>
    intro e he
    have hc := Transitions.sound hac sound_empty
    have hgc := Transitions.guarded (.single hcd) hc hg
    by_cases hold : e ∈ c.world.events r
    · exact ih hgc e hold
    · exact hcd.kind_of_report hc (fun id hf => Moment.Reached.live hac hgc hf) he hold

/-- An active subscriber with its worker and its queue. -/
structure World.Staffs (w : World) (r : Nat) (id : SubscriberId) (s : Subscriber) : Prop where
  relay : s.relay = r
  live : s.live = true
  unfired : s.cancelled = false
  fed : w.isFed id = true
  room : ∃ n, s.sink.capacity = .size n ∧ s.queue.length ≤ max n 1

/-- A worker that can only finish: its queue gets nothing more, once its token has fired no
delivery begins, and as soon as it is idle it goes on, to stop when nothing is left to do. -/
structure Moment.Retires (a : Moment) (id : SubscriberId) (s : Subscriber) : Prop where
  reason : s.cancelled = true ∨ a.world.closed s.relay = true ∨
    a.world.relayExists s.relay = false
  unfed : ∀ b, Transitions a b → b.world.isFed id = false ∧ b.enqueued id = a.enqueued id
  fired : s.cancelled = true → ∀ b, Transitions a b → b.world.started id = a.world.started id ∧
    ∃ t, b.world.subscriber? id = some t ∧ t.cancelled = true
  goes : ∀ b t, Transitions a b → b.world.subscriber? id = some t →
    t.phase = .idle ∨ t.live = true ∧ t.cancelled = true → b.world.workerReady id = true
  stops : ∀ b t, Transitions a b → b.world.subscriber? id = some t → t.phase = .idle →
    t.cancelled = true ∨ t.queue = [] → b.world.stepWorker id = b.world.stopWorker id

theorem World.workerReady_of_unfed {w : World} {s : Subscriber} (hs : w.subscriber? id = some s)
    (hf : w.isFed id = false) (hp : s.phase = .idle ∨ s.live = true ∧ s.cancelled = true) :
    w.workerReady id = true := by
  rcases hp with hp | ⟨hl, hc⟩
  · simp [World.workerReady, hs, hp, hf]
  · rw [Subscriber.live] at hl
    cases hp : s.phase with
    | idle | delivering d => simp [World.workerReady, hs, hp, hc]
    | stopped | crashed =>
      rw [hp] at hl
      cases hl

theorem World.stepWorker_of_unfed {w : World} {s : Subscriber} (hs : w.subscriber? id = some s)
    (hf : w.isFed id = false) (hp : s.phase = .idle) (hq : s.cancelled = true ∨ s.queue = []) :
    w.stepWorker id = w.stopWorker id := by
  rcases hq with hc | hq
  · simp [World.stepWorker, hs, hp, hc]
  · simp [World.stepWorker, hs, hp, hq, hf]

theorem Moment.Reached.retires (ha : a.Reached) {s : Subscriber}
    (hs : a.world.subscriber? id = some s)
    (hn : a.world.relayExists s.relay = true → id ∉ a.world.active s.relay) :
    a.Retires id s := by
  have hf : a.world.isFed id = false := by
    rw [Bool.eq_false_iff]
    intro hf
    obtain ⟨t, ht, he, hact⟩ := World.isFed_iff.mp hf
    obtain rfl := Option.mem_unique hs ht
    exact hn he hact
  have hunfed : ∀ b, Transitions a b → b.world.isFed id = false :=
    fun b hab => hab.unfed ha.sound hs hf
  refine ⟨?_, fun b hab => ⟨hunfed b hab, hab.enqueued ha.sound hs hf⟩, fun hc b hab => ?_,
    fun b t hab ht hp => World.workerReady_of_unfed ht (hunfed b hab) hp,
    fun b t hab ht hp hq => World.stepWorker_of_unfed ht (hunfed b hab) hp hq⟩
  · cases hc : s.cancelled with
    | true => exact .inl rfl
    | false =>
      right
      cases he : a.world.relayExists s.relay with
      | false => exact .inr rfl
      | true => exact .inl ((ha.anchored hs hc).resolve_left (hn he))
  · obtain ⟨t, ht, -, -, hct, -⟩ := hab.subscriber ha.sound hs
    exact ⟨hab.started ha.sound hs (.inl hc), t, ht, hct hc⟩

/-- A closed relay has nobody active. In a relay that exists, whoever is active has a worker
that has not been told to stop and a queue with a sender and no more messages than it may hold.
Every other worker can only finish, and no report ever says that a worker is gone. -/
theorem active_staffed (ha : a.Reached) (hg : a.world.Guarded) (r : Nat) :
    (a.world.closed r = true → a.world.active r = []) ∧
    (a.world.relayExists r = true → ∀ id ∈ a.world.active r,
      ∃ s, a.world.subscriber? id = some s ∧ a.world.Staffs r id s) ∧
    (∀ id s, a.world.subscriber? id = some s → s.relay = r → s.live = true →
      (a.world.relayExists r = true → id ∉ a.world.active r) → a.Retires id s) ∧
    ∀ e ∈ a.world.events r, e.kind ≠ .sinkWorkerGone := by
  refine ⟨ha.sound.shut r, fun he id hi => ?_, ?_, ha.reports_no_gap hg r⟩
  · obtain ⟨s, hs, rfl, hc⟩ := ha.sound.member r id hi
    have hf : a.world.isFed id = true := World.isFed_iff.mpr ⟨s, hs, he, hi⟩
    obtain ⟨t, ht, hl⟩ := ha.live hg hf
    obtain rfl := Option.mem_unique hs ht
    obtain ⟨hcap, hle⟩ := ha.roomy id s hs hl
    obtain ⟨n, hn, hk⟩ := World.queueCapacity?_eq_ok hcap
    exact ⟨s, hs, rfl, hl, hc, hf, n, hn, hk ▸ hle⟩
  · rintro id s hs rfl - hn
    exact ha.retires hs hn

/-- Two subscribers have a message each, and one of them is removed. -/
def Moment.thinned : Moment :=
  let a := (Moment.opening {} [{ key := "first", name := "first", capacity := .size 0 },
    { key := "second", name := "second" }]).publish 0 .empty
  { a with world := (a.world.unregister 0 ⟨1⟩).1 }

theorem reached_thinned : Moment.thinned.Reached :=
  ((reached_opening {} (by decide) _).tail (.publish 0 .empty rfl)).tail (.unregister 0 ⟨1⟩ rfl)

/-- The one that stays may have one message in its queue, the other one finishes. -/
theorem active_staffed_thinned : Moment.thinned.world.Guarded ∧
    (∃ s, Moment.thinned.world.subscriber? ⟨0⟩ = some s ∧ s.queue = [.empty] ∧
      Moment.thinned.world.Staffs 0 ⟨0⟩ s) ∧
    ∃ s, Moment.thinned.world.subscriber? ⟨1⟩ = some s ∧ s.live = true ∧
      Moment.thinned.Retires ⟨1⟩ s := by
  have hg : Moment.thinned.world.Guarded := World.guarded_of_style (by decide +kernel)
  have hact : Moment.thinned.world.active 0 = [⟨0⟩] := by decide +kernel
  obtain ⟨-, hstaff, hretire, -⟩ := active_staffed reached_thinned hg 0
  have h₀ : Moment.thinned.world.subscriber? ⟨0⟩ = some _ := rfl
  have h₁ : Moment.thinned.world.subscriber? ⟨1⟩ = some _ := rfl
  refine ⟨hg, ⟨_, h₀, rfl, ?_⟩, ⟨_, h₁, rfl, hretire ⟨1⟩ _ h₁ rfl rfl fun _ => ?_⟩⟩
  · obtain ⟨s, hs, hstaffs⟩ := hstaff rfl ⟨0⟩ (by rw [hact]; exact List.mem_singleton.mpr rfl)
    obtain rfl := Option.mem_unique h₀ hs
    exact hstaffs
  · rw [hact]
    decide

end Fanout
