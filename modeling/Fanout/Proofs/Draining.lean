import Fanout.Proofs.Removal
import Fanout.Proofs.Settled

/-! # Shutdown drains or reports

The call that closes a relay waits until all its workers are gone. If they are in time, no token
has fired and each queue has been worked off. Otherwise it fires all tokens, and says how many
workers it had to stop.
-/
namespace Fanout

/-- What a conclusion tells of the subscriber that it is about. -/
def Conclusion.Befits (s : Subscriber) : Conclusion → Prop
  | .delivered => True
  | .fault f => f.endsDelivery = true
  | .cancelled => s.cancelled = true
  | .crashed => s.phase = .crashed

structure Part.Judged (p : Part) : Prop where
  unborn : p.sub = none → p.conclusions = []
  befits : ∀ s, p.sub = some s → ∀ x ∈ p.conclusions, x.Befits s

theorem Conclusion.Befits.mono {s t : Subscriber} {x : Conclusion} (hx : x.Befits s)
    (hc : s.cancelled = true → t.cancelled = true)
    (hp : s.phase = .crashed → t.phase = .crashed) : x.Befits t := by
  cases x with
  | delivered => trivial
  | fault f => exact hx
  | cancelled => exact hc hx
  | crashed => exact hp hx

namespace PartChange

variable {id : SubscriberId} {w v : World} {p q : Part}

theorem judges (h : PartChange id w v p q) : q.conclusions = p.conclusions ∨
    ∃ x t, q.conclusions = p.conclusions ++ [x] ∧ q.sub = some t ∧ x.Befits t := by
  cases h with
  | born | refused | withdraw | close | halt | accept | begin | poll | row | engage | back
  | wait | stop => exact .inl rfl
  | crash => exact .inr ⟨_, _, rfl, rfl, rfl⟩
  | finish => exact .inr ⟨_, _, rfl, rfl, trivial⟩
  | fail _ _ _ hf => exact .inr ⟨_, _, rfl, rfl, SinkFault.endsDelivery_of_isOwn hf⟩
  | overrun => exact .inr ⟨_, _, rfl, rfl, rfl⟩
  | abort _ _ _ hc => exact .inr ⟨_, _, rfl, rfl, hc⟩

theorem judged (h : PartChange id w v p q) (hp : p.Sound id) (hj : p.Judged) : q.Judged := by
  have hold : ∀ t, q.sub = some t → ∀ x ∈ p.conclusions, x.Befits t := by
    intro t ht x hx
    cases hs : p.sub with
    | none =>
      rw [hj.unborn hs] at hx
      cases hx
    | some s =>
      obtain ⟨u, hu, -, -, hc, hdead⟩ := h.sub hs
      obtain rfl := Option.mem_unique hu ht
      apply (hj.befits s hs x hx).mono hc
      intro hph
      exact (hdead (fun l hl => hp.live hl hs) (by rw [Subscriber.live, hph]; rfl)).1.trans hph
  constructor
  · intro hn
    cases hs : p.sub with
    | none =>
      rcases h.judges with he | ⟨_, _, _, ht, _⟩
      · exact he.trans (hj.unborn hs)
      · cases hn.symm.trans ht
    | some s =>
      obtain ⟨u, hu, -⟩ := h.sub hs
      cases hn.symm.trans hu
  · intro t ht x hx
    rcases h.judges with he | ⟨y, u, he, hu, hy⟩
    · rw [he] at hx
      exact hold t ht x hx
    · rw [he] at hx
      obtain rfl := Option.mem_unique hu ht
      rcases List.mem_append.mp hx with hx | hx
      · exact hold u ht x hx
      · rw [List.mem_singleton.mp hx]
        exact hy

theorem fires (h : PartChange id w v p q) {s : Subscriber} (hs : p.sub = some s)
    (hc : s.cancelled = false) : (∃ t, q.sub = some t ∧ t.cancelled = false) ∨
      p.active s.relay ∨ ∃ c k j, w.call? c = some k ∧ k.relay = s.relay ∧
        k.phase.unsettled = true ∧ v.call? c = some j ∧ ∃ n, j.phase = .cancelling n := by
  cases h with
  | born hn | refused hn => cases hn.symm.trans hs
  | withdraw ht ha =>
    obtain rfl := Option.mem_unique hs ht
    exact .inr (.inl ha)
  | halt ht hk hr hp hj =>
    obtain rfl := Option.mem_unique hs ht
    exact .inr (.inr ⟨_, _, _, hk, hr, by rw [hp]; rfl, hj, _, rfl⟩)
  | close | poll | row | engage | back => exact .inl ⟨s, hs, hc⟩
  | accept _ ht | begin ht | crash ht | finish ht | fail ht | overrun ht | wait ht | stop ht
  | abort ht =>
    obtain rfl := Option.mem_unique hs ht
    exact .inl ⟨_, rfl, hc⟩

end PartChange

variable {a b : Moment} {r : Nat}

theorem Moment.Reached.judged (ha : a.Reached) (id : SubscriberId) : (a.part id).Judged := by
  refine Transitions.keeps (fun ht hs hp => ht.judged hs hp) ha sound_empty ⟨fun _ => rfl, ?_⟩
  intro s hs
  cases hs

/-- No token of these subscribers of a relay has fired. -/
def World.Unfired (w : World) (r : Nat) (ids : List SubscriberId) : Prop :=
  ∀ id ∈ ids, ∃ s, w.subscriber? id = some s ∧ s.relay = r ∧ s.cancelled = false

theorem Transition.unfired (h : Transition a b) (ha : a.Sound) {ids : List SubscriberId}
    (hi : a.world.Unfired r ids) (hc : a.world.closed r = true)
    (hn : ∀ c k j, a.world.call? c = some k → k.relay = r → k.phase.unsettled = true →
      b.world.call? c = some j → ∀ n, j.phase ≠ .cancelling n) : b.world.Unfired r ids := by
  intro id hid
  obtain ⟨s, hs, hr, hf⟩ := hi id hid
  rcases h.partChange ha id with he | ht
  · exact ⟨s, (congrArg Part.sub he).trans hs, hr, hf⟩
  · obtain ⟨t, ht', hrel, -⟩ := ht.sub hs
    rcases ht.fires hs hf with ⟨u, hu, huf⟩ | hact | ⟨c, k, j, hk, hkr, hku, hj, n, hp⟩
    · obtain rfl := Option.mem_unique hu ht'
      exact ⟨u, hu, hrel.trans hr, huf⟩
    · have hact : id ∈ a.world.active s.relay := hact
      rw [hr, ha.shut r hc] at hact
      cases hact
    · exact absurd hp (hn c k j hk (hkr.trans hr) hku hj n)

theorem Transition.graceOf (h : Transition a b) (ha : a.Sound) (hr : r < a.world.relays.size) :
    b.world.graceOf r = a.world.graceOf r := by
  have hq := World.relay?_of_lt_size hr
  obtain ⟨p, hp, hc⟩ := (h.relayChange ha).config hq
  rw [World.graceOf, hp, World.graceOf, hq, Option.map_some, Option.map_some, hc]

theorem Transitions.graceOf (hab : Transitions a b) (ha : a.Sound) (hr : r < a.world.relays.size) :
    b.world.graceOf r = a.world.graceOf r ∧ r < b.world.relays.size := by
  induction hab with
  | refl => exact ⟨rfl, hr⟩
  | tail hac hcd ih =>
    have hc := Transitions.sound hac ha
    exact ⟨(hcd.graceOf hc ih.2).trans ih.1, Nat.lt_of_lt_of_le ih.2 (hcd.relayChange hc).relays_le⟩

/-- The grace of shutdown call `c` of relay `r` is over at its next step, and this many workers
are left. -/
structure Moment.Expires (u : Moment) (c r deadline pending : Nat) : Prop where
  call : ∃ k, u.world.call? c = some k ∧ k.relay = r ∧ k.phase = .draining deadline
  drives : u.Drives c
  due : deadline ≤ u.world.now
  left : u.world.liveWorkers r = pending
  late : pending ≠ 0

def Moment.stepCall (u : Moment) (c : Nat) : Moment := { u with world := u.world.stepCall c }

/-- How shutdown call `c` that was made at `a` and closed relay `r` has gone, seen from `b`. -/
inductive Moment.Verdict (a : Moment) (r : Nat) (b : Moment) : Option RelayError → Prop where
  | drained {e : Event} : b.world.Unfired r (a.world.active r) →
    (b.world.events r).getLast? = some e → e.kind = .allDrainedWithin → Verdict a r b none
  | exceeded {u : Moment} {e : Event} {n : Nat} : Transitions (a.shutdown r) u →
    u.Expires a.world.calls.size r (a.world.after (a.world.graceOf r)) n →
    (∀ l ∈ u.slice, l.relay ≠ r) → Transitions (u.stepCall a.world.calls.size) b →
    (b.world.events r).getLast? = some e → e.kind = .graceExceeded →
    e.reason = some ("pending=" ++ n.repr) →
    Verdict a r b (some (.graceExceeded (a.world.graceOf r) n))

inductive Moment.Course (a : Moment) (r : Nat) (b : Moment) : CallPhase → Prop where
  | draining : b.world.Unfired r (a.world.active r) →
    Course a r b (.draining (a.world.after (a.world.graceOf r)))
  | cancelling {u : Moment} {n : Nat} : Transitions (a.shutdown r) u →
    u.Expires a.world.calls.size r (a.world.after (a.world.graceOf r)) n →
    Transitions (u.stepCall a.world.calls.size) b → Course a r b (.cancelling n)
  | flushing {result : Option RelayError} : b.world.Settled r → a.Verdict r b result →
    Course a r b (.flushing result)
  | returned {result : Option RelayError} : b.world.Settled r → a.Verdict r b result →
    Course a r b (.returned result)
  | dropped : Course a r b .dropped

/-- Once a relay is settled, the verdict stands. -/
theorem Moment.Verdict.transition {o : Moment} {result : Option RelayError}
    (hv : o.Verdict r a result) (h : Transition a b) (ha : a.Sound) (hr : a.world.Settled r) :
    o.Verdict r b result := by
  have he := h.callFree ha hr
  cases hv with
  | drained hu hlast hk =>
    refine .drained (h.unfired ha hu hr.closed fun c k j hk hkr hku => ?_) (he ▸ hlast) hk
    cases hku.symm.trans (hr.calls c k hk hkr)
  | exceeded hau hx hl hub hlast hk hreason =>
    exact .exceeded hau hx hl (hub.tail h) (he ▸ hlast) hk hreason

theorem Part.Engaged.live {p : Part} {id : SubscriberId} {c : Nat} (he : p.Engaged c)
    (hp : p.Sound id) : ∃ s, p.sub = some s ∧ s.live = true := by
  rcases he with ⟨l, hl, -⟩ | ⟨-, s, d, hs, hd, -⟩
  · obtain ⟨-, s, hs, -, hv⟩ := hp.slice l hl
    exact ⟨s, hs, hv⟩
  · exact ⟨s, hs, Subscriber.live_of_delivering hd⟩

theorem Transitions.slice_elsewhere (hab : Transitions a b) (ha : a.Sound) {c : Nat} {k : Call}
    (hd : a.Drives c) (hk : b.world.call? c = some k) (hp : k.phase.pending = true)
    (hl : b.world.liveWorkers r = 0) : ∀ l ∈ a.slice, l.relay ≠ r := by
  intro l hslice hr
  have hslice : a.slice = some l := hslice
  have hcall : l.call = some c := by simpa [Moment.Drives, hslice] using hd
  obtain ⟨i, hi, ho⟩ := ha.engaged l.id c (.inl ⟨l, sliceOf_of_slice hslice rfl, hcall⟩)
  obtain ⟨j, hj, -, hjo⟩ := hab.call hi
  obtain rfl := Option.mem_unique hj hk
  have hb := hab.sound ha
  obtain ⟨t, ht, hlive⟩ := (hb.owner c j l.id hk (hjo.trans ho) hp).live (hb.part l.id)
  obtain ⟨s, hs, hsr, -⟩ := ha.slice l hslice
  obtain ⟨u, hu, hur, -⟩ := hab.subscriber ha hs
  obtain rfl : u = t := Option.mem_unique hu ht
  have hdead := World.liveWorkers_eq_zero_iff.mp hl l.id u hu (hur.trans (hsr.trans hr))
  cases hlive.symm.trans hdead

theorem World.getLast?_flush {w : World} (hr : r < w.relays.size) (c : Nat) (d : Event.Draft)
    (result : Option RelayError) :
    ((w.flush c r d result).events r).getLast? = some (d.stamp w.nextSeq w.now) := by
  rw [(reports_flush hr c d result).events, if_pos rfl]
  exact List.getLast?_concat

/-- A shutdown that sees no worker any more settles its relay with a last report. -/
theorem Transition.settles (h : Transition a b) (ha : a.Sound) {c : Nat} {k j : Call}
    {d : Event.Draft} {result : Option RelayError} (hk : a.world.call? c = some k)
    (hu : k.phase.unsettled = true) (hl : a.world.liveWorkers k.relay = 0)
    (hb : b = { a with world := a.world.flush c k.relay d result })
    (hj : b.world.call? c = some j) (hn : j.phase.unsettled = false) :
    b.world.Settled k.relay ∧
      (b.world.events k.relay).getLast? = some (d.stamp a.world.nextSeq a.world.now) := by
  subst hb
  exact ⟨h.settled_of_ended ha hk hu hl rfl hj hn, World.getLast?_flush (ha.calls c k hk) ..⟩

theorem Transition.course {o : Moment} {k j : Call} (h : Transition a b) (ho : (o.shutdown r).Sound)
    (hoa : Transitions (o.shutdown r) a) (hg : a.world.graceOf r = o.world.graceOf r)
    (hk : a.world.call? o.world.calls.size = some k) (hr : k.relay = r)
    (hj : b.world.call? o.world.calls.size = some j) (ht : CallChange a b o.world.calls.size k j)
    (hc : o.Course r a k.phase) : o.Course r b j.phase := by
  have ha := hoa.sound ho
  subst hr
  cases ht with
  | keep =>
    generalize hp : k.phase = phase at hc
    cases hc with
    | draining hu =>
      refine .draining (h.unfired ha hu ?_ fun c i l hi hir hiu hl n hn => ?_)
      · exact ha.closing _ k hk (by rw [hp]; rfl)
      · obtain rfl := ha.alone c _ i k hi hk hiu (by rw [hp]; rfl) hir
        obtain rfl := Option.mem_unique hl hj
        cases hp.symm.trans hn
    | cancelling hou hx hub => exact .cancelling hou hx (hub.tail h)
    | flushing hset hv => exact .flushing (h.settled ha hset) (hv.transition h ha hset)
    | returned hset hv => exact .returned (h.settled ha hset) (hv.transition h ha hset)
    | dropped => exact .dropped
  | drop => exact .dropped
  | drained hp hl hb =>
    obtain ⟨hset, hlast⟩ := h.settles ha hk (by rw [hp]; rfl) hl hb hj rfl
    rw [hp] at hc
    cases hc with
    | draining hu =>
      have hsubs : b.world.subscribers = a.world.subscribers := by
        rw [hb]
        rfl
      refine .flushing hset (.drained (fun id hi => ?_) hlast rfl)
      rw [World.subscriber?, hsubs]
      exact hu id hi
  | expired hd hp hl htime hb =>
    rw [hp] at hc
    cases hc with
    | draining hu => exact .cancelling hoa ⟨⟨k, hk, rfl, hp⟩, hd, htime, rfl, hl⟩ (hb ▸ .refl)
  | stopped hp hl hb =>
    obtain ⟨hset, hlast⟩ := h.settles ha hk (by rw [hp]; rfl) hl hb hj rfl
    rw [hp] at hc
    cases hc with
    | @cancelling u n hou hx hub =>
      rw [hg]
      have hstep : Transition u (u.stepCall o.world.calls.size) := .call _ hx.drives
      have hslice := Transitions.slice_elsewhere (.head hstep hub) (hou.sound ho) hx.drives hk
        (by rw [hp]; rfl) hl
      exact .flushing hset (.exceeded hou hx hslice (hub.tail h) hlast rfl rfl)
  | returns hp =>
    rw [hp] at hc
    cases hc with
    | flushing hset hv => exact .returned (h.settled ha hset) (hv.transition h ha hset)

theorem call?_shutdown (hr : r < a.world.relays.size) (ho : a.world.closed r = false) :
    (a.shutdown r).world.call? a.world.calls.size =
      some ⟨r, a.slice.map (·.id), .draining (a.world.after (a.world.graceOf r))⟩ := by
  obtain ⟨p, hp, hph⟩ := World.calls_openCall hr (a.slice.map (·.id))
  rcases hph with ⟨-, hc⟩ | ⟨rfl, -⟩
  · cases ho.symm.trans hc
  · change (a.world.openCall r _).calls[_]? = _
    rw [hp]
    exact Array.getElem?_push_size

/-- What has become of a shutdown that closed its relay. -/
theorem Transitions.course (hab : Transitions (a.shutdown r) b) (ha : a.Sound)
    (hr : a.world.relayExists r = true) (ho : a.world.closed r = false)
    (hl : ∀ l ∈ a.slice, l.call = none) :
    ∃ k, b.world.call? a.world.calls.size = some k ∧ k.relay = r ∧ a.Course r b k.phase := by
  have hstep : Transition a (a.shutdown r) := .shutdown r hr hl
  have hsound := hstep.sound ha
  have hsize := ha.named r hr
  induction hab with
  | refl =>
    refine ⟨_, call?_shutdown hsize ho, rfl, .draining fun id hi => ?_⟩
    change ∃ s, (a.world.openCall r _).subscriber? id = some s ∧ _
    rw [World.subscriber?, World.subscribers_openCall]
    exact ha.member r id hi
  | @tail m n ham hmn ih =>
    obtain ⟨k, hk, hkr, hc⟩ := ih
    obtain ⟨j, hj, ht⟩ := hmn.callChange hk
    have hg := (Transitions.graceOf (.head hstep ham) ha hsize).1
    exact ⟨j, hj, ht.relay.trans hkr, hmn.course hsound ham hg hk hkr hj ht hc⟩

/-- The deliveries to a subscriber when its relay has been drained. Only a worker that was
taken down can have left messages behind. -/
structure Moment.WorkedOff (b : Moment) (id : SubscriberId) (s : Subscriber) : Prop where
  exited : s.live = false
  order : b.world.started id <+: b.enqueued id
  begun : s.phase ≠ .crashed → b.enqueued id = b.world.started id
  crashed : s.phase = .crashed → s.sink.BringsDown (s.begun - 1)
  ended : (b.world.conclusions id).length = (b.world.started id).length
  outcomes : ∀ x ∈ b.world.conclusions id,
    x = .delivered ∨ (∃ f, x = .fault f ∧ f.endsDelivery = true) ∨ x = .crashed

theorem Moment.Reached.workedOff (hb : b.Reached) {id : SubscriberId} {s : Subscriber}
    (hs : b.world.subscriber? id = some s) (hl : s.live = false) (hc : s.cancelled = false) :
    b.WorkedOff id s := by
  have hacc : s.Accounts (b.enqueued id) (b.world.started id) := (hb.ordered id).accounts s hs
  obtain ⟨lost, he, hlost⟩ := hacc.order
  rw [hacc.exited hl, List.append_nil] at he
  refine ⟨hl, ⟨lost, he.symm⟩, fun hp => ?_, hacc.crashed, ?_, fun x hx => ?_⟩
  · rcases hlost with hn | hf | ⟨-, hf⟩
    · rw [he, hn, List.append_nil]
    · exact absurd hf hp
    · cases hc.symm.trans hf
  · have hcount := hb.counted id
    rw [Part.Counted, (hb.sound.part id).not_underway hs hl] at hcount
    exact hcount.symm
  · have hbefits := (hb.judged id).befits s hs x hx
    cases x with
    | delivered => exact .inl rfl
    | fault f => exact .inr (.inl ⟨f, rfl, hbefits⟩)
    | cancelled => cases hc.symm.trans hbefits
    | crashed => exact .inr (.inr rfl)

/-- What has become, at `b`, of a worker that a shutdown found at `u` when its grace was over:
its delivery is let go of without a fault, and none has begun since. -/
structure Moment.Halted (u b : Moment) (id : SubscriberId) (s : Subscriber) : Prop where
  slice : u.sliceOf id = none
  started : b.world.started id = u.world.started id
  rows : b.world.rows id = u.world.rows id ++ s.phase.lastRows
  conclusions : b.world.conclusions id = u.world.conclusions id ++ s.phase.lastConclusions
  faults : ∀ n, b.world.faults n id = u.world.faults n id

theorem Moment.Expires.part {u : Moment} {c deadline pending : Nat} {id : SubscriberId}
    {s : Subscriber} (hx : u.Expires c r deadline pending)
    (hs : u.world.subscriber? id = some s) (hr : s.relay = r) :
    (u.stepCall c).part id =
      { u.part id with sub := some { s with cancelled := true } } := by
  obtain ⟨k, hk, hkr, hp⟩ := hx.call
  have hn : u.world.liveWorkers k.relay ≠ 0 := by
    rw [hkr, hx.left]
    exact hx.late
  rw [Moment.stepCall, World.stepCall_expired hk hp hn hx.due]
  exact part_expire hs (hr.trans hkr.symm) c _

theorem Moment.Expires.halted {u : Moment} {c deadline pending : Nat} {id : SubscriberId}
    {s : Subscriber} (hx : u.Expires c r deadline pending) (hu : u.Sound)
    (hl : ∀ l ∈ u.slice, l.relay ≠ r) (hub : Transitions (u.stepCall c) b)
    (hb : b.world.Settled r) (hs : u.world.subscriber? id = some s) (hr : s.relay = r)
    (hv : s.live = true) : u.Halted b id s := by
  have hslice : u.sliceOf id = none := by
    cases hm : u.sliceOf id with
    | none => rfl
    | some l =>
      obtain ⟨hmem, rfl⟩ := sliceOf_eq_some_iff.mp hm
      obtain ⟨t, ht, htr, -⟩ := hu.slice l hmem
      obtain rfl := Option.mem_unique hs ht
      exact absurd (htr.symm.trans hr) (hl l hmem)
  have hstep : Transition u (u.stepCall c) := .call c hx.drives
  have hpart := hx.part hs hr
  have hsub : (u.stepCall c).world.subscriber? id = some { s with cancelled := true } :=
    congrArg Part.sub hpart
  have hw := hub.onlyStops (hstep.sound hu) ((congrArg Part.slice hpart).trans hslice) hsub rfl
  rw [hpart] at hw
  obtain ⟨i, t, hi, ht, -, ⟨hp, -⟩ | ⟨-, -, hrows, hcon⟩⟩ := hw.course
  · obtain rfl := Option.some.inj hi
    obtain ⟨v, hv', hvr, -⟩ := hub.subscriber (hstep.sound hu) hsub
    obtain rfl : v = t := Option.mem_unique hv' ht
    have hdead := hb.workers id v ht (hvr.trans hr)
    rw [Subscriber.live, hp] at hdead
    cases hv.symm.trans hdead
  · obtain rfl := Option.some.inj hi
    exact ⟨hslice, hw.started, hrows, hcon, fun n => congrFun hw.faults n⟩

/-- The call that closes a relay returns only when nothing can happen on it any more. Without an
error, no token has fired, and every queue was worked off but for those of workers that a panic
outside the guard took down. With an error, the grace was over with that many workers left: they
were halted, and the last event names their number. -/
theorem shutdown_drains_or_reports (ha : a.Reached) (hr : a.world.relayExists r = true)
    (ho : a.world.closed r = false) (hl : ∀ l ∈ a.slice, l.call = none)
    (hab : Transitions (a.shutdown r) b) {result : Option RelayError}
    (hres : b.world.result? a.world.calls.size = some result) :
    (∀ d, Transitions b d → d.world.Settled r ∧ d.world.events r = b.world.events r ∧
      ∀ id t, d.world.subscriber? id = some t → t.relay = r → (b.part id).Rests (d.part id)) ∧
    ((result = none ∧
      (∃ e, (b.world.events r).getLast? = some e ∧ e.kind = .allDrainedWithin) ∧
      ∀ id ∈ a.world.active r, ∃ s, b.world.subscriber? id = some s ∧ b.WorkedOff id s) ∨
    ∃ u n, result = some (.graceExceeded (a.world.graceOf r) n) ∧
      Transitions (a.shutdown r) u ∧ Transitions u b ∧
      u.Expires a.world.calls.size r (a.world.after (a.world.graceOf r)) n ∧
      (∀ id s, u.world.subscriber? id = some s → s.relay = r → s.live = true →
        u.Halted b id s) ∧
      ∃ e, (b.world.events r).getLast? = some e ∧ e.kind = .graceExceeded ∧
        e.reason = some ("pending=" ++ n.repr)) := by
  have hstep : Transition a (a.shutdown r) := .shutdown r hr hl
  have hreached : b.Reached := (ha.tail hstep).trans hab
  obtain ⟨k, hk, -, hc⟩ := hab.course ha.sound hr ho hl
  obtain ⟨hset, hv⟩ : b.world.Settled r ∧ a.Verdict r b result := by
    obtain ⟨i, o, phase⟩ := k
    rw [World.result?, hk] at hres
    cases hc with
    | draining | cancelling | flushing | dropped => cases hres
    | returned hset hv =>
      obtain rfl := Option.some.inj hres
      exact ⟨hset, hv⟩
  refine ⟨fun d hbd => ⟨hbd.settled hreached.sound hset, hbd.callFree hreached.sound hset,
    fun id t ht htr => ?_⟩, ?_⟩
  · apply hbd.rests hreached.sound hset
    intro s hs
    obtain rfl := Option.mem_unique ht hs
    exact htr
  · cases hv with
    | drained hu hlast hkind =>
      refine .inl ⟨rfl, ⟨_, hlast, hkind⟩, fun id hi => ?_⟩
      obtain ⟨s, hs, hsr, hf⟩ := hu id hi
      exact ⟨s, hs, hreached.workedOff hs (hset.workers id s hs hsr) hf⟩
    | @exceeded u e n hau hx hslice hub hlast hkind hreason =>
      have hus := hau.sound (hstep.sound ha.sound)
      refine .inr ⟨u, n, rfl, hau, .head (.call _ hx.drives) hub, hx, ?_, e, hlast, hkind,
        hreason⟩
      exact fun id s hs hsr hlive => hx.halted hus hslice hub hset hs hsr hlive

theorem transitions_stepCall {c : Nat} (hl : a.slice = none) (hc : a.world.isHosted c = true) :
    Transitions a ((a.stepCall c).stepCall c) := by
  have hdrives : ∀ {m : Moment}, m.slice = none → m.world.isHosted c = true → m.Drives c := by
    intro m hm hh
    rw [Moment.Drives, hm]
    exact hh
  have hone : Transition a (a.stepCall c) := .call c (hdrives hl hc)
  have hnext : (a.stepCall c).world.isHosted c = true := by
    rw [World.isHosted, Option.any_eq_true] at hc ⊢
    obtain ⟨k, hk, ho⟩ := hc
    obtain ⟨j, hj, ht⟩ := hone.callChange hk
    exact ⟨j, hj, ht.owner ▸ ho⟩
  exact (Relation.ReflTransGen.single hone).tail (.call c (hdrives hl hnext))

theorem transitions_deliver {id : SubscriberId} {s : Subscriber} {m : Message}
    {queue : List Message} (hl : a.slice = none) (hs : a.world.subscriber? id = some s)
    (hp : s.phase = .idle) (hc : s.cancelled = false) (hq : s.queue = m :: queue) :
    Transitions a { a with world := (a.world.take id m queue).finish id .delivered } := by
  let l : Slice := ⟨id, s.relay, m, a.world.deadlineFor s.relay, none⟩
  have hbegin := Transition.begin hl hs hp hc hq
  have hend := Transition.conclude
    (a := { a with world := a.world.take id m queue, slice := some l }) (.ended none) rfl rfl
  rw [← hl] at hend
  exact (Relation.ReflTransGen.single hbegin).tail hend

/-- One message is on its way when the relay is closed. -/
def Moment.pressed (grace : Duration) : Moment :=
  (Moment.opening { grace := grace } [{ key := "sink", name := "sink" }]).publish 0 .empty

theorem reached_pressed (grace : Duration) : (Moment.pressed grace).Reached :=
  (reached_opening { grace := grace } (Nat.le_of_ble_eq_true rfl) _).tail (.publish 0 .empty rfl)

def Moment.closing (grace : Duration) : Moment := (Moment.pressed grace).shutdown 0

def Moment.served : Moment :=
  { Moment.closing (.ofMillis 5000) with
    world := ((Moment.closing (.ofMillis 5000)).world.take ⟨0⟩ .empty []).finish ⟨0⟩ .delivered }

def Moment.relieved : Moment :=
  { Moment.served with world := Moment.served.world.stopWorker ⟨0⟩ }

theorem transitions_relieved : Transitions (Moment.closing (.ofMillis 5000)) Moment.relieved := by
  have hs : (Moment.closing (.ofMillis 5000)).world.subscriber? ⟨0⟩ = some _ := rfl
  have hserved : Transitions (Moment.closing (.ofMillis 5000)) Moment.served :=
    transitions_deliver rfl hs rfl rfl rfl
  have ht : Moment.served.world.subscriber? ⟨0⟩ = some _ := rfl
  have hfed : Moment.served.world.isFed ⟨0⟩ = false := by decide +kernel
  exact hserved.tail (.stop rfl ht rfl (.inr ⟨rfl, hfed⟩))

def Moment.cutShort : Moment :=
  let a := (Moment.closing .zero).stepCall 0
  { a with world := a.world.stopWorker ⟨0⟩ }

theorem transitions_cutShort : Transitions (Moment.closing .zero) Moment.cutShort := by
  have hhost : (Moment.closing .zero).world.isHosted 0 = true := by decide +kernel
  have hone : (Moment.closing .zero).world.liveWorkers 0 = 1 := by decide +kernel
  have hx : (Moment.closing .zero).Expires 0 0 0 1 :=
    ⟨⟨_, rfl, rfl, rfl⟩, hhost, Nat.le_refl 0, hone, Nat.one_ne_zero⟩
  have hs : (Moment.closing .zero).world.subscriber? ⟨0⟩ = some _ := rfl
  have hp := congrArg Part.sub (hx.part hs rfl)
  have hexpire : Transition (Moment.closing .zero) ((Moment.closing .zero).stepCall 0) :=
    .call 0 hhost
  have hstop : Transition ((Moment.closing .zero).stepCall 0) Moment.cutShort :=
    .stop rfl hp rfl (.inl rfl)
  exact (Relation.ReflTransGen.single hexpire).tail hstop

/-- With some grace the queue is worked off, without any the worker is counted. -/
theorem shutdown_drains_or_reports_pressed :
    (∃ s, ((Moment.relieved.stepCall 0).stepCall 0).world.subscriber? ⟨0⟩ = some s ∧
      ((Moment.relieved.stepCall 0).stepCall 0).WorkedOff ⟨0⟩ s) ∧
    ∃ e, (((Moment.cutShort.stepCall 0).stepCall 0).world.events 0).getLast? = some e ∧
      e.kind = .graceExceeded ∧ e.reason = some "pending=1" := by
  have hl : ∀ grace, ∀ l ∈ (Moment.pressed grace).slice, l.call = none := by
    intro grace l hl
    cases hl
  constructor
  · have hhost : Moment.relieved.world.isHosted 0 = true := by decide +kernel
    have hres : ((Moment.relieved.stepCall 0).stepCall 0).world.result? 0 = some none := by
      decide +kernel
    obtain ⟨-, ⟨-, -, hall⟩ | ⟨_, _, hno, -⟩⟩ := shutdown_drains_or_reports
      (reached_pressed (.ofMillis 5000)) rfl rfl (hl _)
      (transitions_relieved.trans (transitions_stepCall rfl hhost)) hres
    · exact hall ⟨0⟩ (List.mem_singleton.mpr rfl)
    · cases hno
  · have hhost : Moment.cutShort.world.isHosted 0 = true := by decide +kernel
    have hres : ((Moment.cutShort.stepCall 0).stepCall 0).world.result? 0 =
        some (some (.graceExceeded .zero 1)) := by decide +kernel
    obtain ⟨-, ⟨hno, -⟩ | ⟨_, n, hn, -, -, -, -, e, he, hk, hreason⟩⟩ :=
      shutdown_drains_or_reports (reached_pressed .zero) rfl rfl (hl _)
        (transitions_cutShort.trans (transitions_stepCall rfl hhost)) hres
    · cases hno
    · obtain ⟨-, rfl⟩ := RelayError.graceExceeded.inj (Option.some.inj hn)
      exact ⟨e, he, hk, hreason⟩

/-- The panic comes when the relay is closed. -/
def Moment.wrecked : Moment :=
  let a := Moment.fragile.shutdown 0
  { a with world := (a.world.take ⟨0⟩ .empty [.empty]).crash ⟨0⟩ }

/-- A panic that takes the worker down leaves a message behind, and the shutdown returns without
an error. -/
theorem drained_fragile_loses_message : ∃ b, Transitions (Moment.fragile.shutdown 0) b ∧
    b.world.result? 0 = some none ∧ ⟨0⟩ ∈ Moment.fragile.world.active 0 ∧
    b.enqueued ⟨0⟩ ≠ b.world.started ⟨0⟩ := by
  have hs : (Moment.fragile.shutdown 0).world.subscriber? ⟨0⟩ = some _ := rfl
  have hcrash : Transition (Moment.fragile.shutdown 0) Moment.wrecked :=
    .crash rfl hs rfl rfl rfl ⟨rfl, [], rfl⟩
  have hhost : Moment.wrecked.world.isHosted 0 = true := by decide +kernel
  refine ⟨(Moment.wrecked.stepCall 0).stepCall 0, .head hcrash (transitions_stepCall rfl hhost),
    ?_, ?_, fun he => ?_⟩
  · decide +kernel
  · exact List.mem_singleton.mpr rfl
  · have hn : (((Moment.wrecked.stepCall 0).stepCall 0).world.started ⟨0⟩).length = 1 := by
      decide +kernel
    rw [← he] at hn
    cases hn

end Fanout
