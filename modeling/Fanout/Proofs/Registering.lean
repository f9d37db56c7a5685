import Fanout.Proofs.Handles
import Fanout.Proofs.Locks
import Fanout.Proofs.Staffing

/-! # Registrations that panic

A registration asks the sink for its name, and at an open relay for its capacity, too, while it
holds the lock of the relay. If the sink panics then, or if its queue cannot be made, all that may
stay behind is the poisoned lock: there is nothing else in the world right after it, nor in anything
that comes later.
-/
namespace Fanout

variable {a : Moment} {r : Nat} {id : SubscriberId} {s : Subscriber}

def Naming.Panics : Naming → Prop
  | .given _ => False
  | .panics _ => True

/-- With such a capacity there is no queue: the sink panics when asked, or the queue would be too
long. -/
def Capacity.Panics : Capacity → Prop
  | .panics => True
  | .size n => World.maxQueueCapacity < n

namespace World

variable {u v w : World} {sink : Sink} {name title info : String} {code : List Action} {q : Relay}

theorem queueCapacity?_of_le {n : Nat} (hn : n ≤ maxQueueCapacity) :
    queueCapacity? (.size n) = .ok (max n 1) := by
  unfold queueCapacity?
  apply if_neg
  unfold maxQueueCapacity at *
  omega

theorem queueCapacity?_eq_error_iff {c : Capacity} :
    (∃ info, queueCapacity? c = .error info) ↔ c.Panics := by
  cases c with
  | panics => exact ⟨fun _ => trivial, fun _ => ⟨_, rfl⟩⟩
  | size n =>
    constructor
    · rintro ⟨info, hinfo⟩
      apply Nat.lt_of_not_le
      intro hn
      rw [queueCapacity?_of_le hn] at hinfo
      cases hinfo
    · intro hn
      exact ⟨_, if_pos (Nat.lt_of_lt_of_le hn (Nat.le_max_left n 1))⟩

theorem register_of_panics {p : Panic} (hn : sink.name = .panics p) (w : World) (r : Nat)
    (name : String) : w.register r name sink = (w, .error p.info) := by
  simp [register, hn]

theorem register_of_ok (hn : sink.name = .given title) (hq : w.relay? r = some q)
    (ho : q.closed = false) {capacity : Nat} (hc : queueCapacity? sink.capacity = .ok capacity)
    (name : String) : w.register r name sink = (w.enroll r
        { relay := r, relayName := name, sink := sink, name := title, capacity := capacity },
      .ok ⟨⟨w.subscribers.size⟩, title, some r⟩) := by
  simp [register, hn, hq, ho, hc]

theorem register_of_error (hn : sink.name = .given title) (hq : w.relay? r = some q)
    (ho : q.closed = false) (hc : queueCapacity? sink.capacity = .error info) (name : String) :
    w.register r name sink = (w.poison r, .error info) := by
  simp [register, hn, hq, ho, hc]

theorem register_of_closed (hn : sink.name = .given title) (hq : w.relay? r = some q)
    (hc : q.closed = true) (name : String) : w.register r name sink =
      (w.turnAway r name sink title, .ok ⟨⟨w.subscribers.size⟩, title, none⟩) := by
  simp [register, hn, hq, hc]

/-- At an open relay a registration panics if and only if the sink panics when asked for its name or
its capacity, or asks for more than a queue can have. -/
theorem register_eq_error_iff (hq : w.relay? r = some q) (ho : q.closed = false) (name : String) :
    (∃ info, (w.register r name sink).2 = .error info) ↔
      sink.name.Panics ∨ sink.capacity.Panics := by
  cases hn : sink.name with
  | panics p =>
    rw [register_of_panics hn w r name]
    exact ⟨fun _ => .inl trivial, fun _ => ⟨p.info, rfl⟩⟩
  | given title =>
    have hcapacity : (∃ info, (w.register r name sink).2 = .error info) ↔
        ∃ info, queueCapacity? sink.capacity = .error info := by
      apply exists_congr
      intro info
      cases hc : queueCapacity? sink.capacity with
      | ok capacity => simp [register_of_ok hn hq ho hc name]
      | error info => simp [register_of_error hn hq ho hc name]
    rw [hcapacity, queueCapacity?_eq_error_iff]
    exact ⟨.inr, fun h => h.resolve_left nofun⟩

theorem register_closed_eq_error_iff (hq : w.relay? r = some q) (hc : q.closed = true)
    (name : String) : (∃ info, (w.register r name sink).2 = .error info) ↔ sink.name.Panics := by
  cases hn : sink.name with
  | panics p =>
    rw [register_of_panics hn w r name]
    exact ⟨fun _ => trivial, fun _ => ⟨p.info, rfl⟩⟩
  | given title =>
    rw [register_of_closed hn hq hc name]
    exact ⟨nofun, nofun⟩

/-- The handle of a registration at a closed relay is of no use anywhere. -/
structure TurnsAway (w : World) (r : Nat) (name : String) (sink : Sink) (h : Handle) : Prop where
  answer : (w.register r name sink).2 = .ok h
  inactive : ∀ n, (w.register r name sink).1.isActive n h.id = false
  removed : ((w.register r name sink).1.remove h).2 = false
  unregistered : ∀ n, ((w.register r name sink).1.unregister n h.id).2 = false

theorem turnsAway (ha : a.Sound) (hn : sink.name = .given title) (hq : a.world.relay? r = some q)
    (hc : q.closed = true) (name : String) :
    a.world.TurnsAway r name sink ⟨⟨a.world.subscribers.size⟩, title, none⟩ := by
  have hanswer := congrArg Prod.snd (register_of_closed hn hq hc name)
  have hinactive : ∀ n, (a.world.register r name sink).1.isActive n
      ⟨a.world.subscribers.size⟩ = false := by
    intro n
    rw [Bool.eq_false_iff]
    intro hn
    obtain ⟨rfl, ho⟩ := ((registered ha hanswer).2 n).mp hn
    simp [closed, hq, hc] at ho
  refine ⟨hanswer, hinactive, rfl, fun n => ?_⟩
  rw [unregister_of_notMem]
  intro hn
  have hn := (isActive_iff ..).mpr hn
  rw [hinactive n] at hn
  cases hn

/-- A registration at an open relay makes an active subscriber with an idle worker and an empty
queue of the given capacity, under the name that the sink gave. -/
structure Admits (w : World) (r : Nat) (name : String) (sink : Sink) (title : String)
    (capacity : Nat) : Prop where
  answer : (w.register r name sink).2 = .ok ⟨⟨w.subscribers.size⟩, title, some r⟩
  subscriber : (w.register r name sink).1.subscriber? ⟨w.subscribers.size⟩ =
    some { relay := r, relayName := name, sink := sink, name := title, capacity := capacity }
  active : (w.register r name sink).1.isActive r ⟨w.subscribers.size⟩ = true

theorem admits (hn : sink.name = .given title) (hq : w.relay? r = some q) (ho : q.closed = false)
    {capacity : Nat} (hc : queueCapacity? sink.capacity = .ok capacity) (name : String) :
    w.Admits r name sink title capacity := by
  have he := register_of_ok hn hq ho hc name
  refine ⟨by rw [he], ?_, ?_⟩
  · rw [he, subscriber?_enroll, if_pos rfl]
  · rw [he, isActive_iff, active_enroll (lt_size_of_relay? hq)]
    simp

/-- This code of a delivery leads from one world to another, without an end and without a wait. -/
inductive Passes (id : SubscriberId) : World → List Action → World → Prop where
  | nil {w : World} : Passes id w [] w
  | cons {u v w : World} {x : Action} {code : List Action} : u.act id x = (v, .proceed) →
    Passes id v code w → Passes id u (x :: code) w

theorem Passes.actAll (h : Passes id u code w) (rest : List Action) :
    u.actAll id (code ++ rest) = w.actAll id rest := by
  induction h with
  | nil => rfl
  | @cons u v w x code hx hcode ih =>
    rw [List.cons_append, World.actAll, hx]
    exact ih

theorem actAll_register (hh : w.home? id = some (r, name))
    (he : w.registerNamed r name sink = (v, .panicked info)) (rest : List Action) :
    w.actAll id (.register sink :: rest) = (v, .ended (some (.panicked info))) := by
  have hact : w.act id (.register sink) = (v, .ends (some (.panicked info))) := by
    simp only [act, hh, he]
  rw [actAll, hact]

end World

/-- From one moment to the other a delivery that panicked with `info` has been concluded: its worker
is idle, with its queue and its token as they were, and the fault is the only report. -/
structure Moment.Contained (a : Moment) (id : SubscriberId) (s : Subscriber) (info : String)
    (b : Moment) : Prop where
  bounds : a.Contains id s b
  reports : a.world.Reports s.relay [.fault s.name id (.panicked info)] b.world
  conclusion : b.world.conclusions id = a.world.conclusions id ++ [.fault (.panicked info)]

/-- A registration has panicked with `info` and left the world `v`. Nothing has changed if the sink
panicked over its name; otherwise the lock is poisoned. From then on nothing tells that the
registration was ever made. -/
structure Moment.Untraced (a : Moment) (r : Nat) (name : String) (sink : Sink) (info : String)
    (v : World) : Prop where
  result : a.world.register r name sink = (v, .error info)
  reply : a.world.registerNamed r name sink = (v, .panicked info)
  unlocked : sink.name.Panics → v = a.world
  poisoned : ¬ sink.name.Panics → ∃ q, v.lock? r = some (.error q)
  lasting : a.world.Indistinct v
  /-- Whatever relay the delivery that made it belongs to. -/
  contained : ∀ l s, a.slice = some l → l.call = none → a.world.subscriber? l.id = some s →
    a.Contained l.id s info
      (Moment.conclude { a with world := v } l (.ended (some (.panicked info))))
  /-- The code of a delivery ends there, as if it had panicked by itself. -/
  replaced : ∀ id (u : World) code, a.world.home? id = some (r, name) → u.Passes id code a.world →
    ∀ rest, u.actAll id (code ++ .register sink :: rest) = (v, .ended (some (.panicked info))) ∧
      u.actAll id (code ++ .panic (.text info) :: rest) =
        (a.world, .ended (some (.panicked info))) ∧
      ∀ n m deadline, (a.world.conclude id n m deadline (.ended (some (.panicked info)))).Indistinct
        (v.conclude id n m deadline (.ended (some (.panicked info))))

theorem contained_withPoisoned (ha : a.Sound) (rs : List Nat) (info : String) {l : Slice}
    (hl : a.slice = some l) (hcall : l.call = none) (hs : a.world.subscriber? l.id = some s) :
    a.Contained l.id s info
      (Moment.conclude { a with world := a.world.withPoisoned rs } l
        (.ended (some (.panicked info)))) := by
  -- What holds at a moment is nowhere about locks.
  have hsound : Moment.Sound { a with world := a.world.withPoisoned rs } :=
    ⟨ha.nodup, ha.shut, ha.member, ha.housed, ha.named, ha.slice, ha.calls, ha.closing, ha.alone,
      ha.owner, ha.engaged⟩
  have hends : Moment.Concludes { a with world := a.world.withPoisoned rs } l.id
      (Moment.conclude { a with world := a.world.withPoisoned rs } l
        (.ended (some (.panicked info))))
      (.fault (.panicked info)) := .code hl rfl ⟨hcall, rfl⟩ rfl
  obtain ⟨hactive, hothers, hslice, hworker⟩ := hends.contains hsound hs
  obtain ⟨hevents, hcount, hclock, hrelays, hconfigs⟩ := hends.reports hsound hs
  exact ⟨⟨hactive, hothers, hslice, hworker⟩, ⟨hevents, hcount, hclock, hrelays, hconfigs⟩,
    hends.conclusions hsound hs⟩

/-- A panic that leaves at most a poisoned lock leaves no trace. -/
theorem World.Like.untraced {v : World} (h : a.world.Like v) (ha : a.Sound) {name info : String}
    {sink : Sink} (hresult : a.world.register r name sink = (v, .error info))
    (hunlocked : sink.name.Panics → v = a.world)
    (hpoisoned : ¬ sink.name.Panics → ∃ q, v.lock? r = some (.error q)) :
    a.Untraced r name sink info v := by
  have hreply : a.world.registerNamed r name sink = (v, .panicked info) := by
    rw [World.registerNamed, hresult]
  refine ⟨hresult, hreply, hunlocked, hpoisoned, h.indistinct, ?_, ?_⟩
  · intro l s hl hcall hs
    obtain ⟨rs, rfl⟩ := h
    exact contained_withPoisoned ha rs info hl hcall hs
  · intro id u code hh hcode rest
    -- Up to the registration the code is the same; then comes either panic.
    refine ⟨?_, ?_, ?_⟩
    · rw [hcode.actAll]
      exact World.actAll_register hh hreply rest
    · rw [hcode.actAll]
      rfl
    · intro n m deadline
      exact ((World.Like.parallel id).conclude n m deadline _ h).indistinct

theorem untraced_of_panics (ha : a.Sound) {sink : Sink} {p : Panic} (hn : sink.name = .panics p)
    (r : Nat) (name : String) : a.Untraced r name sink p.info a.world :=
  World.Like.untraced ⟨a.world.poisoned, rfl⟩ ha (World.register_of_panics hn ..) (fun _ => rfl)
    fun hgiven => (hgiven (by rw [hn]; trivial)).elim

theorem untraced_of_error (ha : a.Sound) {q : Relay} {sink : Sink} {title info : String}
    (hn : sink.name = .given title) (hq : a.world.relay? r = some q) (ho : q.closed = false)
    (hc : World.queueCapacity? sink.capacity = .error info) (name : String) :
    a.Untraced r name sink info (a.world.poison r) := by
  have hlike : a.world.Like (a.world.poison r) := ⟨r :: a.world.poisoned, rfl⟩
  refine hlike.untraced ha (World.register_of_error hn hq ho hc name) (fun hpanics => ?_)
    fun _ => ⟨q, ?_⟩
  · rw [hn] at hpanics
    exact hpanics.elim
  · have hrelay : (a.world.poison r).relay? r = some q := hq
    rw [World.lock?, hrelay]
    simp [World.poison]

/-- At an open relay a registration panics if and only if the sink panics when asked for its name or
its capacity, or asks for more than a queue can have; otherwise there is a new subscriber, whose
queue has at least one place. At a closed relay it panics only over the name, and otherwise the
handle is of no use. A registration that panics leaves no trace, whoever makes it. -/
theorem panicking_registration_leaves_no_trace (ha : a.Reached) {q : Relay}
    (hq : a.world.relay? r = some q) (name : String) (sink : Sink) :
    (q.closed = false →
      ((∃ info, (a.world.register r name sink).2 = .error info) ↔
        sink.name.Panics ∨ sink.capacity.Panics) ∧
      ∀ title n, sink.name = .given title → sink.capacity = .size n →
        n ≤ World.maxQueueCapacity → a.world.Admits r name sink title (max n 1)) ∧
    (q.closed = true →
      ((∃ info, (a.world.register r name sink).2 = .error info) ↔ sink.name.Panics) ∧
      ∀ title, sink.name = .given title →
        a.world.TurnsAway r name sink ⟨⟨a.world.subscribers.size⟩, title, none⟩) ∧
    ∀ info, (a.world.register r name sink).2 = .error info →
      ∃ v, a.Untraced r name sink info v := by
  refine ⟨fun ho => ⟨World.register_eq_error_iff hq ho name, fun title n hn hsize hle => ?_⟩,
    fun hc => ⟨World.register_closed_eq_error_iff hq hc name,
      fun title hn => World.turnsAway ha.sound hn hq hc name⟩, fun info hinfo => ?_⟩
  · apply World.admits hn hq ho
    rw [hsize]
    exact World.queueCapacity?_of_le hle
  · cases hn : sink.name with
    | panics p =>
      rw [World.register_of_panics hn] at hinfo
      obtain rfl := Except.error.inj hinfo
      exact ⟨_, untraced_of_panics ha.sound hn r name⟩
    | given title =>
      cases ho : q.closed with
      | true =>
        rw [World.register_of_closed hn hq ho] at hinfo
        cases hinfo
      | false =>
        cases hc : World.queueCapacity? sink.capacity with
        | ok capacity =>
          rw [World.register_of_ok hn hq ho hc] at hinfo
          cases hinfo
        | error text =>
          rw [World.register_of_error hn hq ho hc] at hinfo
          obtain rfl := Except.error.inj hinfo
          exact ⟨_, untraced_of_error ha.sound hn hq ho hc name⟩

/-- A sink that wants a longer queue than there can be panics the registration, and so does one that
panics over its name. Nothing tells either from the world before. -/
theorem panicking_registration_leaves_no_trace_long_queue :
    let w := (Moment.opening {} [{ key := "sink", name := "sink" }]).world
    let long : Sink := { key := "long", name := "long", capacity := .size 2305843009213693952 }
    let nameless : Sink := { key := "nameless", name := .panics .payload }
    ∃ q info v, w.relay? 0 = some q ∧ q.closed = false ∧
      w.register 0 "relay" long = (v, .error info) ∧
      (∃ q, v.lock? 0 = some (.error q)) ∧ w.Indistinct v ∧
      w.register 0 "relay" nameless = (w, .error "unknown panic") := by
  intro w long nameless
  obtain ⟨q, hq, ho⟩ : ∃ q, w.relay? 0 = some q ∧ q.closed = false := ⟨_, rfl, rfl⟩
  have hreached := reached_opening {} (by decide) [{ key := "sink", name := "sink" }]
  obtain ⟨hopen, -, huntraced⟩ := panicking_registration_leaves_no_trace hreached hq "relay" long
  obtain ⟨-, -, hnameless⟩ := panicking_registration_leaves_no_trace hreached hq "relay" nameless
  have hlong : long.capacity.Panics := by
    show World.maxQueueCapacity < 2305843009213693952
    decide
  obtain ⟨info, hinfo⟩ := (hopen ho).1.mpr (.inr hlong)
  obtain ⟨v, hv⟩ := huntraced info hinfo
  obtain ⟨u, hu⟩ := hnameless "unknown panic" rfl
  have hsame : u = w := hu.unlocked trivial
  refine ⟨q, info, v, hq, ho, hv.result, hv.poisoned id, hv.lasting, ?_⟩
  rw [hu.result, hsame]

/-- A registration may panic although the sink names no capacity that is too large: the sink may
panic itself when asked, and over its name even at a closed relay. -/
theorem panics_without_capacity :
    (¬ ∀ (a : Moment) (r : Nat) (q : Relay) (name : String) (sink : Sink), a.Reached →
      a.world.relay? r = some q → q.closed = false →
      ((∃ info, (a.world.register r name sink).2 = .error info) ↔
        ∃ n, sink.capacity = .size n ∧ World.maxQueueCapacity < n)) ∧
    ¬ ∀ (a : Moment) (r : Nat) (q : Relay) (name : String) (sink : Sink), a.Reached →
      a.world.relay? r = some q → q.closed = true →
      ∃ h, (a.world.register r name sink).2 = .ok h := by
  have hopen : (Moment.opening {} []).Reached := reached_opening {} (by decide) []
  constructor
  · intro h
    have hpanics := (h _ 0 _ "relay" { key := "sink", name := "sink", capacity := .panics } hopen
      rfl rfl).mp ⟨_, rfl⟩
    obtain ⟨n, hn, -⟩ := hpanics
    cases hn
  · intro h
    have hclosed : ((Moment.opening {} []).shutdown 0).Reached :=
      hopen.tail (.shutdown 0 rfl fun l hl => by cases hl)
    obtain ⟨k, hk⟩ := h _ 0 _ "relay" { key := "nameless", name := .panics .payload } hclosed rfl rfl
    cases hk

end Fanout
