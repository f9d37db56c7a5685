import Fanout.Proofs.Parallel

/-! # The part of a subscriber

What a moment has of one subscriber, whoever else there is: its state, the relays that have it
active, the slice that is its own, the messages enqueued to it and the record of its deliveries.
Here is which operations spare a part; the next module says how the others change it.
-/
namespace Fanout

@[ext] structure Part where
  sub : Option Subscriber
  active : Nat → Prop
  slice : Option Slice
  enqueued : List Message
  rows : List Row
  conclusions : List Conclusion
  faults : Nat → List Event

def Moment.part (a : Moment) (id : SubscriberId) : Part where
  sub := a.world.subscriber? id
  active := fun r => id ∈ a.world.active r
  slice := a.sliceOf id
  enqueued := a.enqueued id
  rows := a.world.rows id
  conclusions := a.world.conclusions id
  faults := fun r => a.world.faults r id

namespace World

variable {u v w : World} {r : Nat} {ds : List Event.Draft} {id : SubscriberId}

/-- From one world to another nothing of a subscriber changes. -/
structure Spares (w : World) (id : SubscriberId) (v : World) : Prop where
  subscriber : v.subscriber? id = w.subscriber? id
  active : ∀ n, id ∈ v.active n ↔ id ∈ w.active n
  rows : v.rows id = w.rows id
  conclusions : v.conclusions id = w.conclusions id
  faults : ∀ n, v.faults n id = w.faults n id

theorem Spares.refl (w : World) (id : SubscriberId) : w.Spares id w :=
  ⟨rfl, fun _ => Iff.rfl, rfl, rfl, fun _ => rfl⟩

theorem Spares.trans (hu : u.Spares id v) (hv : v.Spares id w) : u.Spares id w :=
  ⟨hv.subscriber.trans hu.subscriber, fun n => (hv.active n).trans (hu.active n),
    hv.rows.trans hu.rows, hv.conclusions.trans hu.conclusions,
    fun n => (hv.faults n).trans (hu.faults n)⟩

theorem faults_of_events {n : Nat} (he : v.events n = w.events n) (id : SubscriberId) :
    v.faults n id = w.faults n id := by
  rw [faults, he, faults]

theorem active_of_relays (hr : v.relays = w.relays) (n : Nat) : v.active n = w.active n := by
  rw [active, relay?, hr, active, relay?]

theorem closed_of_relays (hr : v.relays = w.relays) (n : Nat) : v.closed n = w.closed n := by
  rw [closed, relay?, hr, closed, relay?]

theorem events_of_relays (hr : v.relays = w.relays) (n : Nat) : v.events n = w.events n := by
  rw [events, relay?, hr, events, relay?]

theorem faults_of_relays (hr : v.relays = w.relays) (n : Nat) (id : SubscriberId) :
    v.faults n id = w.faults n id :=
  faults_of_events (events_of_relays hr n) id

theorem tellsOf_stampAll_eq_nil (hd : ∀ d ∈ ds, d.kind.endsDelivery = false)
    (time seq : Nat) (id : SubscriberId) :
    (Event.stampAll time seq ds).filter (·.tellsOf id) = [] := by
  induction ds generalizing seq with
  | nil => rfl
  | cons d ds ih =>
    obtain ⟨hd, hds⟩ := List.forall_mem_cons.mp hd
    rw [Event.stampAll, List.filter_cons, ih hds]
    simp [Event.tellsOf, hd]

theorem Reports.spares (hv : w.Reports r ds v) (hd : ∀ d ∈ ds, d.kind.endsDelivery = false)
    (n : Nat) (id : SubscriberId) : v.faults n id = w.faults n id := by
  rw [hv.faults, tellsOf_stampAll_eq_nil hd]
  split <;> exact List.append_nil _

theorem kind_of_refusal {f : SinkFault} (hf : w.refusal? id = some f) :
    EventKind.ofFault f = .sinkOverflow ∨ EventKind.ofFault f = .sinkWorkerGone := by
  rw [refusal?] at hf
  cases hs : w.subscriber? id with
  | none =>
    rw [hs] at hf
    cases hf
    exact .inr rfl
  | some s =>
    simp only [hs] at hf
    split at hf
    · cases hf
      exact .inr rfl
    · split at hf <;> cases hf
      exact .inl rfl

theorem kind_of_mem_drops {ids : List SubscriberId} {d : SubscriberId × SinkFault}
    (hd : d ∈ w.drops ids) : d.1 ∈ ids ∧
      (EventKind.ofFault d.2 = .sinkOverflow ∨ EventKind.ofFault d.2 = .sinkWorkerGone) := by
  obtain ⟨id, hi, hf⟩ := List.mem_filterMap.mp hd
  obtain ⟨f, hr, rfl⟩ := Option.map_eq_some_iff.mp hf
  exact ⟨hi, kind_of_refusal hr⟩

theorem SameCore.spares (hv : w.SameCore v) (id : SubscriberId) : w.Spares id v :=
  ⟨hv.subscriber? id, fun n => by rw [hv.active], hv.rows id, hv.conclusions id,
    fun n => faults_of_events (hv.events n) id⟩

theorem Spares.of_journal (hs : v.subscribers = w.subscribers) (hr : v.relays = w.relays)
    (hx : v.rows id = w.rows id) (hc : v.conclusions id = w.conclusions id) : w.Spares id v :=
  ⟨by rw [subscriber?, hs, subscriber?], fun n => by rw [active_of_relays hr], hx, hc,
    fun n => faults_of_relays hr n id⟩

theorem spares_trace (w : World) (t : Trace) (id : SubscriberId) : w.Spares id (w.trace t) :=
  .of_journal rfl rfl (rows_trace w t id) (conclusions_trace w t id)

theorem spares_row {i : SubscriberId} (hi : i ≠ id) (x : Row) : w.Spares id (w.row i x) :=
  .of_journal rfl rfl (by rw [rows_row, if_neg hi, List.append_nil]) (conclusions_row w i x id)

theorem spares_concluded {i : SubscriberId} (hi : i ≠ id) (how : Conclusion) :
    w.Spares id (w.note (.concluded i how)) :=
  .of_journal rfl rfl (rows_concluded w i id how)
    (by rw [conclusions_concluded, if_neg hi, List.append_nil])

theorem spares_modifySubscriber {i : SubscriberId} (hi : i ≠ id) (f : Subscriber → Subscriber) :
    w.Spares id (w.modifySubscriber i f) :=
  ⟨by rw [subscriber?_modifySubscriber, if_neg hi], fun _ => Iff.rfl, rfl, rfl, fun _ => rfl⟩

theorem spares_calls (w : World) (calls : Array Call) (id : SubscriberId) :
    w.Spares id { w with calls := calls } :=
  .of_journal rfl rfl rfl rfl

theorem spares_emit (w : World) (r : Nat) {d : Event.Draft}
    (hd : ∀ seq time, (d.stamp seq time).tellsOf id = false) : w.Spares id (w.emit r d) := by
  refine ⟨rfl, fun n => by rw [active_emit], rfl, rfl, fun n => ?_⟩
  rw [faults, events, relay?_emit, faults, events]
  split
  · cases w.relay? n with
    | none => rfl
    | some q => simp [Bus.push, hd]
  · rfl

theorem id_fault (name : String) (i : SubscriberId) (f : SinkFault) (seq time : Nat) :
    ((Event.Draft.fault name i f).stamp seq time).id = some i := by
  cases f <;> rfl

theorem Spares.deliveries {i : SubscriberId} (hi : i ≠ id) :
    ContainsDeliveries i (Spares · id ·) where
  refl w := .refl w id
  trans := .trans
  subscriber _ f := spares_modifySubscriber hi f
  row _ x := spares_row hi x
  concluded _ how := spares_concluded hi how
  trace w t := spares_trace w t id
  fault w r name f := spares_emit w r fun seq time => by simp [Event.tellsOf, id_fault, hi]
  dropCall w _ := spares_calls w _ id

theorem spares_build (w : World) (name : String) (config : Config) (observers : List Observer)
    (id : SubscriberId) : w.Spares id (w.build name config observers).1 := by
  have hj := journal_build w name config observers
  refine ⟨?_, fun n => by rw [active_build], ?_, ?_,
    fun n => faults_of_events (events_build w name config observers n) id⟩
  · rw [subscriber?, subscribers_build, subscriber?]
  · rw [rows, hj, rows]
  · rw [conclusions, hj, conclusions]

theorem spares_enroll (hr : r < w.relays.size) (hi : id.serial ≠ w.subscribers.size)
    (s : Subscriber) : w.Spares id (w.enroll r s) := by
  refine ⟨?_, fun n => ?_, rows_enroll w r s id, conclusions_enroll w r s id, fun n => ?_⟩
  · rw [subscriber?_enroll, if_neg hi]
  · have hne : id ≠ ⟨w.subscribers.size⟩ := fun he => hi (congrArg SubscriberId.serial he)
    rw [active_enroll hr]
    split <;> simp [hne]
  · exact (reports_enroll hr s).spares (by simp [Event.Draft.registered, EventKind.endsDelivery])
      n id

theorem spares_turnAway (hi : id.serial ≠ w.subscribers.size) (r : Nat) (name : String)
    (sink : Sink) (title : String) : w.Spares id (w.turnAway r name sink title) := by
  refine ⟨?_, fun _ => Iff.rfl, rows_trace _ _ id, conclusions_trace _ _ id, fun _ => rfl⟩
  exact (subscriber?_push w _ id).trans (if_neg hi)

theorem spares_withdraw (hr : r < w.relays.size) {i : SubscriberId} (hi : i ≠ id) :
    w.Spares id (w.withdraw r i) := by
  refine ⟨?_, fun n => ?_, rows_withdraw w r i id, conclusions_withdraw w r i id, fun n => ?_⟩
  · rw [subscriber?_withdraw, if_neg hi]
  · rw [active_withdraw]
    split
    · exact List.mem_erase_of_ne hi.symm
    · rfl
  · exact (reports_withdraw hr i).spares
      (by simp [Event.Draft.unregistered, EventKind.endsDelivery]) n id

theorem kinds_fanOut (w : World) (ids : List SubscriberId) :
    ∀ d ∈ (w.drops ids).map (fun d => Event.Draft.fault (w.nameOf d.1) d.1 d.2) ++
      [.published (ids.length - (w.drops ids).length)], d.kind.endsDelivery = false := by
  intro d hd
  rcases List.mem_append.mp hd with hd | hd
  · obtain ⟨e, he, rfl⟩ := List.mem_map.mp hd
    have hk : (Event.Draft.fault (w.nameOf e.1) e.1 e.2).kind = .ofFault e.2 := rfl
    rw [hk]
    rcases (kind_of_mem_drops he).2 with hd | hd <;> rw [hd] <;> rfl
  · obtain rfl := List.mem_singleton.mp hd
    rfl

theorem spares_fanOut (hr : r < w.relays.size) {ids : List SubscriberId} (hn : ids.Nodup)
    (hi : id ∉ w.takers ids) (m : Message) : w.Spares id (w.fanOut r ids m) := by
  refine ⟨?_, fun n => by rw [active_fanOut], rows_fanOut .., conclusions_fanOut .., fun n => ?_⟩
  · rw [subscriber?_fanOut w r m hn, if_neg hi]
  · exact (reports_fanOut hr ids m).spares (kinds_fanOut w ids) n id

theorem faults_openCall (w : World) (r : Nat) (owner : Option SubscriberId) (n : Nat)
    (id : SubscriberId) : (w.openCall r owner).faults n id = w.faults n id := by
  have hstep := w.openCallStep r owner
  generalize w.openCall r owner = v at hstep
  cases hstep with
  | missing | late => rfl
  | closes _ hq =>
    refine (reports_close (lt_size_of_relay? hq)).spares ?_ n id
    simp [Event.Draft.unregistered, EventKind.endsDelivery]

theorem CallStep.spares {c : Nat} (hv : CallStep w c v)
    (hr : ∀ k, w.call? c = some k → k.relay < w.relays.size)
    (hx : ∀ k deadline, w.call? c = some k → k.phase = .draining deadline →
      w.liveWorkers k.relay ≠ 0 → deadline ≤ w.now →
      ∀ s, w.subscriber? id = some s → s.relay ≠ k.relay) : w.Spares id v := by
  have hf : ∀ (k : Call) (d : Event.Draft) (result : Option RelayError),
      w.call? c = some k → d.kind.endsDelivery = false →
      w.Spares id (w.flush c k.relay d result) := by
    intro k d result hk hd
    refine ⟨rfl, fun n => by rw [active_flush], rfl, rfl, fun n => ?_⟩
    exact (reports_flush (hr k hk) c d result).spares (by simpa using hd) n id
  cases hv with
  | stays => exact .refl _ id
  | drained hk hp hl => exact hf _ _ _ hk rfl
  | stopped hk hp hl => exact hf _ _ _ hk rfl
  | returns hk hp => exact spares_calls ..
  | expired hk hp hl hd =>
    refine ⟨?_, fun _ => Iff.rfl, rfl, rfl, fun _ => rfl⟩
    refine (subscriber?_cancelAll w _ id).trans ?_
    cases hs : w.subscriber? id with
    | none => rfl
    | some s =>
      have hne := hx _ _ hk hp hl hd s hs
      simp [hne]

end World
end Fanout
