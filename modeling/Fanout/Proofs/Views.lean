import Fanout.Proofs.Lookup
import Fanout.Proofs.Moment

/-! # Views

What a world shows of one subscriber or of one relay: the rows and conclusions that the
journal has of its deliveries, the active subscribers, the events on the bus. Each operation
of a relay puts a list of reports on one bus, in order.
-/
namespace Fanout

def Note.rowOf? (id : SubscriberId) : Note → Option Row
  | .row i _ x => if i = id then some x else none
  | _ => none

def Note.conclusionOf? (id : SubscriberId) : Note → Option Conclusion
  | .concluded i how => if i = id then some how else none
  | _ => none

def Row.message? : Row → Option Message
  | .started m => some m
  | _ => none

/-- Faults that end a delivery; the others keep a message out of a queue. -/
def EventKind.endsDelivery : EventKind → Bool
  | .sinkFailed | .sinkPanicked | .sinkTimedOut => true
  | _ => false

def SinkFault.endsDelivery (f : SinkFault) : Bool := (EventKind.ofFault f).endsDelivery

theorem SinkFault.endsDelivery_of_isOwn {f : SinkFault} (hf : f.isOwn = true) :
    f.endsDelivery = true := by
  cases f with
  | failed error | panicked info => rfl
  | timedOut timeout | overflow capacity | workerGone => cases hf

def Event.tellsOf (id : SubscriberId) (e : Event) : Bool := e.id = some id && e.kind.endsDelivery

def Event.stampAll (time : Nat) : Nat → List Event.Draft → List Event
  | _, [] => []
  | seq, d :: ds => d.stamp seq time :: stampAll time (seq + 1) ds

theorem Event.stampAll_append (time seq : Nat) (ds es : List Event.Draft) :
    stampAll time seq (ds ++ es) = stampAll time seq ds ++ stampAll time (seq + ds.length) es := by
  induction ds generalizing seq with
  | nil => rfl
  | cons d ds ih =>
    have hs : seq + 1 + ds.length = seq + (ds.length + 1) := by omega
    simp [stampAll, ih, hs]

namespace World

variable {u v w : World} {r : Nat} {ds es : List Event.Draft}

def rows (w : World) (id : SubscriberId) : List Row := w.journal.toList.filterMap (Note.rowOf? id)

def started (w : World) (id : SubscriberId) : List Message := (w.rows id).filterMap Row.message?

def conclusions (w : World) (id : SubscriberId) : List Conclusion :=
  w.journal.toList.filterMap (Note.conclusionOf? id)

theorem rows_note (w : World) (n : Note) (id : SubscriberId) :
    (w.note n).rows id = w.rows id ++ (n.rowOf? id).toList := by
  cases h : n.rowOf? id <;> simp [rows, note, h]

theorem conclusions_note (w : World) (n : Note) (id : SubscriberId) :
    (w.note n).conclusions id = w.conclusions id ++ (n.conclusionOf? id).toList := by
  cases h : n.conclusionOf? id <;> simp [conclusions, note, h]

theorem rows_trace (w : World) (t : Trace) (id : SubscriberId) :
    (w.trace t).rows id = w.rows id := by
  simp [trace, rows_note, Note.rowOf?]

theorem conclusions_trace (w : World) (t : Trace) (id : SubscriberId) :
    (w.trace t).conclusions id = w.conclusions id := by
  simp [trace, conclusions_note, Note.conclusionOf?]

theorem SameCore.rows (hv : w.SameCore v) (id : SubscriberId) : v.rows id = w.rows id := by
  obtain ⟨ns, hns, ha⟩ := hv.journal
  have hn : ns.filterMap (Note.rowOf? id) = [] := by
    apply List.filterMap_eq_nil_iff.mpr
    intro n hn
    have := ha n hn
    cases n <;> simp_all [Note.sparesDeliveries, Note.rowOf?]
  rw [World.rows, hns, List.filterMap_append, hn, List.append_nil, World.rows]

theorem SameCore.conclusions (hv : w.SameCore v) (id : SubscriberId) :
    v.conclusions id = w.conclusions id := by
  obtain ⟨ns, hns, ha⟩ := hv.journal
  have hn : ns.filterMap (Note.conclusionOf? id) = [] := by
    apply List.filterMap_eq_nil_iff.mpr
    intro n hn
    have := ha n hn
    cases n <;> simp_all [Note.sparesDeliveries, Note.conclusionOf?]
  rw [World.conclusions, hns, List.filterMap_append, hn, List.append_nil, World.conclusions]

theorem SameCore.subscriber? (hv : w.SameCore v) (id : SubscriberId) :
    v.subscriber? id = w.subscriber? id := by
  rw [World.subscriber?, hv.subscribers, World.subscriber?]

def active (w : World) (r : Nat) : List SubscriberId := ((w.relay? r).map (·.active)).getD []
def closed (w : World) (r : Nat) : Bool := ((w.relay? r).map (·.closed)).getD false
def events (w : World) (r : Nat) : List Event := ((w.relay? r).map (·.bus.events.toList)).getD []

def faults (w : World) (r : Nat) (id : SubscriberId) : List Event :=
  (w.events r).filter (·.tellsOf id)

/-- Whether a publish on relay `r` would now put its message in the queue of a subscriber:
the relay is open and has it active, its worker is there and its queue has room. -/
def enqueues (w : World) (r : Nat) (id : SubscriberId) : Bool :=
  !w.closed r && (w.active r).contains id &&
    (w.subscriber? id).any fun s => s.live && !s.isFull

theorem isActive_iff (w : World) (r : Nat) (id : SubscriberId) :
    w.isActive r id = true ↔ id ∈ w.active r := by
  simp only [isActive, active, locked?_eq]
  cases w.relay? r <;> simp

theorem lt_size_of_relay? {q : Relay} (hq : w.relay? r = some q) : r < w.relays.size :=
  (Array.getElem?_eq_some_iff.mp hq).1

theorem relay?_of_lt_size (hr : r < w.relays.size) : w.relay? r = some w.relays[r] :=
  Array.getElem?_eq_getElem hr

theorem lt_size_of_mem_active {id : SubscriberId} (hi : id ∈ w.active r) : r < w.relays.size := by
  rw [active] at hi
  cases hq : w.relay? r with
  | none => simp [hq] at hi
  | some q => exact lt_size_of_relay? hq

theorem active_modifyRelay (w : World) (r n : Nat) (f : Relay → Relay) :
    (w.modifyRelay r f).active n =
      if r = n then ((w.relay? n).map fun q => (f q).active).getD [] else w.active n := by
  simp only [active, relay?_modifyRelay]
  split <;> simp [Function.comp_def]

theorem closed_modifyRelay (w : World) (r n : Nat) (f : Relay → Relay) :
    (w.modifyRelay r f).closed n =
      if r = n then ((w.relay? n).map fun q => (f q).closed).getD false else w.closed n := by
  simp only [closed, relay?_modifyRelay]
  split <;> simp [Function.comp_def]

theorem active_emit (w : World) (r n : Nat) (d : Event.Draft) :
    (w.emit r d).active n = w.active n := by
  simp only [active, relay?_emit]
  split
  · cases w.relay? n <;> rfl
  · rfl

theorem closed_emit (w : World) (r n : Nat) (d : Event.Draft) :
    (w.emit r d).closed n = w.closed n := by
  simp only [closed, relay?_emit]
  split
  · cases w.relay? n <;> rfl
  · rfl

theorem SameCore.active (hv : w.SameCore v) (r : Nat) : v.active r = w.active r := by
  have hr := congrArg (Option.map Relay.active) (hv.relays r)
  simp only [Option.map_map] at hr
  exact congrArg (Option.getD · []) hr

theorem SameCore.closed (hv : w.SameCore v) (r : Nat) : v.closed r = w.closed r := by
  have hr := congrArg (Option.map Relay.closed) (hv.relays r)
  simp only [Option.map_map] at hr
  exact congrArg (Option.getD · false) hr

theorem SameCore.events (hv : w.SameCore v) (r : Nat) : v.events r = w.events r := by
  have hr := congrArg (Option.map fun q => q.bus.events.toList) (hv.relays r)
  simp only [Option.map_map] at hr
  exact congrArg (Option.getD · []) hr

/-- From one world to another just these reports come on the bus of relay `r`, in order. -/
structure Reports (w : World) (r : Nat) (ds : List Event.Draft) (v : World) : Prop where
  events : ∀ n, v.events n = w.events n ++
    if r = n then Event.stampAll w.now w.nextSeq ds else []
  count : v.nextSeq = w.nextSeq + ds.length
  clock : v.now = w.now
  relays : v.relays.size = w.relays.size
  configs : ∀ n, (v.relay? n).map Relay.config = (w.relay? n).map Relay.config

theorem Reports.append (hu : u.Reports r ds v) (hv : v.Reports r es w) :
    u.Reports r (ds ++ es) w := by
  refine ⟨fun n => ?_, ?_, hv.clock.trans hu.clock, hv.relays.trans hu.relays,
    fun n => (hv.configs n).trans (hu.configs n)⟩
  · rw [hv.events, hu.events, hu.clock, hu.count, Event.stampAll_append]
    split <;> simp
  · rw [hv.count, hu.count, List.length_append]
    omega

theorem Reports.nil (hr : v.relays = w.relays) (hc : v.nextSeq = w.nextSeq)
    (hn : v.now = w.now) : w.Reports r [] v := by
  refine ⟨fun n => ?_, hc, hn, by rw [hr], fun n => by rw [relay?, hr, relay?]⟩
  simp [World.events, relay?, hr, Event.stampAll]

theorem Reports.sameCore (hu : u.Reports r ds v) (hr : w.relays = v.relays)
    (hc : w.nextSeq = v.nextSeq) (hn : w.now = v.now) : u.Reports r ds w := by
  have hw := hu.append (.nil hr hc hn)
  rw [List.append_nil] at hw
  exact hw

theorem Reports.modifyRelay (w : World) (r n : Nat) {f : Relay → Relay}
    (hf : ∀ q, (f q).bus = q.bus ∧ (f q).config = q.config) :
    w.Reports r [] (w.modifyRelay n f) := by
  refine ⟨fun k => ?_, rfl, rfl, by simp [World.modifyRelay], fun k => ?_⟩
  · simp only [World.events, relay?_modifyRelay, Event.stampAll]
    split
    · cases w.relay? k <;> simp [hf]
    · simp
  · rw [relay?_modifyRelay]
    split
    · cases w.relay? k <;> simp [hf]
    · rfl

theorem Reports.emit (hr : r < w.relays.size) (d : Event.Draft) :
    w.Reports r [d] (w.emit r d) := by
  refine ⟨fun n => ?_, rfl, rfl, by simp [World.emit, World.modifyRelay], fun n => ?_⟩
  · simp only [World.events, relay?_emit]
    split
    · rename_i he
      subst he
      have hq := relay?_of_lt_size hr
      simp [hq, Bus.push, Event.stampAll]
    · simp
  · rw [relay?_emit]
    split
    · cases w.relay? n <;> rfl
    · rfl

theorem Reports.faults (hv : w.Reports r ds v) (n : Nat) (id : SubscriberId) :
    v.faults n id = w.faults n id ++
      if r = n then (Event.stampAll w.now w.nextSeq ds).filter (·.tellsOf id) else [] := by
  rw [World.faults, hv.events, List.filter_append, World.faults]
  split <;> rfl

end World

def Publication.reaches (p : Publication) (id : SubscriberId) : Bool :=
  p.world.enqueues p.relay id

namespace Moment

def enqueued (a : Moment) (id : SubscriberId) : List Message :=
  (a.published.filter (·.reaches id)).map (·.message)

def sliceOf (a : Moment) (id : SubscriberId) : Option Slice := a.slice.filter (·.id = id)

end Moment
end Fanout
