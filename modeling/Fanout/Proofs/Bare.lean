import Fanout.Proofs.ClosedRelations

/-! # A world without observers

What is left of a world when its listeners are taken away, its calls of shutdown, which wait for
listeners, and all that the journal has of either. Every operation that a host or a sink makes on a
relay, but for a call of shutdown, does to the bare world what it does to the world itself.
-/
namespace Fanout

@[simp] theorem Relay.core_core (q : Relay) : q.core.core = q.core := rfl
@[simp] theorem Relay.closed_core (q : Relay) : q.core.closed = q.closed := rfl
@[simp] theorem Relay.active_core (q : Relay) : q.core.active = q.active := rfl
@[simp] theorem Relay.config_core (q : Relay) : q.core.config = q.config := rfl

namespace World

variable {w : World} {id i : SubscriberId} {r : Nat}

def bare (w : World) : World :=
  { w with
    relays := w.relays.map Relay.core
    calls := #[]
    journal := w.journal.filter fun n => !n.sparesDeliveries }

@[simp] theorem relay?_bare (w : World) (r : Nat) :
    w.bare.relay? r = (w.relay? r).map Relay.core := by
  simp [relay?, bare]

@[simp] theorem subscriber?_bare (w : World) (id : SubscriberId) :
    w.bare.subscriber? id = w.subscriber? id := rfl

@[simp] theorem nameOf_bare (w : World) (id : SubscriberId) : w.bare.nameOf id = w.nameOf id := rfl

@[simp] theorem isActive_bare (w : World) (r : Nat) (id : SubscriberId) :
    w.bare.isActive r id = w.isActive r id := by
  rw [isActive, isActive, locked?_eq, locked?_eq, relay?_bare, Option.map_map]
  rfl

theorem timeoutOf_bare (w : World) (r : Nat) : w.bare.timeoutOf r = w.timeoutOf r := by
  rw [timeoutOf, relay?_bare, Option.map_map]
  rfl

theorem graceOf_bare (w : World) (r : Nat) : w.bare.graceOf r = w.graceOf r := by
  rw [graceOf, relay?_bare, Option.map_map]
  rfl

theorem deadlineFor_bare (w : World) (r : Nat) : w.bare.deadlineFor r = w.deadlineFor r := by
  rw [deadlineFor, relay?_bare, Option.bind_map]
  rfl

theorem countOf_bare (w : World) (r : Nat) : w.bare.countOf r = w.countOf r := by
  rw [countOf, countOf, locked?_eq, locked?_eq, relay?_bare, Option.map_map]
  rfl

@[simp] theorem bare_bare (w : World) : w.bare.bare = w.bare := by
  simp [bare, Function.comp_def]

theorem bare_note (w : World) (n : Note) :
    (w.note n).bare = if n.sparesDeliveries then w.bare else w.bare.note n := by
  cases hn : n.sparesDeliveries <;> simp [bare, note, hn]

@[simp] theorem bare_trace (w : World) (t : Trace) : (w.trace t).bare = w.bare :=
  bare_note w (.traced t)

@[simp] theorem bare_row (w : World) (id : SubscriberId) (x : Row) :
    (w.row id x).bare = w.bare.row id x := bare_note w (.row id w.now x)

@[simp] theorem bare_concluded (w : World) (id : SubscriberId) (how : Conclusion) :
    (w.note (.concluded id how)).bare = w.bare.note (.concluded id how) :=
  bare_note w (.concluded id how)

@[simp] theorem bare_accepted (w : World) (id : SubscriberId) (m : Message) :
    (w.note (.accepted id m)).bare = w.bare.note (.accepted id m) :=
  bare_note w (.accepted id m)

@[simp] theorem bare_modifySubscriber (w : World) (id : SubscriberId)
    (f : Subscriber → Subscriber) :
    (w.modifySubscriber id f).bare = w.bare.modifySubscriber id f := rfl

theorem map_core_modify (qs : Array Relay) (r : Nat) {f g : Relay → Relay}
    (hf : ∀ q, (f q).core = g q.core) :
    (qs.modify r f).map Relay.core = (qs.map Relay.core).modify r g := by
  ext i h₁ h₂
  · simp
  · simp [Array.getElem_modify, apply_ite Relay.core, hf]

theorem bare_modifyRelay (w : World) (r : Nat) {f : Relay → Relay}
    (hf : ∀ q, (f q).core = f q.core) : (w.modifyRelay r f).bare = w.bare.modifyRelay r f := by
  simp [bare, modifyRelay, map_core_modify w.relays r hf]

theorem bare_modifyListener (w : World) (r i : Nat) (f : Listener → Listener) :
    (w.modifyListener r i f).bare = w.bare := by
  have he := map_core_modify w.relays r (g := id)
    (f := fun q => { q with listeners := q.listeners.modify i f }) fun _ => rfl
  have hid : (w.relays.map Relay.core).modify r id = w.relays.map Relay.core := by
    ext j h₁ h₂
    · simp
    · simp [Array.getElem_modify]
  simp [bare, modifyListener, modifyRelay, he, hid]

@[simp] theorem bare_emit (w : World) (r : Nat) (d : Event.Draft) :
    (w.emit r d).bare = w.bare.emit r d := by
  have he := map_core_modify w.relays r
    (f := fun q => { q with bus := q.bus.push (d.stamp w.nextSeq w.now) })
    (g := fun q => { q with bus := q.bus.push (d.stamp w.nextSeq w.now) }) fun _ => rfl
  simp [bare, emit, modifyRelay, he]

@[simp] theorem bare_push (w : World) (s : Subscriber) :
    ({ w with subscribers := w.subscribers.push s } : World).bare =
      { w.bare with subscribers := w.bare.subscribers.push s } := rfl

theorem bare_nameRelay (w : World) (name : String) (r : Nat) :
    (w.nameRelay name r).bare = w.bare.nameRelay name r := rfl

theorem bare_forgetRelay (w : World) (name : String) :
    (w.forgetRelay name).bare = w.bare.forgetRelay name := rfl

theorem bare_forgetHandle (w : World) (name : String) :
    (w.forgetHandle name).bare = w.bare.forgetHandle name := rfl

theorem bare_build (w : World) (name : String) (config : Config) (observers : List Observer) :
    (w.build name config observers).1.bare = (w.bare.build name config []).1 ∧
      (w.build name config observers).2 = (w.bare.build name config []).2 := by
  unfold build
  split
  · exact ⟨rfl, rfl⟩
  · refine ⟨?_, rfl⟩
    simp [bare, nameRelay, Relay.core]

theorem bare_withdraw (w : World) (r : Nat) (id : SubscriberId) :
    (w.withdraw r id).bare = (w.bare.withdraw r id).bare := by
  have hrelay : ∀ v : World,
      (v.modifyRelay r fun q => { q with active := q.active.erase id }).bare =
        v.bare.modifyRelay r fun q => { q with active := q.active.erase id } :=
    fun v => bare_modifyRelay v r fun _ => rfl
  simp [withdraw, hrelay]

theorem bare_unregister (w : World) (r : Nat) (id : SubscriberId) :
    (w.unregister r id).1.bare = (w.bare.unregister r id).1.bare ∧
      (w.unregister r id).2 = (w.bare.unregister r id).2 := by
  unfold unregister
  rw [isActive_bare]
  split
  · exact ⟨bare_withdraw .., rfl⟩
  · exact ⟨by simp, rfl⟩

theorem bare_enroll (w : World) (r : Nat) (s : Subscriber) :
    (w.enroll r s).bare = (w.bare.enroll r s).bare := by
  have hrelay : ∀ (v : World) (id : SubscriberId),
      (v.modifyRelay r fun q => { q with active := q.active ++ [id] }).bare =
        v.bare.modifyRelay r fun q => { q with active := q.active ++ [id] } :=
    fun v id => bare_modifyRelay v r fun _ => rfl
  rw [enroll, bare_emit, bare_trace, hrelay, bare_push, enroll, bare_emit, bare_trace, hrelay,
    bare_push, bare_bare]
  rfl

theorem bare_register (w : World) (r : Nat) (name : String) (sink : Sink) :
    (w.register r name sink).1.bare = (w.bare.register r name sink).1.bare ∧
      (w.register r name sink).2 = (w.bare.register r name sink).2 := by
  simp only [register, locked?_eq, relay?_bare]
  cases sink.name with
  | panics p => exact ⟨(bare_bare w).symm, rfl⟩
  | given title =>
    cases hq : w.relay? r with
    | none => exact ⟨(bare_bare w).symm, rfl⟩
    | some q =>
      cases hc : q.closed with
      | true =>
        simp only [Option.map_some, Relay.closed_core, hc, if_true]
        refine ⟨?_, rfl⟩
        rw [turnAway, turnAway, bare_trace, bare_trace, bare_push, bare_push, bare_bare]
      | false =>
        simp only [Option.map_some, Relay.closed_core, hc, Bool.false_eq_true, if_false]
        cases queueCapacity? sink.capacity with
        | error info => exact ⟨congrArg (poison · r) (bare_bare w).symm, rfl⟩
        | ok capacity => exact ⟨bare_enroll .., rfl⟩

theorem bare_registerNamed (w : World) (r : Nat) (name : String) (sink : Sink) :
    (w.registerNamed r name sink).1.bare = (w.bare.registerNamed r name sink).1.bare ∧
      (w.registerNamed r name sink).2 = (w.bare.registerNamed r name sink).2 := by
  obtain ⟨hbare, hreply⟩ := w.bare_register r name sink
  rw [registerNamed, registerNamed]
  cases hw : w.register r name sink with
  | mk v x =>
    cases hb : w.bare.register r name sink with
    | mk u y =>
      rw [hw, hb] at hbare hreply
      obtain rfl : x = y := hreply
      have hbare : v.bare = u.bare := hbare
      cases x with
      | error info => exact ⟨hbare, rfl⟩
      | ok h =>
        have hactive : v.isActive r h.id = u.isActive r h.id := by
          rw [← isActive_bare, hbare, isActive_bare]
        refine ⟨congrArg (nameHandle · sink.key h) hbare, ?_⟩
        exact congrArg (Reply.registered h.name (Scripted.announced sink)) hactive

theorem bare_foldl {α : Type} {f : World → α → World}
    (hf : ∀ (v : World) x, (f v x).bare = (f v.bare x).bare) (xs : List α) (w : World) :
    (xs.foldl f w).bare = (xs.foldl f w.bare).bare := by
  induction xs generalizing w with
  | nil => exact (bare_bare w).symm
  | cons x xs ih =>
    rw [List.foldl_cons, ih, hf, ← ih, List.foldl_cons]

theorem bare_accept (w : World) (m : Message) (id : SubscriberId) :
    (w.accept m id).bare = (w.bare.accept m id).bare := by
  simp [accept]

theorem bare_reportDrop (w : World) (r : Nat) (d : SubscriberId × SinkFault) :
    (reportDrop r w d).bare = (reportDrop r w.bare d).bare := by
  simp [reportDrop]

theorem bare_fanOut (w : World) (r : Nat) (ids : List SubscriberId) (m : Message) :
    (w.fanOut r ids m).bare = (w.bare.fanOut r ids m).bare := by
  have htake := bare_foldl (f := (accept · m)) (fun v i => bare_accept v m i) (w.takers ids) w
  have hdrop := bare_foldl (fun v d => bare_reportDrop v r d) (w.drops ids)
  rw [fanOut, bare_emit, hdrop, htake, ← hdrop, fanOut, bare_emit]
  rfl

theorem bare_publish (w : World) (r : Nat) (m : Message) :
    (w.publish r m).bare = (w.bare.publish r m).bare := by
  simp only [publish, locked?_eq, relay?_bare]
  cases hq : w.relay? r with
  | none => exact (bare_bare w).symm
  | some q =>
    cases hc : q.closed with
    | true =>
      simp only [Option.map_some, Relay.closed_core, hc, if_true]
      rw [bare_trace, bare_trace, bare_bare]
    | false =>
      cases he : q.active.isEmpty with
      | true =>
        simp only [Option.map_some, Relay.closed_core, Relay.active_core, hc, he,
          Bool.false_eq_true, if_false, if_true]
        rw [bare_emit, bare_emit, bare_trace, bare_trace, bare_bare]
      | false =>
        simp only [Option.map_some, Relay.closed_core, Relay.active_core, hc, he,
          Bool.false_eq_true, if_false]
        exact bare_fanOut ..

theorem bare_close (w : World) (r : Nat) {q p : Relay} (ha : q.active = p.active) :
    (w.close r q).bare = (w.bare.close r p).bare := by
  have hrelay : ∀ v : World,
      (v.modifyRelay r fun q => { q with closed := true, active := [] }).bare =
        v.bare.modifyRelay r fun q => { q with closed := true, active := [] } :=
    fun v => bare_modifyRelay v r fun _ => rfl
  have hfold := bare_foldl (f := fun w i => w.emit r (.unregistered (w.nameOf i) i))
    (fun v i => by simp) p.active
  rw [close, close, ha, hfold, bare_emit, hrelay]

theorem bare_cancelAll (w : World) (r : Nat) : (w.cancelAll r).bare = w.bare.cancelAll r := rfl

theorem bare_make (w : World) (d : Event.Draft) :
    (w.make d).1.bare = { w.bare with nextSeq := w.nextSeq + 1 } := by
  rw [make, bare_note]
  rfl

theorem bare_stepListener (w : World) (r i : Nat) : (w.stepListener r i).bare = w.bare := by
  have hlistening : ContainsListening r i fun w v => v.bare = w.bare :=
    { refl := fun _ => rfl
      trans := fun hu hv => hv.trans hu
      listener := fun w _ => bare_modifyListener ..
      observed := fun w e => bare_note w (.observed r i e)
      missed := fun w count => bare_note w (.missed r i count)
      panicked := fun w p => bare_note w (.observerPanicked r i p) }
  exact hlistening.stepListener w

end World
end Fanout
