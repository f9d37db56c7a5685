import Fanout.Proofs.SubscriberView

/-! # Two worlds of the same view

Two worlds that a subscriber cannot tell apart at the same time stay so when the same is done in
both: by the host, or by the subscriber itself.
-/
namespace Fanout.World

structure SameView (id : SubscriberId) (u v : World) : Prop where
  view : u.view id = v.view id
  now : u.now = v.now

namespace SameView

variable {u v u' v' w : World} {id i : SubscriberId} {r : Nat}

theorem hide (h : SameView id u v) (hu : u'.view id = u.view id) (hv : v'.view id = v.view id)
    (hn : u'.now = u.now) (hm : v'.now = v.now) : SameView id u' v' :=
  ⟨hu.trans (h.view.trans hv.symm), hn.trans (h.now.trans hm.symm)⟩

theorem subscriber? (h : SameView id u v) : u.subscriber? id = v.subscriber? id :=
  congrArg View.sub h.view

theorem size (h : SameView id u v) : u.relays.size = v.relays.size := congrArg View.size h.view

theorem count (h : SameView id u v) : u.subscribers.size = v.subscribers.size :=
  congrArg View.count h.view

theorem relayNames (h : SameView id u v) : u.relayNames = v.relayNames :=
  congrArg View.names h.view

theorem notesOf (h : SameView id u v) : u.notesOf id = v.notesOf id := congrArg View.notesOf h.view

theorem outline (h : SameView id u v) (r : Nat) :
    (u.relay? r).map (·.outline id) = (v.relay? r).map (·.outline id) :=
  congrFun (congrArg View.relays h.view) r

theorem relay? (h : SameView id u v) (r : Nat) : u.relay? r = none ∧ v.relay? r = none ∨
    ∃ q p, u.relay? r = some q ∧ v.relay? r = some p ∧ q.outline id = p.outline id := by
  have ho := h.outline r
  cases hq : u.relay? r with
  | none =>
    rw [hq] at ho
    exact .inl ⟨rfl, Option.map_eq_none_iff.mp ho.symm⟩
  | some q =>
    rw [hq] at ho
    obtain ⟨p, hp, he⟩ := Option.map_eq_some_iff.mp ho.symm
    exact .inr ⟨q, p, rfl, hp, he.symm⟩

theorem active (h : SameView id u v) (r : Nat) : u.active r = v.active r := active_of_view h.view r

theorem closed (h : SameView id u v) (r : Nat) : u.closed r = v.closed r :=
  congrArg (Option.getD · false)
    (map_relay?_of_view h.view (g := Outline.closed) (fun _ => rfl) r)

theorem isActive (h : SameView id u v) (r : Nat) (i : SubscriberId) :
    u.isActive r i = v.isActive r i := by
  rw [World.isActive, World.isActive, locked?_eq, locked?_eq]
  exact congrArg (Option.getD · false)
    (map_relay?_of_view h.view (g := fun o => o.active.contains i) (fun _ => rfl) r)

theorem timeoutOf (h : SameView id u v) (r : Nat) : u.timeoutOf r = v.timeoutOf r :=
  congrArg (Option.getD · Duration.zero)
    (map_relay?_of_view h.view (g := fun o => o.config.deliveryTimeout) (fun _ => rfl) r)

theorem after (h : SameView id u v) (d : Duration) : u.after d = v.after d := by
  rw [World.after, World.after, h.now]

theorem deadlineFor (h : SameView id u v) (r : Nat) : u.deadlineFor r = v.deadlineFor r := by
  have hlimit : (u.relay? r).bind (·.config.deliveryLimit) =
      (v.relay? r).bind (·.config.deliveryLimit) := by
    rcases h.relay? r with ⟨hu, hv⟩ | ⟨q, p, hu, hv, he⟩
    · rw [hu, hv]
    · have hc : q.config = p.config := congrArg Outline.config he
      rw [hu, hv, Option.bind_some, Option.bind_some, hc]
  have hafter : u.after = v.after := funext h.after
  rw [World.deadlineFor, hlimit, hafter, World.deadlineFor]

theorem nameOf (h : SameView id u v) : u.nameOf id = v.nameOf id := by
  rw [World.nameOf, h.subscriber?, World.nameOf]

theorem refusal? (h : SameView id u v) : u.refusal? id = v.refusal? id := by
  rw [World.refusal?, h.subscriber?, World.refusal?]

theorem note (h : SameView id u v) (n : Note) : SameView id (u.note n) (v.note n) := by
  refine ⟨?_, h.now⟩
  rw [view_note, view_note, h.view, h.notesOf]

theorem trace (h : SameView id u v) (s t : Trace) : SameView id (u.trace s) (v.trace t) :=
  h.hide (view_trace ..) (view_trace ..) rfl rfl

theorem row (h : SameView id u v) (i : SubscriberId) (x : Row) :
    SameView id (u.row i x) (v.row i x) := by
  rw [World.row, World.row, h.now]
  exact h.note _

theorem modifySubscriber (h : SameView id u v) (i : SubscriberId) (f : Subscriber → Subscriber) :
    SameView id (u.modifySubscriber i f) (v.modifySubscriber i f) := by
  refine ⟨?_, h.now⟩
  rw [view_modifySubscriber, view_modifySubscriber, h.view, h.subscriber?]

theorem modifyRelay (h : SameView id u v) (r : Nat) {f : Relay → Relay} {g : Outline → Outline}
    (hf : ∀ q, (f q).outline id = g (q.outline id)) :
    SameView id (u.modifyRelay r f) (v.modifyRelay r f) := by
  refine ⟨?_, h.now⟩
  rw [view_modifyRelay u r hf, view_modifyRelay v r hf, h.view]

theorem emit (h : SameView id u v) (r : Nat) (d : Event.Draft) :
    SameView id (u.emit r d) (v.emit r d) := by
  refine ⟨?_, h.now⟩
  rw [view_emit, view_emit, h.view, h.now]

theorem emit_about (h : SameView id u v) (r : Nat) (i : SubscriberId) {d e : Event.Draft}
    (hd : ∀ time, (d.stamp 0 time).id = some i) (he : ∀ time, (e.stamp 0 time).id = some i)
    (hde : i = id → d = e) : SameView id (u.emit r d) (v.emit r e) := by
  by_cases hi : i = id
  · rw [hde hi]
    exact h.emit r e
  · refine h.hide (view_emit_of_ne ?_) (view_emit_of_ne ?_) rfl rfl
    · rw [hd]
      simpa using hi
    · rw [he]
      simpa using hi

theorem push (h : SameView id u v) {s t : Subscriber}
    (hst : id.serial = u.subscribers.size → s = t) :
    SameView id { u with subscribers := u.subscribers.push s }
      { v with subscribers := v.subscribers.push t } := by
  refine ⟨?_, h.now⟩
  rw [view_push, view_push, h.view, h.subscriber?, h.count]
  by_cases hi : id.serial = v.subscribers.size
  · rw [hst (hi.trans h.count.symm)]
  · rw [if_neg hi, if_neg hi]

theorem calls (h : SameView id u v) (cs ds : Array Call) :
    SameView id { u with calls := cs } { v with calls := ds } :=
  h.hide (view_calls ..) (view_calls ..) rfl rfl

theorem foldl {α : Type} {f : World → α → World} {p : α → Bool}
    (hs : ∀ w x, p x = false → (f w x).view id = w.view id) (hn : ∀ w x, (f w x).now = w.now)
    (hf : ∀ {u v} x, p x = true → SameView id u v → SameView id (f u x) (f v x)) {xs ys : List α}
    (hxy : xs.filter p = ys.filter p) (h : SameView id u v) :
    SameView id (xs.foldl f u) (ys.foldl f v) := by
  -- Both folds are compared with the one over the elements that make a difference.
  have hskip : ∀ (xs : List α) {u v : World}, SameView id u v →
      SameView id (xs.foldl f u) ((xs.filter p).foldl f v) := by
    intro xs
    induction xs with
    | nil => exact fun h => h
    | cons x xs ih =>
      intro u v h
      cases hx : p x with
      | true =>
        rw [List.filter_cons_of_pos hx]
        exact ih (hf x hx h)
      | false =>
        rw [List.filter_cons_of_neg (by simp [hx])]
        exact ih (h.hide (hs u x hx) rfl (hn u x) rfl)
  have hu := hskip xs h
  have hv := hskip ys (⟨rfl, rfl⟩ : SameView id v v)
  rw [hxy] at hu
  exact ⟨hu.view.trans hv.view.symm, hu.now.trans hv.now.symm⟩

theorem nameRelay (h : SameView id u v) (name : String) (r : Nat) :
    SameView id (u.nameRelay name r) (v.nameRelay name r) := by
  refine ⟨?_, h.now⟩
  rw [World.nameRelay, view_relayNames, h.view, h.relayNames]
  rfl

theorem forgetRelay (h : SameView id u v) (name : String) :
    SameView id (u.forgetRelay name) (v.forgetRelay name) := by
  refine ⟨?_, h.now⟩
  rw [World.forgetRelay, view_relayNames, h.view, h.relayNames]
  rfl

theorem pushRelay (h : SameView id u v) (q : Relay) :
    SameView id { u with relays := u.relays.push q } { v with relays := v.relays.push q } := by
  refine ⟨?_, h.now⟩
  rw [view_pushRelay, view_pushRelay, h.view, h.size]

theorem build (h : SameView id u v) (name : String) (config : Config) (observers : List Observer) :
    SameView id (u.build name config observers).1 (v.build name config observers).1 := by
  unfold World.build
  split
  · exact h
  · dsimp only
    rw [h.size]
    exact (h.pushRelay _).nameRelay name v.relays.size

theorem turnAway (h : SameView id u v) (r : Nat) (name title : String) {sink sink' : Sink}
    (hs : id.serial = u.subscribers.size → sink = sink') :
    SameView id (u.turnAway r name sink title) (v.turnAway r name sink' title) := by
  refine (h.push fun hi => ?_).trace _ _
  rw [hs hi]

theorem enroll (h : SameView id u v) (r : Nat) {s t : Subscriber}
    (hst : id.serial = u.subscribers.size → s = t) : SameView id (u.enroll r s) (v.enroll r t) := by
  have hpush := h.push hst
  have hactive := hpush.modifyRelay r
    (f := fun q => { q with active := q.active ++ [⟨u.subscribers.size⟩] })
    (g := fun o => { o with active := o.active ++ [⟨u.subscribers.size⟩] }) fun _ => rfl
  have htrace := hactive.trace (.registered s.name ⟨u.subscribers.size⟩)
    (.registered t.name ⟨u.subscribers.size⟩)
  have hemit := htrace.emit_about r ⟨u.subscribers.size⟩
    (d := .registered s.name ⟨u.subscribers.size⟩)
    (e := .registered t.name ⟨u.subscribers.size⟩) (fun _ => rfl) (fun _ => rfl)
    fun hi => by rw [hst (congrArg SubscriberId.serial hi).symm]
  unfold World.enroll
  rw [← h.count]
  exact hemit

theorem register (h : SameView id u v) (r : Nat) (name : String) {sink sink' : Sink}
    (hname : sink.name = sink'.name) (hcap : sink.capacity = sink'.capacity)
    (hs : id.serial = u.subscribers.size → sink = sink') :
    SameView id (u.register r name sink).1 (v.register r name sink').1 := by
  simp only [World.register, locked?_eq, hname]
  cases sink'.name with
  | panics => exact h
  | given title =>
    rcases h.relay? r with ⟨hu, hv⟩ | ⟨q, p, hu, hv, he⟩
    · simp only [hu, hv]
      exact h
    · have hc : q.closed = p.closed := congrArg Outline.closed he
      simp only [hu, hv, hc, hcap]
      split
      · exact h.turnAway r name title hs
      · cases queueCapacity? sink'.capacity with
        | error info => exact h.hide rfl rfl rfl rfl
        | ok capacity => exact h.enroll r fun hi => by rw [hs hi]

theorem withdraw (h : SameView id u v) (r : Nat) (i : SubscriberId) :
    SameView id (u.withdraw r i) (v.withdraw r i) := by
  have hactive := h.modifyRelay r (f := fun q => { q with active := q.active.erase i })
    (g := fun o => { o with active := o.active.erase i }) fun _ => rfl
  have htoken := hactive.modifySubscriber i fun s => { s with cancelled := true }
  have htrace := htoken.trace (.unregistered (u.nameOf i) i) (.unregistered (v.nameOf i) i)
  exact htrace.emit_about r i (fun _ => rfl) (fun _ => rfl) fun hi => by
    subst hi
    rw [h.nameOf]

theorem unregister (h : SameView id u v) (r : Nat) (i : SubscriberId) :
    SameView id (u.unregister r i).1 (v.unregister r i).1 := by
  rw [World.unregister, World.unregister, h.isActive]
  split
  · exact h.withdraw r i
  · exact h.trace _ _

theorem accept (h : SameView id u v) (m : Message) (i : SubscriberId) :
    SameView id (u.accept m i) (v.accept m i) :=
  (h.modifySubscriber i _).note _

theorem reportDrop (h : SameView id u v) (r : Nat) (d : SubscriberId × SinkFault) :
    SameView id (World.reportDrop r u d) (World.reportDrop r v d) := by
  have htrace := h.trace (.dropped (u.nameOf d.1) d.1 d.2) (.dropped (v.nameOf d.1) d.1 d.2)
  refine htrace.emit_about r d.1 (fun _ => id_fault ..) (fun _ => id_fault ..) fun hi => ?_
  have hname : u.nameOf d.1 = v.nameOf d.1 := by
    rw [hi]
    exact h.nameOf
  rw [hname]

theorem filter_takers (h : SameView id u v) (ids : List SubscriberId) :
    (u.takers ids).filter (· = id) = (v.takers ids).filter (· = id) := by
  rw [takers, takers, List.filter_filter, List.filter_filter]
  apply List.filter_congr
  intro i _
  by_cases hi : i = id
  · simp [hi, h.refusal?]
  · simp [hi]

theorem filter_drops (h : SameView id u v) (ids : List SubscriberId) :
    (u.drops ids).filter (·.1 = id) = (v.drops ids).filter (·.1 = id) := by
  rw [drops, drops, List.filter_filterMap, List.filter_filterMap]
  congr 1
  funext i
  by_cases hi : i = id
  · rw [hi, h.refusal?]
  · cases u.refusal? i <;> cases v.refusal? i <;> simp [Option.filter, hi]

theorem fanOut (h : SameView id u v) (r : Nat) (ids : List SubscriberId) (m : Message) :
    SameView id (u.fanOut r ids m) (v.fanOut r ids m) := by
  have htake := h.foldl (f := (World.accept · m)) (p := (· = id))
    (fun w i hi => view_accept_of_ne (by simpa using hi) m) (fun _ _ => rfl)
    (fun i _ h => h.accept m i) (h.filter_takers ids)
  have hdrop := htake.foldl (f := World.reportDrop r) (p := (·.1 = id))
    (fun w d hd => view_reportDrop_of_ne (by simpa using hd)) (fun _ _ => rfl)
    (fun d _ h => h.reportDrop r d) (h.filter_drops ids)
  exact hdrop.hide (view_emit_of_ne (fun he => by cases he))
    (view_emit_of_ne (fun he => by cases he)) rfl rfl

theorem publish (h : SameView id u v) (r : Nat) (m : Message) :
    SameView id (u.publish r m) (v.publish r m) := by
  simp only [World.publish, locked?_eq]
  rcases h.relay? r with ⟨hu, hv⟩ | ⟨q, p, hu, hv, he⟩
  · simp only [hu, hv]
    exact h
  · have hc : q.closed = p.closed := congrArg Outline.closed he
    have ha : q.active = p.active := congrArg Outline.active he
    simp only [hu, hv, hc, ha]
    split
    · exact h.trace _ _
    · split
      · exact (h.trace _ _).emit r _
      · exact h.fanOut r p.active m

theorem enqueues (h : SameView id u v) (r : Nat) : u.enqueues r id = v.enqueues r id := by
  rw [World.enqueues, h.closed, h.active, h.subscriber?, World.enqueues]

theorem close (h : SameView id u v) (r : Nat) {q p : Relay} (ha : q.active = p.active) :
    SameView id (u.close r q) (v.close r p) := by
  have hclosed := h.modifyRelay r (f := fun q => { q with closed := true, active := [] })
    (g := fun o => { o with closed := true, active := [] }) fun _ => rfl
  have hrequest := hclosed.emit r ⟨.shutdownRequested, []⟩
  rw [World.close, World.close, ha]
  refine hrequest.foldl (f := fun w i => w.emit r (.unregistered (w.nameOf i) i))
    (p := fun _ => true) (fun _ _ hx => by cases hx) (fun _ _ => rfl) (fun {u v} i _ h => ?_) rfl
  exact h.emit_about r i (fun _ => rfl) (fun _ => rfl) fun hi => by
    subst hi
    rw [h.nameOf]

theorem openCall (h : SameView id u v) (r : Nat) (owner : Option SubscriberId) :
    SameView id (u.openCall r owner) (v.openCall r owner) := by
  simp only [World.openCall, locked?_eq]
  rcases h.relay? r with ⟨hu, hv⟩ | ⟨q, p, hu, hv, he⟩
  · simp only [hu, hv]
    exact h
  · have hc : q.closed = p.closed := congrArg Outline.closed he
    have ha : q.active = p.active := congrArg Outline.active he
    simp only [hu, hv, hc]
    split
    · exact h.calls _ _
    · exact (h.close r ha).calls _ _

theorem parallel (id : SubscriberId) : Parallel id (SameView id) where
  now h := h.now
  name h := h.nameOf
  timeout r h := h.timeoutOf r
  subscriber f h := h.modifySubscriber id f
  row x h := h.row id x
  concluded how h := h.note (.concluded id how)
  trace t h := h.trace t t
  fault r name f h := h.emit r (.fault name id f)
  dropCall _ h := h.calls _ _

end SameView
end Fanout.World
