import Fanout.Proofs.Parallel

/-! # What operations are made of

All that a relay does is made of a few elementary changes, and the code of a delivery makes one call
of a relay after the other. What holds from before to after each of these, and adds up, holds from
before to after every operation of a relay, all code of a delivery, every step of a worker and every
step of a listener.
-/
namespace Fanout

/-- Notes with which no delivery begins and none ends. -/
def Note.isPlain : Note → Bool
  | .row _ _ x => x.isPlain
  | .concluded .. => false
  | .accepted .. | .traced _ | .made _ | .observed .. | .missed .. | .observerPanicked .. => true

namespace World

variable {R : World → World → Prop} {u v w : World}

/-- A relation between the worlds before and after that adds up, and that every elementary change
of a call keeps to. -/
structure ContainsEdits (R : World → World → Prop) : Prop where
  trans {u v w : World} : R u v → R v w → R u w
  same {w v : World} : v.relays = w.relays → v.journal = w.journal → v.now = w.now →
    v.nextSeq = w.nextSeq → R w v
  relay (w : World) (r : Nat) {f : Relay → Relay} :
    (∀ q, (f q).bus = q.bus ∧ (f q).listeners = q.listeners ∧ (f q).stopping = q.stopping) →
    R w (w.modifyRelay r f)
  trace (w : World) (t : Trace) : R w (w.trace t)
  accepted (w : World) (id : SubscriberId) (m : Message) : R w (w.note (.accepted id m))
  row (w : World) (id : SubscriberId) {x : Row} : x.isPlain = true → R w (w.row id x)
  emit (w : World) (r : Nat) (d : Event.Draft) : R w (w.emit r d)

namespace ContainsEdits

theorem refl (h : ContainsEdits R) (w : World) : R w w := h.same rfl rfl rfl rfl

theorem foldl (h : ContainsEdits R) {α : Type} {f : World → α → World}
    (hf : ∀ (w : World) x, R w (f w x)) (w : World) (xs : List α) : R w (xs.foldl f w) :=
  List.foldlRecOn xs f (motive := R w) (h.refl w) fun v hv x _ => h.trans hv (hf v x)

theorem modifySubscriber (h : ContainsEdits R) (w : World) (id : SubscriberId)
    (f : Subscriber → Subscriber) : R w (w.modifySubscriber id f) := h.same rfl rfl rfl rfl

theorem modifyCall (h : ContainsEdits R) (w : World) (c : Nat) (f : Call → Call) :
    R w (w.modifyCall c f) := h.same rfl rfl rfl rfl

theorem enroll (h : ContainsEdits R) (w : World) (r : Nat) (s : Subscriber) :
    R w (w.enroll r s) := by
  let u : World := { w with subscribers := w.subscribers.push s }
  have hpush : R w u := h.same rfl rfl rfl rfl
  have hactive := h.relay u r
    (f := fun q => { q with active := q.active ++ [⟨w.subscribers.size⟩] }) fun _ => ⟨rfl, rfl, rfl⟩
  exact h.trans (h.trans (h.trans hpush hactive) (h.trace ..)) (h.emit ..)

theorem turnAway (h : ContainsEdits R) (w : World) (r : Nat) (name : String) (sink : Sink)
    (title : String) : R w (w.turnAway r name sink title) := by
  have hpush : ∀ s, R w { w with subscribers := w.subscribers.push s } :=
    fun s => h.same rfl rfl rfl rfl
  exact h.trans (hpush _) (h.trace ..)

theorem register (h : ContainsEdits R) (w : World) (r : Nat) (name : String) (sink : Sink) :
    R w (w.register r name sink).1 := by
  have hstep := w.registerStep r name sink
  generalize (w.register r name sink).1 = v at hstep
  cases hstep with
  | panics => exact h.same rfl rfl rfl rfl
  | ignored => exact h.turnAway ..
  | enrolls => exact h.enroll ..

theorem withdraw (h : ContainsEdits R) (w : World) (r : Nat) (id : SubscriberId) :
    R w (w.withdraw r id) := by
  have hactive := h.relay w r (f := fun q => { q with active := q.active.erase id })
    fun _ => ⟨rfl, rfl, rfl⟩
  exact h.trans (h.trans (h.trans hactive (h.modifySubscriber ..)) (h.trace ..)) (h.emit ..)

theorem unregister (h : ContainsEdits R) (w : World) (r : Nat) (id : SubscriberId) :
    R w (w.unregister r id).1 := by
  rw [World.unregister]
  split
  · exact h.withdraw ..
  · exact h.trace ..

theorem fanOut (h : ContainsEdits R) (w : World) (r : Nat) (ids : List SubscriberId) (m : Message) :
    R w (w.fanOut r ids m) := by
  have haccept : ∀ (v : World) id, R v (v.accept m id) :=
    fun v id => h.trans (h.modifySubscriber v id _) (h.accepted _ id m)
  have hdrop : ∀ (v : World) d, R v (reportDrop r v d) :=
    fun v d => h.trans (h.trace v _) (h.emit ..)
  exact h.trans (h.trans (h.foldl haccept w _) (h.foldl hdrop _ _)) (h.emit ..)

theorem publish (h : ContainsEdits R) (w : World) (r : Nat) (m : Message) :
    R w (w.publish r m) := by
  have hstep := w.publishStep r m
  generalize w.publish r m = v at hstep
  cases hstep with
  | missing => exact h.refl w
  | ignored => exact h.trace ..
  | unheard => exact h.trans (h.trace ..) (h.emit ..)
  | fansOut => exact h.fanOut ..

theorem close (h : ContainsEdits R) (w : World) (r : Nat) (q : Relay) : R w (w.close r q) := by
  have hclosed := h.relay w r (f := fun q => { q with closed := true, active := [] })
    fun _ => ⟨rfl, rfl, rfl⟩
  exact h.trans (h.trans hclosed (h.emit ..)) (h.foldl (fun v id => h.emit ..) _ _)

theorem openCall (h : ContainsEdits R) (w : World) (r : Nat) (owner : Option SubscriberId) :
    R w (w.openCall r owner) := by
  have hstep := w.openCallStep r owner
  generalize w.openCall r owner = v at hstep
  cases hstep with
  | missing => exact h.refl w
  | late => exact h.same rfl rfl rfl rfl
  | closes => exact h.trans (h.close ..) (h.same rfl rfl rfl rfl)

theorem giveUp (h : ContainsEdits R) (w : World) (c : Nat) : R w (w.giveUp c) := by
  rw [World.giveUp]
  split
  · exact h.modifyCall ..
  · exact h.refl w

end ContainsEdits

/-- A relation between the worlds before and after that adds up, and that each call of a relay and
each row of a record keeps to. -/
structure ContainsCalls (R : World → World → Prop) : Prop where
  refl (w : World) : R w w
  trans {u v w : World} : R u v → R v w → R u w
  row (w : World) (id : SubscriberId) {x : Row} : x.isPlain = true → R w (w.row id x)
  handles (w : World) (handles : List (String × Handle)) : R w { w with handles := handles }
  register (w : World) (r : Nat) (name : String) (sink : Sink) : R w (w.register r name sink).1
  unregister (w : World) (r : Nat) (id : SubscriberId) : R w (w.unregister r id).1
  publish (w : World) (r : Nat) (m : Message) : R w (w.publish r m)
  openCall (w : World) (r : Nat) (owner : Option SubscriberId) : R w (w.openCall r owner)
  stepCall (w : World) (c : Nat) : R w (w.stepCall c)

/-- The steps of a call of shutdown are the only ones to say more than that. -/
theorem ContainsEdits.calls (h : ContainsEdits R) (hstep : ∀ w c, R w (w.stepCall c)) :
    ContainsCalls R where
  refl := h.refl
  trans := h.trans
  row := h.row
  handles _ _ := h.same rfl rfl rfl rfl
  register := h.register
  unregister := h.unregister
  publish := h.publish
  openCall := h.openCall
  stepCall := hstep

namespace ContainsCalls

theorem registerNamed (h : ContainsCalls R) (w : World) (r : Nat) (name : String) (sink : Sink) :
    R w (w.registerNamed r name sink).1 := by
  have hw := h.register w r name sink
  unfold World.registerNamed
  split <;> rename_i he <;> rw [he] at hw
  · exact hw
  · exact h.trans hw (h.handles ..)

theorem remove (h : ContainsCalls R) (w : World) (k : Handle) : R w (w.remove k).1 := by
  unfold World.remove
  split
  · split
    · exact h.unregister ..
    · exact h.refl w
  · exact h.refl w

theorem driveCall (h : ContainsCalls R) (w : World) (c : Nat) : R w (w.driveCall c) :=
  h.trans (h.stepCall w c) (h.stepCall ..)

theorem beginShutdown (h : ContainsCalls R) (w : World) (r : Nat) (owner : Option SubscriberId) :
    R w (w.beginShutdown r owner).1 :=
  h.trans (h.openCall w r owner) (h.driveCall ..)

theorem withHandle (h : ContainsCalls R) (w : World) (name : String) (f : Handle → World × Reply)
    (hf : ∀ k, R w (f k).1) : R w (w.withHandle name f).1 := by
  unfold World.withHandle
  split
  · exact hf _
  · exact h.refl w

theorem callHome (h : ContainsCalls R) (w : World) (id : SubscriberId) (action : String)
    (f : Nat → World × Reply) (hf : ∀ r, R w (f r).1) : R w (w.callHome id action f).1 := by
  unfold World.callHome
  cases w.home? id with
  | none => exact h.row w id rfl
  | some p => exact h.trans (hf p.1) (h.row _ id rfl)

theorem act (h : ContainsCalls R) (w : World) (id : SubscriberId) (a : Action) :
    R w (w.act id a).1 := by
  cases a with
  | ok | fail | closed => exact h.row w id rfl
  | panic | panicAtStart | hang | yield | sleep => exact h.refl w
  | publish m => exact h.callHome w id _ _ fun r => h.publish w r m
  | unregister k =>
    exact h.callHome w id _ _ fun r => h.withHandle w k _ fun j => h.unregister w r j.id
  | remove k => exact h.trans (h.withHandle w k _ fun j => h.remove w j) (h.row _ id rfl)
  | isActive k => exact h.callHome w id _ _ fun r => h.withHandle w k _ fun j => h.refl w
  | count => exact h.callHome w id _ _ fun r => h.refl w
  | register sink =>
    rw [World.act]
    split
    · exact h.row w id rfl
    · rename_i r name hr
      have hw := h.registerNamed w r name sink
      split <;> rename_i he <;> rw [he] at hw
      · exact hw
      · exact h.trans hw (h.row _ id rfl)
  | shutdown =>
    rw [World.act]
    split
    · exact h.row w id rfl
    · rename_i r name hr
      have hw := h.beginShutdown w r (some id)
      dsimp only
      split
      · exact h.trans hw (h.row _ id rfl)
      · exact hw

theorem actAll (h : ContainsCalls R) (w : World) (id : SubscriberId) (as : List Action) :
    R w (w.actAll id as).1 := by
  induction as generalizing w with
  | nil => exact h.row w id rfl
  | cons a as ih =>
    have ha := h.act w id a
    rw [World.actAll]
    split <;> rename_i he <;> rw [he] at ha
    · exact h.trans ha (ih _)
    · exact ha
    · exact ha

theorem poll (h : ContainsCalls R) (w : World) (id : SubscriberId) (d : Delivery) :
    R w (w.poll id d).1 := by
  unfold World.poll
  split
  · exact h.actAll ..
  · split
    · exact h.actAll ..
    · exact h.refl w
  · exact h.refl w
  · dsimp only
    split
    · exact h.trans (h.trans (h.driveCall ..) (h.row _ id rfl)) (h.actAll ..)
    · exact h.driveCall ..

theorem imp {R' : World → World → Prop} (h : ContainsCalls R) (hrefl : ∀ w, R' w w)
    (htrans : ∀ {u v w}, R' u v → R' v w → R' u w) (himp : ∀ {w v}, R w v → R' w v) :
    ContainsCalls R' where
  refl := hrefl
  trans := htrans
  row w id _ hx := himp (h.row w id hx)
  handles w handles := himp (h.handles w handles)
  register w r name sink := himp (h.register w r name sink)
  unregister w r id := himp (h.unregister w r id)
  publish w r m := himp (h.publish w r m)
  openCall w r owner := himp (h.openCall w r owner)
  stepCall w c := himp (h.stepCall w c)

end ContainsCalls

/-- Such a relation that also keeps to whatever is recorded of deliveries. -/
structure ContainsRecords (R : World → World → Prop) : Prop extends ContainsEdits R where
  anyRow (w : World) (id : SubscriberId) (x : Row) : R w (w.row id x)
  concluded (w : World) (id : SubscriberId) (how : Conclusion) : R w (w.note (.concluded id how))

theorem ContainsRecords.deliveries (h : ContainsRecords R) (id : SubscriberId) :
    ContainsDeliveries id R where
  refl := h.refl
  trans := h.trans
  subscriber w f := h.modifySubscriber w id f
  row w x := h.anyRow w id x
  concluded w how := h.concluded w id how
  trace := h.trace
  fault w r _ _ := h.emit w r _
  dropCall w c := h.modifyCall w c _

/-- A step of a worker, if all code of its deliveries keeps to the relation too. -/
theorem ContainsDeliveries.stepWorker {id : SubscriberId} (h : ContainsDeliveries id R)
    (hcode : ContainsCalls R) (w : World) : R w (w.stepWorker id) := by
  -- The world goes along with itself, so its code always finds the same.
  refine ((h.parallel w).stepWorker ⟨rfl, h.refl w⟩ rfl rfl ?_ ?_).2
  · intro s m queue _ _ _ _
    have htake := h.take w m queue
    have hdone := h.trans htake (hcode.actAll (w.take id m queue) id (s.sink.actions s.begun))
    exact (h.parallel w).begin rfl (Parallel.start ⟨rfl, htake⟩ _ ⟨⟨rfl, hdone⟩, rfl⟩)
  · intro s d _ _ _
    exact (h.parallel w).proceed ⟨⟨rfl, hcode.poll w id d⟩, rfl⟩

/-- A relation that adds up, and that a change of listener `i` of relay `r` and each note that it
makes keeps to. -/
structure ContainsListening (r i : Nat) (R : World → World → Prop) : Prop where
  refl (w : World) : R w w
  trans {u v w : World} : R u v → R v w → R u w
  listener (w : World) (f : Listener → Listener) : R w (w.modifyListener r i f)
  observed (w : World) (e : Event) : R w (w.note (.observed r i e))
  missed (w : World) (count : Nat) : R w (w.note (.missed r i count))
  panicked (w : World) (p : Panic) : R w (w.note (.observerPanicked r i p))

namespace ContainsListening

variable {r i : Nat}

theorem finishCall (h : ContainsListening r i R) (w : World) (name : Naming) (p : Option Panic) :
    R w (w.finishCall r i name p) := by
  unfold World.finishCall
  split
  · exact h.listener ..
  · exact h.trans (h.listener ..) (h.panicked ..)
  · exact h.listener ..

theorem callObserver (h : ContainsListening r i R) (w : World) (o : Observer) (e : Event) :
    R w (w.callObserver r i o e) := by
  have hcalled := h.observed w e
  rw [World.callObserver]
  split
  · exact h.trans hcalled (h.listener ..)
  · split
    · exact h.trans hcalled (h.finishCall ..)
    · exact h.trans hcalled (h.listener ..)

theorem skipTo (h : ContainsListening r i R) (w : World) (l : Listener) (count next : Nat) :
    R w (w.skipTo r i l count next) := by
  rw [World.skipTo]
  split
  · exact h.listener ..
  · split
    · exact h.trans (h.listener ..) (h.missed ..)
    · exact h.listener ..

theorem stepListener (h : ContainsListening r i R) (w : World) : R w (w.stepListener r i) := by
  rw [World.stepListener]
  split
  · split
    · exact h.refl w
    · exact h.refl w
    · split
      · exact h.finishCall ..
      · exact h.refl w
    · split
      · exact h.trans (h.listener ..) (h.callObserver ..)
      · exact h.skipTo ..
      · split
        · exact h.listener ..
        · split
          · exact h.listener ..
          · exact h.refl w
  · exact h.refl w

end ContainsListening

/-- From one world to another no time passes, no delivery begins and none is concluded. -/
structure Plain (w v : World) : Prop where
  clock : v.now = w.now
  journal : ∃ ns, v.journal.toList = w.journal.toList ++ ns ∧ ∀ n ∈ ns, n.isPlain = true

namespace Plain

theorem of_journal (hn : v.now = w.now) (hj : v.journal = w.journal) : w.Plain v :=
  ⟨hn, [], by simp [hj], by simp⟩

theorem refl (w : World) : w.Plain w := of_journal rfl rfl

theorem trans (hu : u.Plain v) (hv : v.Plain w) : u.Plain w := by
  obtain ⟨ns, hns, hs⟩ := hu.journal
  obtain ⟨ms, hms, ht⟩ := hv.journal
  refine ⟨hv.clock.trans hu.clock, ns ++ ms, ?_, fun n hn => ?_⟩
  · rw [hms, hns, List.append_assoc]
  · exact (List.mem_append.mp hn).elim (hs n) (ht n)

theorem note (w : World) {n : Note} (hn : n.isPlain = true) : w.Plain (w.note n) :=
  ⟨rfl, [n], by simp [World.note], by simpa using hn⟩

theorem filterMap_eq {β : Type} {f : Note → Option β} (h : w.Plain v)
    (hf : ∀ n, n.isPlain = true → f n = none) :
    v.journal.toList.filterMap f = w.journal.toList.filterMap f := by
  obtain ⟨ns, hns, hp⟩ := h.journal
  have hnil : ns.filterMap f = [] := List.filterMap_eq_nil_iff.mpr fun n hn => hf n (hp n hn)
  rw [hns, List.filterMap_append, hnil, List.append_nil]

theorem conclusions (h : w.Plain v) (id : SubscriberId) : v.conclusions id = w.conclusions id := by
  refine h.filterMap_eq fun n hn => ?_
  cases n with
  | concluded => cases hn
  | accepted | row | traced | made | observed | missed | observerPanicked => rfl

end Plain

theorem plain_trace (w : World) (t : Trace) : w.Plain (w.trace t) := .note w rfl

theorem plain_row (w : World) (id : SubscriberId) {x : Row} (hx : x.isPlain = true) :
    w.Plain (w.row id x) := .note w hx

theorem Plain.edits : ContainsEdits Plain where
  trans := .trans
  same _ hj hn _ := .of_journal hn hj
  relay _ _ _ _ := .of_journal rfl rfl
  trace := plain_trace
  accepted w _ _ := .note w rfl
  row w id _ hx := plain_row w id hx
  emit _ _ _ := .of_journal rfl rfl

theorem plain_stepCall (w : World) (c : Nat) : w.Plain (w.stepCall c) := by
  have hstep := w.callStep c
  generalize w.stepCall c = v at hstep
  cases hstep with
  | stays => exact .refl w
  | drained | stopped | expired | returns => exact .of_journal rfl rfl

theorem Plain.calls : ContainsCalls Plain := Plain.edits.calls plain_stepCall

end World
end Fanout
