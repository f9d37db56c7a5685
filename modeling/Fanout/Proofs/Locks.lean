import Fanout.Proofs.Detachment
import Fanout.Proofs.Parallel

/-! # Locks that a panic has gone through

A call that panics while it holds the lock of a relay leaves the lock poisoned. Everybody takes it
all the same, so two worlds that differ in their poisoned locks only allow the same moves, answer
them alike and go on to worlds that again differ in nothing else.
-/
namespace Fanout.World

variable {u v w : World} {rs : List Nat} {r i c : Nat} {id : SubscriberId}

def withPoisoned (w : World) (rs : List Nat) : World := { w with poisoned := rs }

theorem isActive_withPoisoned (w : World) (rs : List Nat) (r : Nat) (id : SubscriberId) :
    (w.withPoisoned rs).isActive r id = w.isActive r id := by
  rw [isActive, isActive, locked?_eq, locked?_eq]
  rfl

theorem countOf_withPoisoned (w : World) (rs : List Nat) (r : Nat) :
    (w.withPoisoned rs).countOf r = w.countOf r := by
  rw [countOf, countOf, locked?_eq, locked?_eq]
  rfl

theorem isFed_withPoisoned (w : World) (rs : List Nat) (id : SubscriberId) :
    (w.withPoisoned rs).isFed id = w.isFed id := by
  have hactive : (w.withPoisoned rs).isActive = w.isActive := by
    funext r id
    exact isActive_withPoisoned ..
  unfold isFed
  rw [hactive]
  rfl

theorem workerReady_withPoisoned (w : World) (rs : List Nat) (id : SubscriberId) :
    (w.withPoisoned rs).workerReady id = w.workerReady id := by
  unfold workerReady
  rw [isFed_withPoisoned]
  rfl

theorem ready_withPoisoned (w : World) (rs : List Nat) (t : Task) :
    (w.withPoisoned rs).ready t = w.ready t := by
  cases t with
  | call c => rfl
  | listener r i => rfl
  | worker id => exact workerReady_withPoisoned ..

theorem quiet_withPoisoned (w : World) (rs : List Nat) : (w.withPoisoned rs).quiet = w.quiet := by
  have hready : (w.withPoisoned rs).ready = w.ready := funext fun t => ready_withPoisoned ..
  unfold quiet
  rw [hready]
  rfl

theorem allows_withPoisoned (w : World) (rs : List Nat) (m : Move) :
    (w.withPoisoned rs).Allows m ↔ w.Allows m := by
  cases m with
  | step t =>
    have hready : (w.withPoisoned rs).ready t = w.ready t := ready_withPoisoned ..
    exact Bool.eq_iff_iff.mp hready
  | build | nameRelay | forgetRelay | register | unregister | remove | forgetHandle | publish
  | beginShutdown | giveUp | make | pass => exact .rfl

theorem onTime_withPoisoned (w : World) (rs : List Nat) (m : Move) :
    (w.withPoisoned rs).OnTime m ↔ w.OnTime m := by
  cases m with
  | pass time =>
    have hquiet : (w.withPoisoned rs).quiet = w.quiet := quiet_withPoisoned ..
    exact and_congr_left' (Bool.eq_iff_iff.mp hquiet)
  | _ => exact .rfl

theorem foldl_withPoisoned {α : Type} {f : World → α → World}
    (hf : ∀ w rs x, f (w.withPoisoned rs) x = (f w x).withPoisoned rs) (xs : List α) (w : World)
    (rs : List Nat) : xs.foldl f (w.withPoisoned rs) = (xs.foldl f w).withPoisoned rs := by
  induction xs generalizing w with
  | nil => rfl
  | cons x xs ih => rw [List.foldl_cons, List.foldl_cons, hf, ih]

theorem fanOut_withPoisoned (w : World) (rs : List Nat) (r : Nat) (ids : List SubscriberId)
    (m : Message) : (w.withPoisoned rs).fanOut r ids m = (w.fanOut r ids m).withPoisoned rs := by
  have htake := foldl_withPoisoned (f := (accept · m)) (fun _ _ _ => rfl) (w.takers ids) w rs
  have hdrop := foldl_withPoisoned (f := reportDrop r) (fun _ _ _ => rfl) (w.drops ids)
    ((w.takers ids).foldl (accept · m) w) rs
  rw [← htake] at hdrop
  exact congrArg (emit · r (.published (ids.length - (w.drops ids).length))) hdrop

theorem publish_withPoisoned (w : World) (rs : List Nat) (r : Nat) (m : Message) :
    (w.withPoisoned rs).publish r m = (w.publish r m).withPoisoned rs := by
  have hrelay : (w.withPoisoned rs).relay? r = w.relay? r := rfl
  simp only [publish, locked?_eq, hrelay]
  cases w.relay? r with
  | none => rfl
  | some q =>
    dsimp only
    split
    · rfl
    · split
      · rfl
      · exact fanOut_withPoisoned ..

theorem close_withPoisoned (w : World) (rs : List Nat) (r : Nat) (q : Relay) :
    (w.withPoisoned rs).close r q = (w.close r q).withPoisoned rs :=
  foldl_withPoisoned (f := fun w id => w.emit r (.unregistered (w.nameOf id) id)) (fun _ _ _ => rfl)
    q.active ((w.modifyRelay r fun q => { q with closed := true, active := [] }).emit r
      ⟨.shutdownRequested, []⟩) rs

theorem openCall_withPoisoned (w : World) (rs : List Nat) (r : Nat) (owner : Option SubscriberId) :
    (w.withPoisoned rs).openCall r owner = (w.openCall r owner).withPoisoned rs := by
  have hrelay : (w.withPoisoned rs).relay? r = w.relay? r := rfl
  simp only [openCall, locked?_eq, hrelay]
  cases w.relay? r with
  | none => rfl
  | some q =>
    dsimp only
    split
    · rfl
    · rw [close_withPoisoned]
      rfl

theorem stepCall_withPoisoned (w : World) (rs : List Nat) (c : Nat) :
    (w.withPoisoned rs).stepCall c = (w.stepCall c).withPoisoned rs := by
  have hcall : (w.withPoisoned rs).call? c = w.call? c := rfl
  simp only [stepCall, hcall]
  cases w.call? c with
  | none => rfl
  | some k =>
    dsimp only
    split
    · have hlive : (w.withPoisoned rs).liveWorkers k.relay = w.liveWorkers k.relay := rfl
      have hnow : (w.withPoisoned rs).now = w.now := rfl
      rw [hlive, hnow]
      split
      · rfl
      · split <;> rfl
    · have hlive : (w.withPoisoned rs).liveWorkers k.relay = w.liveWorkers k.relay := rfl
      rw [hlive]
      split <;> rfl
    · have hstopped : (w.withPoisoned rs).listenersStopped k.relay = w.listenersStopped k.relay :=
        rfl
      rw [hstopped]
      split <;> rfl
    · rfl
    · rfl

theorem giveUp_withPoisoned (w : World) (rs : List Nat) (c : Nat) :
    (w.withPoisoned rs).giveUp c = (w.giveUp c).withPoisoned rs := by
  have hhosted : (w.withPoisoned rs).isHosted c = w.isHosted c := rfl
  rw [giveUp, hhosted, giveUp]
  split <;> rfl

theorem finishCall_withPoisoned (w : World) (rs : List Nat) (r i : Nat) (name : Naming)
    (p : Option Panic) :
    (w.withPoisoned rs).finishCall r i name p = (w.finishCall r i name p).withPoisoned rs := by
  unfold finishCall
  split <;> rfl

theorem callObserver_withPoisoned (w : World) (rs : List Nat) (r i : Nat) (o : Observer)
    (e : Event) :
    (w.withPoisoned rs).callObserver r i o e = (w.callObserver r i o e).withPoisoned rs := by
  unfold callObserver
  dsimp only
  split
  · rfl
  · split
    · exact finishCall_withPoisoned (w.note (.observed r i e)) rs r i o.name (o.panic e)
    · rfl

theorem skipTo_withPoisoned (w : World) (rs : List Nat) (r i : Nat) (l : Listener)
    (count next : Nat) :
    (w.withPoisoned rs).skipTo r i l count next = (w.skipTo r i l count next).withPoisoned rs := by
  unfold skipTo
  dsimp only
  split
  · rfl
  · split <;> rfl

theorem stepListener_withPoisoned (w : World) (rs : List Nat) (r i : Nat) :
    (w.withPoisoned rs).stepListener r i = (w.stepListener r i).withPoisoned rs := by
  have hrelay : (w.withPoisoned rs).relay? r = w.relay? r := rfl
  have hlistener : (w.withPoisoned rs).listener? r i = w.listener? r i := rfl
  have hnow : (w.withPoisoned rs).now = w.now := rfl
  have hclosed : (w.withPoisoned rs).busClosed r = w.busClosed r := rfl
  simp only [stepListener, hrelay, hlistener, hnow, hclosed]
  split
  · split
    · rfl
    · rfl
    · split
      · exact finishCall_withPoisoned ..
      · rfl
    · split
      · exact callObserver_withPoisoned (w.modifyListener r i fun l => { l with next := _ }) rs ..
      · exact skipTo_withPoisoned ..
      · split
        · rfl
        · split <;> rfl
  · rfl

/-- The worlds differ in nothing but their poisoned locks. -/
def Like (u v : World) : Prop := ∃ rs, v = u.withPoisoned rs

namespace Like

theorem same {α : Type} {f : World → α} (hf : ∀ w rs, f (w.withPoisoned rs) = f w) (h : u.Like v) :
    f u = f v := by
  obtain ⟨rs, rfl⟩ := h
  exact (hf u rs).symm

theorem commute {f : World → World} (hf : ∀ w rs, f (w.withPoisoned rs) = (f w).withPoisoned rs)
    (h : u.Like v) : (f u).Like (f v) := by
  obtain ⟨rs, rfl⟩ := h
  exact ⟨rs, hf u rs⟩

theorem row (h : u.Like v) (id : SubscriberId) (x : Row) : (u.row id x).Like (v.row id x) :=
  h.commute (f := fun w => w.row id x) fun _ _ => rfl

theorem publish (h : u.Like v) (r : Nat) (m : Message) : (u.publish r m).Like (v.publish r m) :=
  h.commute (f := fun w => w.publish r m) fun w rs => publish_withPoisoned w rs r m

theorem stepCall (h : u.Like v) (c : Nat) : (u.stepCall c).Like (v.stepCall c) :=
  h.commute (f := fun w => w.stepCall c) fun w rs => stepCall_withPoisoned w rs c

theorem driveCall (h : u.Like v) (c : Nat) : (u.driveCall c).Like (v.driveCall c) :=
  (h.stepCall c).stepCall c

theorem beginShutdown (h : u.Like v) (r : Nat) (owner : Option SubscriberId) :
    Both Like (u.beginShutdown r owner) (v.beginShutdown r owner) := by
  have hopen : (u.openCall r owner).Like (v.openCall r owner) :=
    h.commute (f := fun w => w.openCall r owner) fun w rs => openCall_withPoisoned w rs r owner
  have hsize : u.calls.size = v.calls.size := h.same (f := (·.calls.size)) fun _ _ => rfl
  rw [World.beginShutdown, World.beginShutdown, hsize]
  exact ⟨hopen.driveCall _, rfl⟩

theorem build (h : u.Like v) (name : String) (config : Config) (observers : List Observer) :
    Both Like (u.build name config observers) (v.build name config observers) := by
  obtain ⟨rs, rfl⟩ := h
  unfold World.build
  split
  · exact ⟨⟨rs, rfl⟩, rfl⟩
  · exact ⟨⟨rs, rfl⟩, rfl⟩

theorem register (h : u.Like v) (r : Nat) (name : String) (sink : Sink) :
    Both Like (u.register r name sink) (v.register r name sink) := by
  obtain ⟨rs, rfl⟩ := h
  have hrelay : (u.withPoisoned rs).relay? r = u.relay? r := rfl
  simp only [World.register, locked?_eq, hrelay]
  cases sink.name with
  | panics => exact ⟨⟨rs, rfl⟩, rfl⟩
  | given title =>
    cases u.relay? r with
    | none => exact ⟨⟨rs, rfl⟩, rfl⟩
    | some q =>
      dsimp only
      split
      · exact ⟨⟨rs, rfl⟩, rfl⟩
      · cases queueCapacity? sink.capacity with
        | error info => exact ⟨⟨r :: rs, rfl⟩, rfl⟩
        | ok capacity => exact ⟨⟨rs, rfl⟩, rfl⟩

theorem registerNamed (h : u.Like v) (r : Nat) (name : String) (sink : Sink) :
    Both Like (u.registerNamed r name sink) (v.registerNamed r name sink) := by
  obtain ⟨hworlds, hanswer⟩ := h.register r name sink
  unfold World.registerNamed
  cases hu : u.register r name sink with
  | mk u' x =>
    cases hv : v.register r name sink with
    | mk v' y =>
      rw [hu, hv] at hworlds hanswer
      obtain ⟨rs, rfl⟩ := hworlds
      obtain rfl := hanswer
      cases x with
      | error info => exact ⟨⟨rs, rfl⟩, rfl⟩
      | ok k =>
        refine ⟨⟨rs, rfl⟩, ?_⟩
        dsimp only
        rw [isActive_withPoisoned]

theorem unregister (h : u.Like v) (r : Nat) (id : SubscriberId) :
    Both Like (u.unregister r id) (v.unregister r id) := by
  obtain ⟨rs, rfl⟩ := h
  rw [World.unregister, World.unregister, isActive_withPoisoned]
  split
  · exact ⟨⟨rs, rfl⟩, rfl⟩
  · exact ⟨⟨rs, rfl⟩, rfl⟩

theorem remove (h : u.Like v) (k : Handle) : Both Like (u.remove k) (v.remove k) := by
  unfold World.remove
  cases k.relay with
  | none => exact ⟨h, rfl⟩
  | some r =>
    have hexists : u.relayExists r = v.relayExists r :=
      h.same (f := (World.relayExists · r)) fun _ _ => rfl
    dsimp only
    rw [hexists]
    split
    · exact h.unregister r k.id
    · exact ⟨h, rfl⟩

theorem parallel (id : SubscriberId) : Parallel id Like where
  now h := h.same (f := World.now) fun _ _ => rfl
  name h := h.same (f := (nameOf · id)) fun _ _ => rfl
  timeout r h := h.same (f := (timeoutOf · r)) fun _ _ => rfl
  subscriber f h := h.commute (f := (modifySubscriber · id f)) fun _ _ => rfl
  row x h := h.commute (f := (World.row · id x)) fun _ _ => rfl
  concluded how h := h.commute (f := (note · (.concluded id how))) fun _ _ => rfl
  trace t h := h.commute (f := (World.trace · t)) fun _ _ => rfl
  fault r name f h := h.commute (f := (emit · r (.fault name id f))) fun _ _ => rfl
  dropCall c h := h.commute (f := (World.dropCall · c)) fun _ _ => rfl

theorem sameAnswers (h : u.Like v) (id : SubscriberId) : SameAnswers id Like u v where
  home := h.same (f := (home? · id)) fun _ _ => rfl
  handle name := h.same (f := (handleNamed? · name)) fun _ _ => rfl
  active r i := h.same (f := (World.isActive · r i)) fun w rs => isActive_withPoisoned w rs r i
  count r := h.same (f := (World.countOf · r)) fun w rs => countOf_withPoisoned w rs r
  publish := h.publish
  register := h.registerNamed
  unregister := h.unregister
  remove := h.remove

theorem act (h : u.Like v) (id : SubscriberId) (a : Action) :
    Both Like (u.act id a) (v.act id a) := by
  by_cases ha : a = .shutdown
  · subst ha
    have hhome : u.home? id = v.home? id := (h.sameAnswers id).home
    unfold World.act
    rw [hhome]
    cases v.home? id with
    | none => exact ⟨h.row id _, rfl⟩
    | some p =>
      obtain ⟨hworlds, hanswer⟩ := h.beginShutdown p.1 (some id)
      dsimp only
      generalize u.beginShutdown p.1 (some id) = x at hworlds hanswer
      generalize v.beginShutdown p.1 (some id) = y at hworlds hanswer
      obtain ⟨u', c⟩ := x
      obtain ⟨v', c'⟩ := y
      obtain rfl : c = c' := hanswer
      have hresult : u'.result? c = v'.result? c :=
        hworlds.same (f := (World.result? · c)) fun _ _ => rfl
      dsimp only
      rw [hresult]
      cases v'.result? c with
      | none => exact ⟨hworlds, rfl⟩
      | some result => exact ⟨hworlds.row id _, rfl⟩
  · exact (parallel id).act h (h.sameAnswers id) ha

theorem actAll (h : u.Like v) (id : SubscriberId) (as : List Action) :
    Both Like (u.actAll id as) (v.actAll id as) :=
  (parallel id).actAll (Q := fun _ _ _ => True) (fun h _ => ⟨h.act id _, fun _ _ => trivial⟩) h
    trivial

theorem poll (h : u.Like v) (id : SubscriberId) (d : Delivery) :
    Both Like (u.poll id d) (v.poll id d) := by
  cases hd : d.wait with
  | call c =>
    have hdrive := h.driveCall c
    have hresult : (u.driveCall c).result? c = (v.driveCall c).result? c :=
      hdrive.same (f := (World.result? · c)) fun _ _ => rfl
    simp only [World.poll, hd, hresult]
    split
    · exact (hdrive.row id _).actAll id d.rest
    · exact ⟨hdrive, rfl⟩
  | turn | «until» | forever =>
    exact (parallel id).poll h (by rw [hd]; rfl) fun _ => h.actAll id d.rest

theorem stepWorker (h : u.Like v) (id : SubscriberId) :
    (u.stepWorker id).Like (v.stepWorker id) := by
  refine (parallel id).stepWorker h (h.same (f := (subscriber? · id)) fun _ _ => rfl)
    (h.same (f := (World.isFed · id)) fun w rs => isFed_withPoisoned w rs id) ?_ ?_
  · intro s m queue _ _ _ _
    refine (parallel id).begin (h.same (f := (deadlineFor · s.relay)) fun _ _ => rfl) ?_
    have htake := (parallel id).take m queue h
    exact Parallel.start htake _ (htake.actAll id _)
  · intro s d _ _ _
    exact (parallel id).proceed (h.poll id d)

theorem move (h : u.Like v) (m : Move) :
    Both Like (u.move m, u.reply m) (v.move m, v.reply m) := by
  cases m with
  | build name config observers => exact h.build name config observers
  | nameRelay name r =>
    exact ⟨h.commute (f := fun w => w.nameRelay name r) fun _ _ => rfl, rfl⟩
  | forgetRelay name =>
    exact ⟨h.commute (f := fun w => w.forgetRelay name) fun _ _ => rfl, rfl⟩
  | register r name sink => exact h.registerNamed r name sink
  | unregister r id =>
    obtain ⟨hworlds, hanswer⟩ := h.unregister r id
    exact ⟨hworlds, congrArg Reply.flag hanswer⟩
  | remove k =>
    obtain ⟨hworlds, hanswer⟩ := h.remove k
    exact ⟨hworlds, congrArg Reply.flag hanswer⟩
  | forgetHandle name =>
    exact ⟨h.commute (f := fun w => w.forgetHandle name) fun _ _ => rfl, rfl⟩
  | publish r m => exact ⟨h.publish r m, rfl⟩
  | beginShutdown r => exact ⟨(h.beginShutdown r none).worlds, rfl⟩
  | giveUp c => exact ⟨h.commute (f := (giveUp · c)) fun w rs => giveUp_withPoisoned w rs c, rfl⟩
  | make d =>
    obtain ⟨rs, rfl⟩ := h
    exact ⟨⟨rs, rfl⟩, rfl⟩
  | pass time => exact ⟨h.commute (f := (jump · time)) fun _ _ => rfl, rfl⟩
  | step t =>
    cases t with
    | call c => exact ⟨h.stepCall c, rfl⟩
    | listener r i =>
      exact ⟨h.commute (f := fun w => w.stepListener r i)
        fun w rs => stepListener_withPoisoned w rs r i,
        rfl⟩
    | worker id => exact ⟨h.stepWorker id, rfl⟩

theorem play (h : u.Like v) (ms : List Move) : (u.play ms).Like (v.play ms) := by
  induction ms generalizing u v with
  | nil => exact h
  | cons m ms ih => exact ih (h.move m).worlds

end Like

def answers (w : World) (ms : List Move) : List Reply := w.gather (fun w m => some (w.reply m)) ms

/-- Worlds that nothing done from now on tells apart: the same moves are possible and on time, the
replies are the same, and so are the relays with their active subscribers, flags, buses and
listeners, the subscribers with their queues, tokens and workers, the calls of shutdown with their
results and counts, and all that was delivered, published or told to observers. -/
structure Indistinct (u v : World) : Prop where
  permits : ∀ ms, u.Permits ms ↔ v.Permits ms
  onTime : ∀ ms m, (u.play ms).OnTime m ↔ (v.play ms).OnTime m
  answers : ∀ ms, u.answers ms = v.answers ms
  relays : ∀ ms, (u.play ms).relays = (v.play ms).relays
  subscribers : ∀ ms, (u.play ms).subscribers = (v.play ms).subscribers
  calls : ∀ ms, (u.play ms).calls = (v.play ms).calls
  journal : ∀ ms, (u.play ms).journal = (v.play ms).journal
  now : ∀ ms, (u.play ms).now = (v.play ms).now
  nextSeq : ∀ ms, (u.play ms).nextSeq = (v.play ms).nextSeq

namespace Like

theorem permits (h : u.Like v) (ms : List Move) : u.Permits ms ↔ v.Permits ms := by
  induction ms generalizing u v with
  | nil => exact .rfl
  | cons m ms ih =>
    have hallows : u.Allows m ↔ v.Allows m := by
      obtain ⟨rs, rfl⟩ := h
      exact (allows_withPoisoned u rs m).symm
    exact and_congr hallows (ih (h.move m).worlds)

theorem answers (h : u.Like v) (ms : List Move) : u.answers ms = v.answers ms := by
  induction ms generalizing u v with
  | nil => rfl
  | cons m ms ih =>
    obtain ⟨hworlds, hanswer⟩ := h.move m
    rw [World.answers, World.answers, gather_cons_some ms rfl, gather_cons_some ms rfl]
    exact congrArg₂ List.cons hanswer (ih hworlds)

theorem indistinct (h : u.Like v) : u.Indistinct v where
  permits := h.permits
  onTime ms m := by
    obtain ⟨rs, hv⟩ := h.play ms
    rw [hv]
    exact (onTime_withPoisoned ..).symm
  answers := h.answers
  relays ms := (h.play ms).same (f := World.relays) fun _ _ => rfl
  subscribers ms := (h.play ms).same (f := World.subscribers) fun _ _ => rfl
  calls ms := (h.play ms).same (f := World.calls) fun _ _ => rfl
  journal ms := (h.play ms).same (f := World.journal) fun _ _ => rfl
  now ms := (h.play ms).same (f := World.now) fun _ _ => rfl
  nextSeq ms := (h.play ms).same (f := World.nextSeq) fun _ _ => rfl

end Like
end Fanout.World
