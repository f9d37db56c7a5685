import Fanout.Proofs.Moment
import Fanout.Proofs.Operations

/-! # Workers of two worlds

A worker that goes on in two related worlds leaves them related, if each elementary change does that
is made in both, and if its code finds the same in both.
-/
namespace Fanout.World

variable {α : Type} {S : World → World → Prop} {u v w : World} {id : SubscriberId}

/-- Polls an unfinished delivery: its code goes on if what it waits for has come. -/
def poll (w : World) (id : SubscriberId) (d : Delivery) : World × Outcome :=
  match d.wait with
  | .turn => w.actAll id d.rest
  | .until time => if time ≤ w.now then w.actAll id d.rest else (w, .waits d.wait d.rest)
  | .forever => (w, .waits d.wait d.rest)
  | .call c =>
    let w := w.driveCall c
    match w.result? c with
    | some result => (w.row id (.called "shutdown" (.ofShutdown result))).actAll id d.rest
    | none => (w, .waits d.wait d.rest)

theorem proceed_eq (w : World) (id : SubscriberId) (r : Nat) (d : Delivery) :
    w.proceed id r d = (w.poll id d).1.conclude id r d.message d.deadline (w.poll id d).2 := by
  unfold proceed poll
  rcases d with ⟨m, wait, rest, deadline⟩
  cases wait with
  | turn => rfl
  | «until» time =>
    dsimp only
    split <;> rfl
  | forever => rfl
  | call c =>
    dsimp only
    cases hres : (w.driveCall c).result? c <;> rfl

theorem waitOver_congr {wait : Wait} (hd : wait.call? = none) (hn : u.now = v.now) :
    u.waitOver wait = v.waitOver wait := by
  cases wait with
  | «until» time => rw [waitOver, hn, waitOver]
  | turn | forever => rfl
  | call c => cases hd

theorem poll_of_over {d : Delivery} (hd : d.wait.call? = none) (ho : w.waitOver d.wait = true) :
    w.poll id d = w.actAll id d.rest := by
  unfold poll
  cases hw : d.wait with
  | turn => rfl
  | «until» time =>
    rw [hw] at ho
    exact if_pos (of_decide_eq_true ho)
  | forever =>
    rw [hw] at ho
    cases ho
  | call c =>
    rw [hw] at hd
    cases hd

theorem poll_of_not_over {d : Delivery} (hd : d.wait.call? = none)
    (ho : w.waitOver d.wait = false) : w.poll id d = (w, .waits d.wait d.rest) := by
  unfold poll
  cases hw : d.wait with
  | turn =>
    rw [hw] at ho
    cases ho
  | «until» time =>
    rw [hw] at ho
    exact if_neg (of_decide_eq_false ho)
  | forever => rfl
  | call c =>
    rw [hw] at hd
    cases hd

/-- A relation between worlds at the same time that is kept when the same is recorded, reported or
changed in both of the deliveries to a subscriber. -/
structure Parallel (id : SubscriberId) (S : World → World → Prop) : Prop where
  now {u v : World} : S u v → u.now = v.now
  name {u v : World} : S u v → u.nameOf id = v.nameOf id
  timeout {u v : World} (r : Nat) : S u v → u.timeoutOf r = v.timeoutOf r
  subscriber {u v : World} (f : Subscriber → Subscriber) :
    S u v → S (u.modifySubscriber id f) (v.modifySubscriber id f)
  row {u v : World} (x : Row) : S u v → S (u.row id x) (v.row id x)
  concluded {u v : World} (how : Conclusion) :
    S u v → S (u.note (.concluded id how)) (v.note (.concluded id how))
  trace {u v : World} (t : Trace) : S u v → S (u.trace t) (v.trace t)
  fault {u v : World} (r : Nat) (name : String) (f : SinkFault) :
    S u v → S (u.emit r (.fault name id f)) (v.emit r (.fault name id f))
  dropCall {u v : World} (c : Nat) : S u v → S (u.dropCall c) (v.dropCall c)

structure Both (S : World → World → Prop) (x y : World × α) : Prop where
  worlds : S x.1 y.1
  answer : x.2 = y.2

theorem Both.flag {x y : World × Bool} (h : Both S x y) :
    Both S (x.1, Reply.flag x.2) (y.1, Reply.flag y.2) :=
  ⟨h.worlds, congrArg Reply.flag h.answer⟩

/-- What the code of a delivery asks for, a shutdown apart, has the same answer in both worlds and
leaves them related. -/
structure SameAnswers (id : SubscriberId) (S : World → World → Prop) (u v : World) : Prop where
  home : u.home? id = v.home? id
  handle (name : String) : u.handleNamed? name = v.handleNamed? name
  active (r : Nat) (i : SubscriberId) : u.isActive r i = v.isActive r i
  count (r : Nat) : u.countOf r = v.countOf r
  publish (r : Nat) (m : Message) : S (u.publish r m) (v.publish r m)
  register (r : Nat) (name : String) (sink : Sink) :
    Both S (u.registerNamed r name sink) (v.registerNamed r name sink)
  unregister (r : Nat) (i : SubscriberId) : Both S (u.unregister r i) (v.unregister r i)
  remove (k : Handle) : Both S (u.remove k) (v.remove k)

theorem SameAnswers.withHandle (hf : SameAnswers id S u v) (huv : S u v) (name : String)
    {f g : Handle → World × Reply} (hfg : ∀ k, Both S (f k) (g k)) :
    Both S (u.withHandle name f) (v.withHandle name g) := by
  unfold World.withHandle
  rw [hf.handle]
  split
  · exact hfg _
  · exact ⟨huv, rfl⟩

namespace Parallel

variable {s : Subscriber} {m : Message} {queue : List Message} {r : Nat} {d : Delivery}

theorem take (h : Parallel id S) (m : Message) (queue : List Message) (huv : S u v) :
    S (u.take id m queue) (v.take id m queue) :=
  h.row _ (h.subscriber _ huv)

theorem finish (h : Parallel id S) (how : Conclusion) (huv : S u v) :
    S (u.finish id how) (v.finish id how) :=
  h.subscriber _ (h.concluded how huv)

theorem crash (h : Parallel id S) (huv : S u v) : S (u.crash id) (v.crash id) :=
  h.subscriber _ (h.concluded .crashed huv)

theorem stopWorker (h : Parallel id S) (huv : S u v) : S (u.stopWorker id) (v.stopWorker id) := by
  unfold World.stopWorker
  rw [h.name huv]
  exact h.trace _ (h.subscriber _ huv)

theorem contain (h : Parallel id S) (r : Nat) (f : SinkFault) (huv : S u v) :
    S (u.contain id r f) (v.contain id r f) := by
  unfold World.contain
  rw [h.name huv]
  exact h.fault r _ f (h.trace _ (h.finish _ huv))

theorem abandon (h : Parallel id S) (wait : Wait) (huv : S u v) :
    S (u.abandon id wait) (v.abandon id wait) := by
  have hrow : S (u.row id .aborted) (v.row id .aborted) := h.row .aborted huv
  cases wait with
  | call c => exact h.dropCall c hrow
  | turn | «until» | forever => exact hrow

theorem waitOn (h : Parallel id S) (r : Nat) (d : Delivery) (huv : S u v) :
    S (u.waitOn id r d) (v.waitOn id r d) := by
  have hover : u.overdue d.deadline = v.overdue d.deadline := by
    rw [World.overdue, h.now huv, World.overdue]
  unfold World.waitOn
  rw [hover, h.timeout r huv]
  split
  · exact h.contain r _ (h.abandon d.wait huv)
  · exact h.subscriber _ huv

theorem conclude (h : Parallel id S) (r : Nat) (m : Message) (deadline : Option Nat) (o : Outcome)
    (huv : S u v) : S (u.conclude id r m deadline o) (v.conclude id r m deadline o) := by
  cases o with
  | ended f =>
    cases f with
    | none => exact h.finish _ huv
    | some f => exact h.contain r f huv
  | crashed => exact h.crash huv
  | waits wait rest => exact h.waitOn r _ huv

theorem abort (h : Parallel id S) (wait : Wait) (huv : S u v) :
    S (((u.abandon id wait).note (.concluded id .cancelled)).stopWorker id)
      (((v.abandon id wait).note (.concluded id .cancelled)).stopWorker id) :=
  h.stopWorker (h.concluded .cancelled (h.abandon wait huv))

theorem callHome (h : Parallel id S) (huv : S u v) (hhome : u.home? id = v.home? id)
    (action : String) {f g : Nat → World × Reply} (hfg : ∀ r, Both S (f r) (g r)) :
    Both S (u.callHome id action f) (v.callHome id action g) := by
  unfold World.callHome
  rw [hhome]
  cases v.home? id with
  | none => exact ⟨h.row _ huv, rfl⟩
  | some p =>
    obtain ⟨hworlds, hanswer⟩ := hfg p.1
    dsimp only
    rw [hanswer]
    exact ⟨h.row _ hworlds, rfl⟩

theorem act (h : Parallel id S) (huv : S u v) (hf : SameAnswers id S u v) {a : Action}
    (ha : a ≠ .shutdown) : Both S (u.act id a) (v.act id a) := by
  cases a with
  | ok | fail | closed => exact ⟨h.row _ huv, rfl⟩
  | panic | panicAtStart | hang | yield => exact ⟨huv, rfl⟩
  | sleep ms =>
    refine ⟨huv, ?_⟩
    rw [World.act, World.act, h.now huv]
  | publish m => exact h.callHome huv hf.home _ fun r => ⟨hf.publish r m, rfl⟩
  | unregister k =>
    exact h.callHome huv hf.home _ fun r => hf.withHandle huv k fun j => (hf.unregister r j.id).flag
  | remove k =>
    have hremove : Both S (u.removeNamed k) (v.removeNamed k) :=
      hf.withHandle huv k fun j => (hf.remove j).flag
    unfold World.act
    dsimp only
    rw [hremove.answer]
    exact ⟨h.row _ hremove.worlds, rfl⟩
  | isActive k =>
    refine h.callHome huv hf.home _ fun r => hf.withHandle huv k fun j => ⟨huv, ?_⟩
    exact congrArg Reply.flag (hf.active r j.id)
  | count => exact h.callHome huv hf.home _ fun r => ⟨huv, congrArg Reply.count (hf.count r)⟩
  | register sink =>
    unfold World.act
    rw [hf.home]
    cases v.home? id with
    | none => exact ⟨h.row _ huv, rfl⟩
    | some p =>
      obtain ⟨hworlds, hanswer⟩ := hf.register p.1 p.2 sink
      dsimp only
      generalize u.registerNamed p.1 p.2 sink = x at hworlds hanswer
      generalize v.registerNamed p.1 p.2 sink = y at hworlds hanswer
      obtain ⟨u', reply⟩ := x
      obtain ⟨v', reply'⟩ := y
      obtain rfl : reply = reply' := hanswer
      cases reply with
      | panicked info => exact ⟨hworlds, rfl⟩
      | _ => exact ⟨h.row _ hworlds, rfl⟩
  | shutdown => exact absurd rfl ha

theorem actAll (h : Parallel id S) {Q : World → World → List Action → Prop}
    (hact : ∀ {u v a as}, S u v → Q u v (a :: as) → Both S (u.act id a) (v.act id a) ∧
      ((u.act id a).2 = .proceed → (v.act id a).2 = .proceed →
        Q (u.act id a).1 (v.act id a).1 as))
    {as : List Action} (huv : S u v) (hq : Q u v as) :
    Both S (u.actAll id as) (v.actAll id as) := by
  -- By induction on the code: `Q` is what the rest of it may count on in both worlds.
  induction as generalizing u v with
  | nil => exact ⟨h.row _ huv, rfl⟩
  | cons a as ih =>
    obtain ⟨⟨hworlds, hanswer⟩, hnext⟩ := hact huv hq
    unfold World.actAll
    generalize u.act id a = x at hworlds hanswer hnext
    generalize v.act id a = y at hworlds hanswer hnext
    obtain ⟨u', effect⟩ := x
    obtain ⟨v', effect'⟩ := y
    obtain rfl : effect = effect' := hanswer
    cases effect with
    | proceed => exact ih hworlds (hnext rfl rfl)
    | ends | waits => exact ⟨hworlds, rfl⟩

theorem start (huv : S u v) (style : Style) {as : List Action}
    (hall : Both S (u.actAll id as) (v.actAll id as)) :
    Both S (u.start id style as) (v.start id style as) := by
  unfold World.start
  split
  · exact ⟨huv, rfl⟩
  · exact hall

/-- A delivery that waits for no call of shutdown goes on if its wait is over. -/
theorem poll (h : Parallel id S) (huv : S u v) (hd : d.wait.call? = none)
    (hall : u.waitOver d.wait = true → Both S (u.actAll id d.rest) (v.actAll id d.rest)) :
    Both S (u.poll id d) (v.poll id d) := by
  have hsame := waitOver_congr hd (h.now huv)
  cases ho : u.waitOver d.wait with
  | true =>
    rw [poll_of_over hd ho, poll_of_over hd (hsame.symm.trans ho)]
    exact hall ho
  | false =>
    rw [poll_of_not_over hd ho, poll_of_not_over hd (hsame.symm.trans ho)]
    exact ⟨huv, rfl⟩

theorem begin (h : Parallel id S) (hdeadline : u.deadlineFor s.relay = v.deadlineFor s.relay)
    (hstart : Both S ((u.take id m queue).start id s.sink.style (s.sink.actions s.begun))
      ((v.take id m queue).start id s.sink.style (s.sink.actions s.begun))) :
    S (u.begin id s m queue) (v.begin id s m queue) := by
  unfold World.begin
  dsimp only
  rw [hdeadline, hstart.answer]
  exact h.conclude _ _ _ _ hstart.worlds

theorem proceed (h : Parallel id S) (hpoll : Both S (u.poll id d) (v.poll id d)) :
    S (u.proceed id r d) (v.proceed id r d) := by
  rw [proceed_eq, proceed_eq, hpoll.answer]
  exact h.conclude _ _ _ _ hpoll.worlds

/-- A step of a worker, if what it begins and what it goes on with does the same in both. -/
theorem stepWorker (h : Parallel id S) (huv : S u v)
    (hsub : u.subscriber? id = v.subscriber? id) (hfed : u.isFed id = v.isFed id)
    (hbegin : ∀ s m queue, v.subscriber? id = some s → s.cancelled = false → s.phase = .idle →
      s.queue = m :: queue → S (u.begin id s m queue) (v.begin id s m queue))
    (hproceed : ∀ s d, v.subscriber? id = some s → s.cancelled = false →
      s.phase = .delivering d → S (u.proceed id s.relay d) (v.proceed id s.relay d)) :
    S (u.stepWorker id) (v.stepWorker id) := by
  unfold World.stepWorker
  rw [hsub, hfed]
  cases hs : v.subscriber? id with
  | none => exact huv
  | some s =>
    dsimp only
    cases hp : s.phase with
    | stopped | crashed => exact huv
    | delivering d =>
      cases hk : s.cancelled with
      | true => exact h.abort d.wait huv
      | false => exact hproceed s d hs hk hp
    | idle =>
      cases hk : s.cancelled with
      | true => exact h.stopWorker huv
      | false =>
        cases hq : s.queue with
        | cons m queue => exact hbegin s m queue hs hk hp hq
        | nil =>
          simp only [Bool.false_eq_true, if_false]
          split
          · exact huv
          · exact h.stopWorker huv

end Parallel

/-- A relation between the worlds before and after that adds up, and that whatever is recorded,
reported or changed of the deliveries to a subscriber keeps to. -/
structure ContainsDeliveries (id : SubscriberId) (R : World → World → Prop) : Prop where
  refl (w : World) : R w w
  trans {u v w : World} : R u v → R v w → R u w
  subscriber (w : World) (f : Subscriber → Subscriber) : R w (w.modifySubscriber id f)
  row (w : World) (x : Row) : R w (w.row id x)
  concluded (w : World) (how : Conclusion) : R w (w.note (.concluded id how))
  trace (w : World) (t : Trace) : R w (w.trace t)
  fault (w : World) (r : Nat) (name : String) (f : SinkFault) :
    R w (w.emit r (.fault name id f))
  dropCall (w : World) (c : Nat) : R w (w.dropCall c)

namespace ContainsDeliveries

variable {R : World → World → Prop}

/-- A world goes along with itself, and what has become of `w` so far stays true. -/
theorem parallel (h : ContainsDeliveries id R) (w : World) :
    Parallel id fun u v => u = v ∧ R w v where
  now hp := congrArg World.now hp.1
  name hp := congrArg (nameOf · id) hp.1
  timeout r hp := congrArg (timeoutOf · r) hp.1
  subscriber f hp := ⟨congrArg (modifySubscriber · id f) hp.1, h.trans hp.2 (h.subscriber ..)⟩
  row x hp := ⟨congrArg (World.row · id x) hp.1, h.trans hp.2 (h.row ..)⟩
  concluded how hp :=
    ⟨congrArg (note · (.concluded id how)) hp.1, h.trans hp.2 (h.concluded ..)⟩
  trace t hp := ⟨congrArg (World.trace · t) hp.1, h.trans hp.2 (h.trace ..)⟩
  fault r name f hp :=
    ⟨congrArg (emit · r (.fault name id f)) hp.1, h.trans hp.2 (h.fault ..)⟩
  dropCall c hp := ⟨congrArg (World.dropCall · c) hp.1, h.trans hp.2 (h.dropCall ..)⟩

theorem take (h : ContainsDeliveries id R) (w : World) (m : Message) (queue : List Message) :
    R w (w.take id m queue) :=
  ((h.parallel w).take m queue ⟨rfl, h.refl w⟩).2

theorem finish (h : ContainsDeliveries id R) (w : World) (how : Conclusion) :
    R w (w.finish id how) :=
  ((h.parallel w).finish how ⟨rfl, h.refl w⟩).2

theorem crash (h : ContainsDeliveries id R) (w : World) : R w (w.crash id) :=
  ((h.parallel w).crash ⟨rfl, h.refl w⟩).2

theorem stopWorker (h : ContainsDeliveries id R) (w : World) : R w (w.stopWorker id) :=
  ((h.parallel w).stopWorker ⟨rfl, h.refl w⟩).2

theorem contain (h : ContainsDeliveries id R) (w : World) (r : Nat) (f : SinkFault) :
    R w (w.contain id r f) :=
  ((h.parallel w).contain r f ⟨rfl, h.refl w⟩).2

theorem abandon (h : ContainsDeliveries id R) (w : World) (wait : Wait) : R w (w.abandon id wait) :=
  ((h.parallel w).abandon wait ⟨rfl, h.refl w⟩).2

theorem abort (h : ContainsDeliveries id R) (w : World) (wait : Wait) :
    R w (((w.abandon id wait).note (.concluded id .cancelled)).stopWorker id) :=
  ((h.parallel w).abort wait ⟨rfl, h.refl w⟩).2

theorem conclude (h : ContainsDeliveries id R) (w : World) (r : Nat) (m : Message)
    (deadline : Option Nat) (o : Outcome) : R w (w.conclude id r m deadline o) :=
  ((h.parallel w).conclude r m deadline o ⟨rfl, h.refl w⟩).2

theorem imp {R' : World → World → Prop} (h : ContainsDeliveries id R) (hrefl : ∀ w, R' w w)
    (htrans : ∀ {u v w}, R' u v → R' v w → R' u w) (himp : ∀ {w v}, R w v → R' w v) :
    ContainsDeliveries id R' where
  refl := hrefl
  trans := htrans
  subscriber w f := himp (h.subscriber w f)
  row w x := himp (h.row w x)
  concluded w how := himp (h.concluded w how)
  trace w t := himp (h.trace w t)
  fault w r name f := himp (h.fault w r name f)
  dropCall w c := himp (h.dropCall w c)

end ContainsDeliveries
end Fanout.World
