import Fanout.Proofs.CallFree
import Fanout.Proofs.Soundness
import Fanout.Proofs.Walks

/-! # Isolation of sinks

How a sink behaves and when its worker steps are of no concern to any other subscriber, as long as
no sink calls a relay and no grace of a shutdown runs out. Two runs that show a subscriber the same
moves at the same times look the same to it after each of these.
-/
namespace Fanout

theorem Moment.Reached.call_closed {a : Moment} (ha : a.Reached) {c : Nat} {k : Call}
    (hk : a.world.call? c = some k) : a.world.closed k.relay = true := by
  induction ha generalizing c k with
  | refl => cases hk
  | @tail b d hb hbd ih =>
    have hs : b.Sound := Moment.Reached.sound hb
    cases hj : b.world.call? c with
    | some j =>
      obtain ⟨i, hi, ht⟩ := hbd.callChange hj
      obtain rfl := Option.mem_unique hi hk
      rw [ht.relay]
      exact (hbd.relayChange hs).stays_closed (ih hj)
    | none =>
      obtain ⟨-, -, hex, hd, -⟩ := hbd.call_new hs hj hk
      rw [hd]
      exact World.closed_openCall (hs.named k.relay hex) _

namespace World

def CallsShut (w : World) : Prop := ∀ k ∈ w.calls, w.active k.relay = []

def InGrace (w : World) : Prop := ∀ c k n, w.call? c = some k → k.phase ≠ .cancelling n

variable {u v w : World} {id i : SubscriberId} {r : Nat}

theorem Reachable.callsShut (hw : w.Reachable) : w.CallsShut := by
  obtain ⟨ps, ha⟩ := reached_of_reachable hw
  intro k hk
  obtain ⟨c, hc⟩ := Array.mem_iff_getElem?.mp hk
  exact ha.sound.shut k.relay (ha.call_closed hc)

/-- Names are what keeps a relay with an active subscriber. -/
theorem CallsShut.relayExists (hw : w.CallsShut) (ha : w.active r ≠ []) :
    w.relayExists r = w.relayNames.any (·.2 == r) := by
  have hn : (w.calls.any fun k => k.relay == r && k.phase.pending) = false := by
    apply Array.any_eq_false'.mpr
    intro k hk
    have hr : k.relay ≠ r := fun he => ha (he ▸ hw k hk)
    simp [hr]
  rw [World.relayExists, hn, Bool.or_false]

theorem unregister_of_empty (ha : w.active r = []) (i : SubscriberId) :
    (w.unregister r i).1 = w.trace (.unregisterIgnored i) := by
  rw [unregister_of_notMem]
  simp [ha]

theorem view_remove_of_empty {h : Handle} (hr : h.relay = some r) (ha : w.active r = []) :
    (w.remove h).1.view id = w.view id := by
  simp only [remove, hr]
  split
  · rw [unregister_of_empty ha]
    exact view_trace ..
  · rfl

theorem view_registerNamed (w : World) (r : Nat) (name : String) (sink : Sink)
    (id : SubscriberId) :
    (w.registerNamed r name sink).1.view id = (w.register r name sink).1.view id := by
  rw [registerNamed]
  split
  · rename_i he
    rw [he]
  · rename_i he
    rw [he]
    exact view_handles ..

theorem view_giveUp (w : World) (c : Nat) (id : SubscriberId) :
    (w.giveUp c).view id = w.view id := by
  rw [giveUp]
  split <;> rfl

theorem stepCall_of_cancelling {c n : Nat} {k : Call} (hk : w.call? c = some k)
    (hp : k.phase = .cancelling n) (hl : w.liveWorkers k.relay ≠ 0) : w.stepCall c = w := by
  simp [stepCall, hk, hp, hl]

theorem liveWorkers_cancelAll (w : World) (r n : Nat) :
    (w.cancelAll r).liveWorkers n = w.liveWorkers n := by
  rw [liveWorkers, cancelAll, Array.countP_map, liveWorkers]
  congr 1
  funext s
  by_cases hs : s.relay = r <;> simp [hs, Subscriber.live]

/-- A grace that runs out in the first step of a call is not made good by the second. -/
theorem inGrace_stepCall {c : Nat} (hg : (w.driveCall c).InGrace) :
    ∀ k n, (w.stepCall c).call? c = some k → k.phase ≠ .cancelling n := by
  intro k n hk hp
  have hstep := w.callStep c
  rw [driveCall] at hg
  generalize hv : w.stepCall c = v at hstep hg hk
  have hcall : ∀ (u : World) (p : CallPhase), (u.setPhase c p).call? c = some k →
      ∃ j, u.call? c = some j ∧ { j with phase := p } = k := by
    intro u p hu
    rw [call?_setPhase, if_pos rfl] at hu
    exact Option.map_eq_some_iff.mp hu
  cases hstep with
  | stays =>
    rw [hv] at hg
    exact hg c k n hk hp
  | drained | stopped | returns =>
    obtain ⟨j, -, rfl⟩ := hcall _ _ hk
    cases hp
  | @expired j _ hj _ hl =>
    obtain ⟨i, hi, rfl⟩ := hcall _ _ hk
    have hi : w.call? c = some i := hi
    obtain rfl := Option.mem_unique hi hj
    have hleft : (w.cancelAll i.relay).liveWorkers i.relay ≠ 0 := by
      rw [liveWorkers_cancelAll]
      exact hl
    rw [stepCall_of_cancelling hk hp hleft] at hg
    exact hg c _ n hk hp

theorem view_driveCall {c : Nat} (hg : (w.driveCall c).InGrace) (id : SubscriberId) :
    (w.driveCall c).view id = w.view id :=
  (view_stepCall (fun k n hk => hg c k n hk) id).trans (view_stepCall (inGrace_stepCall hg) id)

theorem SameView.relayExists (h : SameView id u v) (hu : u.CallsShut) (hv : v.CallsShut)
    (ha : u.active r ≠ []) : u.relayExists r = v.relayExists r := by
  have hb : v.active r ≠ [] := h.active r ▸ ha
  rw [hu.relayExists ha, hv.relayExists hb, h.relayNames]

theorem SameView.isFed (h : SameView id u v) (hu : u.CallsShut) (hv : v.CallsShut) :
    u.isFed id = v.isFed id := by
  rw [World.isFed, World.isFed, ← h.subscriber?]
  cases u.subscriber? id with
  | none => rfl
  | some s =>
    dsimp only
    rw [← h.isActive]
    cases ha : u.isActive s.relay id with
    | false => simp
    | true =>
      have hm : id ∈ u.active s.relay := (u.isActive_iff s.relay id).mp ha
      rw [h.relayExists hu hv (List.ne_nil_of_mem hm)]

theorem SameView.view_remove (h : SameView id u v) (hu : u.CallsShut) (hv : v.CallsShut)
    (k : Handle) : (u.remove k).1.view id = (v.remove k).1.view id := by
  cases hr : k.relay with
  | none =>
    simp only [remove, hr]
    exact h.view
  | some r =>
    by_cases ha : u.active r = []
    · have hb : v.active r = [] := (h.active r).symm.trans ha
      exact (view_remove_of_empty hr ha).trans (h.view.trans (view_remove_of_empty hr hb).symm)
    · simp only [remove, hr, h.relayExists hu hv ha]
      split
      · exact (h.unregister r k.id).view
      · exact h.view

end World

def Scripted.face (s : Sink) : Sink := { key := s.key, name := s.name, capacity := s.capacity }

def Move.face : Move → Move
  | .register r name sink => .register r name sink.face
  | m => m

def Move.isShown (id : SubscriberId) : Move → Bool
  | .step (.worker i) => i = id
  | .step (.call _) | .step (.listener ..) | .pass _ => false
  | _ => true

/-- The time of a move and what a subscriber is shown of it: nothing of what others do, and of the
sink of another subscriber only its face. -/
def World.shown (w : World) (id : SubscriberId) (m : Move) : Option (Nat × Move) :=
  if m.isShown id then some (w.now, if id.serial = w.subscribers.size then m else m.face)
  else none

theorem Move.face_eq {m n : Move} (h : m.face = n.face) : m = n ∨
    ∃ r name s t, m = .register r name s ∧ n = .register r name t ∧ s.face = t.face := by
  cases m with
  | register r name s =>
    cases n with
    | register r' name' t =>
      obtain ⟨rfl, rfl, hst⟩ := Move.register.inj h
      exact .inr ⟨r, name, s, t, rfl, rfl, hst⟩
    | _ => cases h
  | _ =>
    cases n with
    | register r' name' t => cases h
    | _ => exact .inl h

namespace World

variable {u v w : World} {id : SubscriberId} {m n : Move}

theorem view_move_of_unseen (hs : m.isShown id = false)
    (hc : ∀ i, m = .step (.worker i) → w.isCalling i = false) (hg : (w.move m).InGrace) :
    (w.move m).view id = w.view id := by
  cases m with
  | step t =>
    cases t with
    | call c => exact view_stepCall (fun k n hk => hg c k n hk) id
    | listener r i => exact view_stepListener w r i id
    | worker i => exact view_stepWorker_of_ne (by simpa [Move.isShown] using hs) (hc i rfl)
  | pass time => rfl
  | _ => cases hs

theorem SameView.view_move (h : SameView id u v) (hu : u.CallsShut) (hv : v.CallsShut)
    (hs : m.isShown id = true) (hm : m.face = n.face) (ho : id.serial = u.subscribers.size → m = n)
    (hc : ∀ i, m = .step (.worker i) → u.isCalling i = false) (hg : (u.move m).InGrace)
    (hk : (v.move n).InGrace) : (u.move m).view id = (v.move n).view id := by
  have hregister : ∀ r name s t, m = .register r name s → n = .register r name t →
      s.face = t.face → (u.move m).view id = (v.move n).view id := by
    rintro r name s t rfl rfl hst
    refine (view_registerNamed ..).trans (Eq.trans ?_ (view_registerNamed ..).symm)
    obtain ⟨-, hname, -, hcap, -⟩ := Scripted.mk.inj hst
    exact (h.register r name hname hcap fun hi => (Move.register.inj (ho hi)).2.2).view
  rcases Move.face_eq hm with rfl | ⟨r, name, s, t, hs, ht, hst⟩
  · cases m with
    | build name config observers => exact (h.build name config observers).view
    | nameRelay name r => exact (h.nameRelay name r).view
    | forgetRelay name => exact (h.forgetRelay name).view
    | register r name sink => exact hregister r name sink sink rfl rfl rfl
    | unregister r i => exact (h.unregister r i).view
    | remove k => exact h.view_remove hu hv k
    | forgetHandle name => exact h.view
    | publish r x => exact (h.publish r x).view
    | beginShutdown r =>
      exact (view_driveCall hg id).trans
        ((h.openCall r none).view.trans (view_driveCall hk id).symm)
    | giveUp c => exact (view_giveUp ..).trans (h.view.trans (view_giveUp ..).symm)
    | make d =>
      exact (view_note_of_not rfl).trans (h.view.trans (view_note_of_not rfl).symm)
    | step t =>
      cases t with
      | worker i =>
        obtain rfl : i = id := by simpa [Move.isShown] using hs
        exact (h.stepWorker (hc i rfl) (h.isFed hu hv)).view
      | call c => cases hs
      | listener r i => cases hs
    | pass time => cases hs
  · exact hregister r name s t hs ht hst

end World
/-- Whether the message of a call of publish is dropped on its way to an active subscriber. -/
def Publication.misses (p : Publication) (id : SubscriberId) : Bool :=
  (p.world.active p.relay).contains id && !p.reaches id

namespace Moment

def missed (a : Moment) (id : SubscriberId) : List Message :=
  (a.published.filter (·.misses id)).map (·.message)

def move (a : Moment) : Move → Moment
  | .publish r m => a.publish r m
  | m => { a with world := a.world.move m }

/-- A move that is possible, in which no sink calls a relay and no grace runs out. -/
structure Permits (a : Moment) (m : Move) : Prop where
  allowed : a.world.Allows m
  callFree : ∀ i, m = .step (.worker i) → a.world.isCalling i = false
  inGrace : (a.move m).world.InGrace

/-- A subscriber sees the same, and the same became of the messages for it. -/
structure Alike (a : Moment) (id : SubscriberId) (b : Moment) : Prop where
  view : a.world.view id = b.world.view id
  enqueued : a.enqueued id = b.enqueued id
  missed : a.missed id = b.missed id

end Moment

/-- The moments of runs in which no sink calls a relay and no grace runs out, each with what a
subscriber has been shown until then, the latest first. -/
inductive ShownRun (id : SubscriberId) : Moment → List (Nat × Move) → Prop where
  | start : ShownRun id ⟨{}, none, []⟩ []
  | unseen {a : Moment} {ms : List (Nat × Move)} {m : Move} : ShownRun id a ms → a.Permits m →
    a.world.shown id m = none → ShownRun id (a.move m) ms
  | seen {a : Moment} {ms : List (Nat × Move)} {m : Move} {x : Nat × Move} : ShownRun id a ms →
    a.Permits m → a.world.shown id m = some x → ShownRun id (a.move m) (x :: ms)

variable {a b : Moment} {id : SubscriberId} {m n : Move} {ms : List (Nat × Move)}

theorem world_move (a : Moment) (m : Move) : (a.move m).world = a.world.move m := by
  cases m <;> rfl

theorem missed_publish (a : Moment) (r : Nat) (m : Message) (id : SubscriberId) :
    (a.publish r m).missed id = a.missed id ++
      if ((a.world.active r).contains id && !a.world.enqueues r id) = true then [m] else [] := by
  have hm : Publication.misses ⟨a.world, r, m⟩ id =
      ((a.world.active r).contains id && !a.world.enqueues r id) := rfl
  simp only [Moment.missed, Moment.publish, List.filter_append, List.map_append, List.filter_cons,
    hm]
  split <;> rfl

theorem World.shown_eq_some {w : World} {x : Nat × Move} (h : w.shown id m = some x) :
    m.isShown id = true ∧ x = (w.now, if id.serial = w.subscribers.size then m else m.face) := by
  rw [shown] at h
  split at h
  · rename_i hs
    exact ⟨hs, (Option.some.inj h).symm⟩
  · cases h

theorem World.shown_eq_none {w : World} (h : w.shown id m = none) : m.isShown id = false := by
  rw [shown] at h
  split at h
  · cases h
  · rename_i hs
    exact Bool.eq_false_iff.mpr hs

/-- Moves that are shown alike differ at most in how somebody else's sink behaves. -/
theorem World.eq_of_shown {u v : World} {x : Nat × Move}
    (hc : u.subscribers.size = v.subscribers.size) (hu : u.shown id m = some x)
    (hv : v.shown id n = some x) :
    u.now = v.now ∧ m.face = n.face ∧ (id.serial = u.subscribers.size → m = n) := by
  obtain ⟨-, hm⟩ := shown_eq_some hu
  obtain ⟨-, hn⟩ := shown_eq_some hv
  obtain ⟨hnow, hmn⟩ := Prod.mk.inj (hm.symm.trans hn)
  rw [← hc] at hmn
  by_cases hi : id.serial = u.subscribers.size
  · rw [if_pos hi, if_pos hi] at hmn
    exact ⟨hnow, congrArg Move.face hmn, fun _ => hmn⟩
  · rw [if_neg hi, if_neg hi] at hmn
    exact ⟨hnow, hmn, fun h => absurd h hi⟩

namespace Moment.Alike

variable {c : Moment}

theorem refl (a : Moment) (id : SubscriberId) : a.Alike id a := ⟨rfl, rfl, rfl⟩

theorem symm (h : a.Alike id b) : b.Alike id a := ⟨h.view.symm, h.enqueued.symm, h.missed.symm⟩

theorem trans (h : a.Alike id b) (k : b.Alike id c) : a.Alike id c :=
  ⟨h.view.trans k.view, h.enqueued.trans k.enqueued, h.missed.trans k.missed⟩

theorem unseen (hp : a.Permits m) (hs : a.world.shown id m = none) : (a.move m).Alike id a := by
  have hs := World.shown_eq_none hs
  have hg := hp.inGrace
  rw [world_move] at hg
  have hpub : (a.move m).published = a.published := by
    cases m with
    | publish r x => cases hs
    | _ => rfl
  refine ⟨?_, ?_, ?_⟩
  · rw [world_move]
    exact World.view_move_of_unseen hs hp.callFree hg
  · rw [Moment.enqueued, hpub, Moment.enqueued]
  · rw [Moment.missed, hpub, Moment.missed]

theorem seen (h : a.Alike id b) (ha : a.world.CallsShut) (hb : b.world.CallsShut)
    (hp : a.Permits m) (hq : b.Permits n) {x : Nat × Move} (hm : a.world.shown id m = some x)
    (hn : b.world.shown id n = some x) : (a.move m).Alike id (b.move n) := by
  obtain ⟨hnow, hface, hown⟩ := World.eq_of_shown (congrArg View.count h.view) hm hn
  have ht : World.SameView id a.world b.world := ⟨h.view, hnow⟩
  have hg := hp.inGrace
  have hk := hq.inGrace
  rw [world_move] at hg hk
  have hview := ht.view_move ha hb (World.shown_eq_some hm).1 hface hown hp.callFree hg hk
  rw [← world_move, ← world_move] at hview
  rcases Move.face_eq hface with rfl | ⟨r, name, s, t, rfl, rfl, -⟩
  · cases m with
    | publish r x =>
      refine ⟨hview, ?_, ?_⟩
      · refine (enqueued_publish ..).trans (Eq.trans ?_ (enqueued_publish ..).symm)
        rw [h.enqueued, ht.enqueues]
      · refine (missed_publish ..).trans (Eq.trans ?_ (missed_publish ..).symm)
        rw [h.missed, ht.active, ht.enqueues]
    | _ => exact ⟨hview, h.enqueued, h.missed⟩
  · exact ⟨hview, h.enqueued, h.missed⟩

end Moment.Alike

namespace ShownRun

theorem reachable (h : ShownRun id a ms) : a.world.Reachable := by
  induction h with
  | start => exact .refl
  | unseen _ hp _ ih | seen _ hp _ ih =>
    rw [world_move]
    exact ih.tail _ hp.allowed

theorem last (h : ShownRun id a ms) : (ms = [] ∧ a.Alike id ⟨{}, none, []⟩) ∨
    ∃ b m x ns, ms = x :: ns ∧ ShownRun id b ns ∧ b.Permits m ∧ b.world.shown id m = some x ∧
      a.Alike id (b.move m) := by
  induction h with
  | start => exact .inl ⟨rfl, .refl _ id⟩
  | unseen _ hp hs ih =>
    have hstep := Moment.Alike.unseen hp hs
    rcases ih with ⟨hms, h⟩ | ⟨b, m, x, ns, hms, hb, hq, hx, h⟩
    · exact .inl ⟨hms, hstep.trans h⟩
    · exact .inr ⟨b, m, x, ns, hms, hb, hq, hx, hstep.trans h⟩
  | seen ha hp hs => exact .inr ⟨_, _, _, _, rfl, ha, hp, hs, .refl _ id⟩

/-- The induction is on the first run; the second is cut at its last move that was shown. -/
theorem alike (ha : ShownRun id a ms) (hb : ShownRun id b ms) : a.Alike id b := by
  induction ha generalizing b with
  | start =>
    rcases hb.last with ⟨-, h⟩ | ⟨_, _, _, _, hms, -⟩
    · exact h.symm
    · cases hms
  | unseen _ hp hs ih => exact (Moment.Alike.unseen hp hs).trans (ih hb)
  | seen ha hp hs ih =>
    rcases hb.last with ⟨hms, -⟩ | ⟨c, n, y, ns, hms, hc, hq, hy, h⟩
    · cases hms
    · cases hms
      have hsame := (ih hc).seen ha.reachable.callsShut hc.reachable.callsShut hp hq hs hy
      exact hsame.trans h.symm

end ShownRun

/-- Sinks are isolated from each other. Of two runs that show a subscriber the same moves, with
other sinks that behave in other ways and at other times, it cannot tell in which one it is: who
is active, its own queue and worker, the messages that came into the queue and those that were
dropped, what its deliveries did and how they ended, and the events about it are the same. -/
theorem sinks_isolated (ha : ShownRun id a ms) (hb : ShownRun id b ms) :
    (∀ r, a.world.active r = b.world.active r) ∧
    a.world.subscriber? id = b.world.subscriber? id ∧
    a.enqueued id = b.enqueued id ∧ a.missed id = b.missed id ∧
    a.world.notesOf id = b.world.notesOf id ∧
    ∀ r, a.world.mentions r id = b.world.mentions r id := by
  obtain ⟨hview, henqueued, hmissed⟩ := ha.alike hb
  exact ⟨World.active_of_view hview, congrArg View.sub hview, henqueued, hmissed,
    congrArg View.notesOf hview, World.mentions_of_view hview⟩

theorem Moment.Permits.of_no_calls (hm : a.world.Allows m)
    (hs : ∀ i, m = .step (.worker i) → a.world.isCalling i = false)
    (hc : (a.move m).world.calls = #[]) : a.Permits m := by
  refine ⟨hm, hs, fun c k n hk => ?_⟩
  rw [World.call?, hc] at hk
  cases hk

theorem Moment.Permits.step {i : SubscriberId} (hm : a.world.workerReady i = true)
    (hs : a.world.isCalling i = false) (hc : (a.move (.step (.worker i))).world.calls = #[]) :
    a.Permits (.step (.worker i)) := by
  refine .of_no_calls hm (fun j hj => ?_) hc
  cases hj
  exact hs

namespace Duet

def config : Config := { deliveryTimeout := .ofMillis 5 }
def own : Sink := { key := "own", name := "own" }
def other (script : List Action) : Sink := { key := "other", name := "other", script := [script] }

/-- Two subscribers are registered, and both get a message. -/
def opening (script : List Action) : Moment :=
  [Move.build "relay" config [], .register 0 "relay" own, .register 0 "relay" (other script),
    .publish 0 .empty].foldl Moment.move ⟨{}, none, []⟩

def shown : List (Nat × Move) :=
  [(0, .step (.worker ⟨0⟩)), (0, .publish 0 .empty), (0, .register 0 "relay" (other []).face),
    (0, .register 0 "relay" own), (0, .build "relay" config [])]

theorem shownRun_opening (script : List Action) : ShownRun ⟨0⟩ (opening script) shown.tail := by
  have h₀ : ShownRun ⟨0⟩ ⟨{}, none, []⟩ [] := .start
  have h₁ := h₀.seen (m := .build "relay" config [])
    (.of_no_calls trivial (fun i hi => by cases hi) rfl) rfl
  have h₂ := h₁.seen (m := .register 0 "relay" own)
    (.of_no_calls rfl (fun i hi => by cases hi) rfl) rfl
  have h₃ := h₂.seen (m := .register 0 "relay" (other script))
    (.of_no_calls rfl (fun i hi => by cases hi) rfl) rfl
  exact h₃.seen (m := .publish 0 .empty)
    (.of_no_calls ⟨"relay", rfl⟩ (fun i hi => by cases hi) rfl) rfl

/-- The first one takes its message, and the other one hangs until its time is over. -/
def hanging : Moment :=
  [Move.step (.worker ⟨0⟩), .step (.worker ⟨1⟩), .pass 5, .step (.worker ⟨1⟩)].foldl Moment.move
    (opening [.hang])

theorem shownRun_hanging : ShownRun ⟨0⟩ hanging shown := by
  have h₁ := (shownRun_opening [.hang]).seen (m := .step (.worker ⟨0⟩)) (.step rfl rfl rfl) rfl
  have h₂ := h₁.unseen (m := .step (.worker ⟨1⟩)) (.step rfl rfl rfl) rfl
  have h₃ := h₂.unseen (m := .pass 5)
    (.of_no_calls trivial (fun i hi => by cases hi) rfl) rfl
  exact h₃.unseen (m := .step (.worker ⟨1⟩)) (.step rfl rfl rfl) rfl

def panicking : Moment :=
  [Move.step (.worker ⟨1⟩), .step (.worker ⟨0⟩)].foldl Moment.move
    (opening [.panic (.text "sink exploded")])

theorem shownRun_panicking : ShownRun ⟨0⟩ panicking shown := by
  have h₁ := (shownRun_opening [.panic (.text "sink exploded")]).unseen (m := .step (.worker ⟨1⟩))
    (.step rfl rfl rfl) rfl
  exact h₁.seen (m := .step (.worker ⟨0⟩)) (.step rfl rfl rfl) rfl

end Duet

/-- The other sink fares differently in the two runs, and the first one does not notice. -/
theorem sinks_isolated_duet : ShownRun ⟨0⟩ Duet.hanging Duet.shown ∧
    ShownRun ⟨0⟩ Duet.panicking Duet.shown ∧
    Duet.hanging.world.conclusions ⟨1⟩ = [.fault (.timedOut (.ofMillis 5))] ∧
    Duet.panicking.world.conclusions ⟨1⟩ = [.fault (.panicked "sink exploded")] ∧
    Duet.hanging.world.notesOf ⟨0⟩ = Duet.panicking.world.notesOf ⟨0⟩ ∧
    ∀ r, Duet.hanging.world.mentions r ⟨0⟩ = Duet.panicking.world.mentions r ⟨0⟩ := by
  obtain ⟨-, -, -, -, hnotes, hmentions⟩ :=
    sinks_isolated Duet.shownRun_hanging Duet.shownRun_panicking
  exact ⟨Duet.shownRun_hanging, Duet.shownRun_panicking, by decide +kernel, by decide +kernel,
    hnotes,
    hmentions⟩

end Fanout
