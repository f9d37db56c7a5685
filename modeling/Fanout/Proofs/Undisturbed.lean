import Fanout.Proofs.FirstShutdown

/-! # Workers do not notice observers

A step of a worker does the same in two worlds that differ in their observers only. Only after the
last report of a relay there is one thing more to it: a call of shutdown waits for the listeners in
the end, so it may come back to a sink in one world and not yet in the other.
-/
namespace Fanout

/-- A call of shutdown has come back to a sink. -/
def Note.isShutdownReturn (id : SubscriberId) : Note → Bool
  | .row i _ (.called action _) => i = id && action = "shutdown"
  | _ => false

namespace World

variable {u v w : World} {id i : SubscriberId} {r c : Nat}

def shutdownReturns (w : World) (id : SubscriberId) : Nat :=
  w.journal.countP (·.isShutdownReturn id)

theorem shutdownReturns_note (w : World) (n : Note) (id : SubscriberId) :
    (w.note n).shutdownReturns id =
      w.shutdownReturns id + if n.isShutdownReturn id then 1 else 0 := by
  simp [shutdownReturns, note, Array.countP_push]

theorem shutdownReturns_bare (w : World) (id : SubscriberId) :
    w.bare.shutdownReturns id = w.shutdownReturns id := by
  rw [shutdownReturns, shutdownReturns, bare, Array.countP_filter]
  congr 1
  funext n
  cases n <;> simp [Note.sparesDeliveries, Note.isShutdownReturn]

theorem shutdownReturns_called (w : World) (id : SubscriberId) (x : Option RelayError) :
    (w.row id (.called "shutdown" (.ofShutdown x))).shutdownReturns id =
      w.shutdownReturns id + 1 := by
  rw [row, shutdownReturns_note]
  simp [Note.isShutdownReturn]

theorem Plain.shutdownReturns_le (h : w.Plain v) (id : SubscriberId) :
    w.shutdownReturns id ≤ v.shutdownReturns id := by
  obtain ⟨ns, hns, -⟩ := h.journal
  rw [shutdownReturns, shutdownReturns, ← Array.countP_toList, ← Array.countP_toList, hns,
    List.countP_append]
  exact Nat.le_add_right ..

theorem shutdownReturns_abandon (w : World) (i : SubscriberId) (wait : Wait) (id : SubscriberId) :
    (w.abandon i wait).shutdownReturns id = w.shutdownReturns id := by
  obtain ⟨calls, he⟩ := w.abandon_eq i wait
  rw [he]
  exact shutdownReturns_note w _ id

theorem shutdownReturns_contain (w : World) (i : SubscriberId) (r : Nat) (f : SinkFault)
    (id : SubscriberId) : (w.contain i r f).shutdownReturns id = w.shutdownReturns id :=
  (shutdownReturns_note _ _ id).trans (shutdownReturns_note w _ id)

theorem shutdownReturns_conclude (w : World) (i : SubscriberId) (r : Nat) (m : Message)
    (deadline : Option Nat) (o : Outcome) (id : SubscriberId) :
    (w.conclude i r m deadline o).shutdownReturns id = w.shutdownReturns id := by
  cases o with
  | ended f =>
    cases f with
    | none => exact shutdownReturns_note w _ id
    | some f => exact shutdownReturns_contain ..
  | crashed => exact shutdownReturns_note w _ id
  | waits wait rest =>
    rw [conclude, waitOn]
    split
    · exact (shutdownReturns_contain ..).trans (shutdownReturns_abandon ..)
    · rfl

theorem active_bare (w : World) (r : Nat) : w.bare.active r = w.active r := by
  rw [active, relay?_bare, Option.map_map]
  rfl

theorem callsShut_bare (w : World) : w.bare.CallsShut :=
  fun k hk => absurd hk (Array.not_mem_empty k)

theorem calls_remove (w : World) (h : Handle) : (w.remove h).1.calls = w.calls := by
  rw [remove]
  split
  · split
    · exact calls_unregister ..
    · rfl
  · rfl

theorem bare_remove (hw : w.CallsShut) (h : Handle) :
    (w.remove h).1.bare = (w.bare.remove h).1.bare ∧ (w.remove h).2 = (w.bare.remove h).2 := by
  have hnone : ∀ {v : World} {r : Nat}, h.relay = some r → v.active r = [] →
      (v.remove h).1.bare = v.bare ∧ (v.remove h).2 = false := by
    intro v r hr ha
    have hi : ¬ v.isActive r h.id = true := fun hi => by
      rw [isActive_iff, ha] at hi
      cases hi
    simp only [remove, hr]
    split
    · rw [unregister, if_neg hi]
      exact ⟨bare_trace .., rfl⟩
    · exact ⟨rfl, rfl⟩
  cases hr : h.relay with
  | none =>
    simp only [remove, hr, bare_bare]
    exact ⟨trivial, trivial⟩
  | some r =>
    by_cases ha : w.active r = []
    · obtain ⟨hw₁, hw₂⟩ := hnone hr ha
      obtain ⟨hb₁, hb₂⟩ := hnone hr ((active_bare w r).trans ha)
      exact ⟨hw₁.trans (hb₁.trans (bare_bare w)).symm, hw₂.trans hb₂.symm⟩
    · have hb : w.bare.active r ≠ [] := (active_bare w r).symm ▸ ha
      have he : w.bare.relayExists r = w.relayExists r :=
        (w.callsShut_bare.relayExists hb).trans (hw.relayExists ha).symm
      simp only [remove, hr, he]
      split
      · exact bare_unregister ..
      · exact ⟨(bare_bare w).symm, rfl⟩

theorem isFed_bare (hw : w.CallsShut) (id : SubscriberId) : w.bare.isFed id = w.isFed id := by
  rw [isFed, isFed, subscriber?_bare]
  cases w.subscriber? id with
  | none => rfl
  | some s =>
    dsimp only
    rw [isActive_bare]
    cases ha : w.isActive s.relay id with
    | false => simp
    | true =>
      have hm : id ∈ w.active s.relay := (w.isActive_iff s.relay id).mp ha
      have hne : w.active s.relay ≠ [] := List.ne_nil_of_mem hm
      have hb : w.bare.active s.relay ≠ [] := (active_bare w s.relay).symm ▸ hne
      rw [w.callsShut_bare.relayExists hb, hw.relayExists hne]
      rfl

namespace SameBare

theorem shutdownReturns (h : u.SameBare v) (id : SubscriberId) :
    u.shutdownReturns id = v.shutdownReturns id :=
  h.same (f := (World.shutdownReturns · id)) fun w => shutdownReturns_bare w id

theorem remove (h : u.SameBare v) (hu : u.CallsShut) (hv : v.CallsShut) (k : Handle) :
    Agree (u.remove k) (v.remove k) := by
  refine ⟨h.of_bare ?_ (calls_remove ..) (calls_remove ..), ?_⟩
  · rw [(bare_remove hu k).1, h.bare, ← (bare_remove hv k).1]
  · rw [(bare_remove hu k).2, h.bare, ← (bare_remove hv k).2]

theorem isFed (h : u.SameBare v) (hu : u.CallsShut) (hv : v.CallsShut) (id : SubscriberId) :
    u.isFed id = v.isFed id := by
  rw [← isFed_bare hu, h.bare, isFed_bare hv]

theorem parallel (id : SubscriberId) : Parallel id SameBare where
  now h := h.now
  name h := h.same (f := (World.nameOf · id)) fun _ => rfl
  timeout r h := h.same (f := (World.timeoutOf · r)) fun w => timeoutOf_bare w r
  subscriber f h := h.commute (fun w => bare_modifySubscriber w id f) fun _ => rfl
  row x h := h.row id x
  concluded how h := h.commute (fun w => bare_concluded w id how) fun _ => rfl
  trace t h := h.change (f := (World.trace · t)) (fun w => by simp) fun _ => rfl
  fault r name f h := h.commute (fun w => bare_emit w r (.fault name id f)) fun _ => rfl
  dropCall c h := h.dropCall c

theorem sameAnswers (h : u.SameBare v) (hu : u.CallsShut) (hv : v.CallsShut) (id : SubscriberId) :
    SameAnswers id SameBare u v where
  home := h.same (f := (World.home? · id)) fun _ => rfl
  handle name := h.same (f := (World.handleNamed? · name)) fun _ => rfl
  active r i := h.same (f := (World.isActive · r i)) fun w => isActive_bare w r i
  count r := h.same (f := (World.countOf · r)) fun w => countOf_bare w r
  publish := h.publish
  register r name sink := agree_iff_both.mp (h.register r name sink)
  unregister r i := agree_iff_both.mp (h.unregister r i)
  remove k := agree_iff_both.mp (h.remove hu hv k)

end SameBare

/-- Once there is a last report, the same calls of shutdown have come back to a sink. -/
def SameReturns (id : SubscriberId) (u v : World) : Prop :=
  u.anyReported = true ∨ v.anyReported = true → u.shutdownReturns id = v.shutdownReturns id

theorem SameReturns.of_sparesListeners (h : SameReturns id u' v') (hu : u.SparesListeners u')
    (hv : v.SparesListeners v') (hcu : u'.shutdownReturns id = u.shutdownReturns id)
    (hcv : v'.shutdownReturns id = v.shutdownReturns id) :
    SameReturns id u v := by
  intro hr
  rw [← hcu, ← hcv]
  exact h (hr.imp hu.anyReported hv.anyReported)

theorem SameReturns.of_conclude {x y : World × Outcome} {m : Message} {d e : Option Nat}
    (h : SameReturns id (x.1.conclude i r m d x.2) (y.1.conclude i r m e y.2)) :
    SameReturns id x.1 y.1 :=
  h.of_sparesListeners ((SparesListeners.deliveries i).conclude ..)
    ((SparesListeners.deliveries i).conclude ..)
    (shutdownReturns_conclude ..) (shutdownReturns_conclude ..)

/-- In the second world a sink waits for a call of shutdown that has come back to it in the first
one, after a last report. -/
structure ReturnsAhead (id : SubscriberId) (x y : World × Effect) : Prop where
  less : y.1.shutdownReturns id < x.1.shutdownReturns id
  reported : x.1.anyReported = true
  waits : ∃ wait, y.2 = .waits wait

theorem act_actAll (w : World) (id : SubscriberId) (a : Action) (as : List Action) :
    (w.act id a).1.shutdownReturns id ≤ (w.actAll id (a :: as)).1.shutdownReturns id ∧
      (w.act id a).1.SparesListeners (w.actAll id (a :: as)).1 := by
  rw [actAll]
  split <;> rename_i he <;> rw [he]
  · exact ⟨(Plain.calls.actAll _ id as).shutdownReturns_le id, SparesListeners.calls.actAll ..⟩
  · exact ⟨Nat.le_refl _, .refl _⟩
  · exact ⟨Nat.le_refl _, .refl _⟩

/-- The second world does not catch up, whatever the first one goes on to do. -/
theorem ReturnsAhead.differ {x y : World × Effect} (h : ReturnsAhead id x y)
    (hle : x.1.shutdownReturns id ≤ w.shutdownReturns id) (hw : x.1.SparesListeners w) :
    ¬ SameReturns id w y.1 ∧ ¬ SameReturns id y.1 w := by
  have hlt := Nat.lt_of_lt_of_le h.less hle
  have hreported := hw.anyReported h.reported
  exact ⟨fun he => Nat.ne_of_gt hlt (he (.inl hreported)),
    fun he => Nat.ne_of_lt hlt (he (.inr hreported))⟩

theorem ReturnsAhead.actAll {a : Action} (h : ReturnsAhead id (u.act id a) (v.act id a))
    (as : List Action) : ¬ SameReturns id (u.actAll id (a :: as)).1 (v.actAll id (a :: as)).1 ∧
      ¬ SameReturns id (v.actAll id (a :: as)).1 (u.actAll id (a :: as)).1 := by
  have hv : (v.actAll id (a :: as)).1 = (v.act id a).1 := by
    obtain ⟨wait, hwait⟩ := h.waits
    cases he : v.act id a with
    | mk w e =>
      rw [he] at hwait
      obtain rfl : e = .waits wait := hwait
      rw [World.actAll, he]
  obtain ⟨hle, hspares⟩ := u.act_actAll id a as
  rw [hv]
  exact h.differ hle hspares

namespace SameBare

theorem returns (h : u.SameBare v) (c : Nat) :
    u.result? c = none ∧ v.result? c = none ∨
    (∃ x, u.result? c = some x ∧ v.result? c = some x) ∨
    (∃ x, u.result? c = some x) ∧ v.result? c = none ∨
    u.result? c = none ∧ ∃ x, v.result? c = some x := by
  cases hu : u.result? c with
  | none =>
    cases hv : v.result? c with
    | none => exact .inl ⟨rfl, rfl⟩
    | some x => exact .inr (.inr (.inr ⟨rfl, x, rfl⟩))
  | some x =>
    cases hv : v.result? c with
    | none => exact .inr (.inr (.inl ⟨⟨x, rfl⟩, rfl⟩))
    | some y => exact .inr (.inl ⟨x, rfl, by rw [h.result hu hv]⟩)

/-- A call comes back in one world only, after the last report. -/
theorem returnsAhead (h : u.SameBare v) {x : Option RelayError} {wait : Wait}
    (hu : (u.row id (.called "shutdown" (.ofShutdown x))).Visited) (hv : v.Visited)
    (hx : u.result? c = some x) (hy : v.result? c = none) :
    ReturnsAhead id (u.row id (.called "shutdown" (.ofShutdown x)), .proceed) (v, .waits wait) := by
  have hsame := h.shutdownReturns id
  have hcalls : (u.row id (.called "shutdown" (.ofShutdown x))).Concur v :=
    ⟨h.calls.size, h.calls.calls⟩
  obtain ⟨k, -, hk⟩ := hcalls.reported hu hv hx hy
  refine ⟨?_, anyReported_iff.mpr ⟨_, hk⟩, _, rfl⟩
  dsimp only
  rw [shutdownReturns_called]
  omega

theorem act_shutdown (h : u.SameBare v) (id : SubscriberId) (hu : (u.act id .shutdown).1.Visited)
    (hv : (v.act id .shutdown).1.Visited) :
    Agree (u.act id .shutdown) (v.act id .shutdown) ∨
      ReturnsAhead id (u.act id .shutdown) (v.act id .shutdown) ∨
      ReturnsAhead id (v.act id .shutdown) (u.act id .shutdown) := by
  have hhome : u.home? id = v.home? id := h.same (f := (World.home? · id)) fun _ => rfl
  simp only [World.act, hhome] at hu hv ⊢
  cases hp : v.home? id with
  | none => exact .inl ⟨h.row id _, rfl⟩
  | some p =>
    obtain ⟨hbare, hcall⟩ := h.beginShutdown p.1 (some id)
    simp only [hp, hcall] at hu hv ⊢
    rcases hbare.returns (v.beginShutdown p.1 (some id)).2 with ⟨hx, hy⟩ | ⟨x, hx, hy⟩ |
      ⟨⟨x, hx⟩, hy⟩ | ⟨hx, x, hy⟩ <;> simp only [hx, hy] at hu hv ⊢
    · exact .inl ⟨hbare, rfl⟩
    · exact .inl ⟨hbare.row id _, rfl⟩
    · exact .inr (.inl (hbare.returnsAhead hu hv hx hy))
    · exact .inr (.inr (hbare.symm.returnsAhead hv hu hy hx))

theorem act (h : u.SameBare v) (hu : u.CallsShut) (hv : v.CallsShut) (id : SubscriberId)
    (a : Action) (hu' : (u.act id a).1.Visited) (hv' : (v.act id a).1.Visited) :
    Agree (u.act id a) (v.act id a) ∨ ReturnsAhead id (u.act id a) (v.act id a) ∨
      ReturnsAhead id (v.act id a) (u.act id a) := by
  by_cases ha : a = .shutdown
  · subst ha
    exact h.act_shutdown id hu' hv'
  · exact .inl (agree_iff_both.mpr ((parallel id).act h (h.sameAnswers hu hv id) ha))

end SameBare

def Held (w : World) (l : Slice) : Prop := l.call = none ∧ ∃ ps, Moment.Walked ⟨w, some l, ps⟩

end World

theorem Moment.Reached.callsShut {a : Moment} (ha : a.Reached) : a.world.CallsShut := by
  intro k hk
  obtain ⟨c, hc⟩ := Array.mem_iff_getElem?.mp hk
  exact ha.sound.shut k.relay (ha.call_closed hc)

namespace World

variable {u v w : World} {id : SubscriberId} {r c : Nat} {l : Slice}

theorem Held.callsShut (h : w.Held l) : w.CallsShut := by
  obtain ⟨-, ps, hw⟩ := h
  exact hw.reached.callsShut

theorem Held.visited (h : w.Held l) : w.Visited := ⟨_, h.2⟩

theorem Held.leads (h : w.Held l) (hv : Leads w (some l) v (some l)) : v.Held l := by
  obtain ⟨hl, ps, hw⟩ := h
  obtain ⟨qs, hwalk⟩ := hv ps
  exact ⟨hl, qs, hw.trans hwalk.walk⟩

theorem Held.act (h : w.Held l) {a : Action} (he : (w.act l.id a).2 = .proceed) :
    (w.act l.id a).1.Held l := by
  have hleads := leads_act w h.1 a
  have hnone : Effect.proceed.call? = l.call := h.1.symm
  have hslice : { l with call := (w.act l.id a).2.call? } = l := by rw [he, hnone]
  rw [hslice] at hleads
  exact h.leads hleads

theorem Held.visited_act (h : w.Held l) (a : Action) : (w.act l.id a).1.Visited := by
  obtain ⟨hl, ps, hw⟩ := h
  obtain ⟨qs, hwalk⟩ := leads_act w hl a ps
  exact ⟨_, qs, hw.trans hwalk.walk⟩

namespace SameBare

theorem actAll (h : u.SameBare v) (hu : u.Held l) (hv : v.Held l) (as : List Action)
    (hc : SameReturns l.id (u.actAll l.id as).1 (v.actAll l.id as).1) :
    Both SameBare (u.actAll l.id as) (v.actAll l.id as) := by
  refine (parallel l.id).actAll (Q := fun u v as => u.Held l ∧ v.Held l ∧
    SameReturns l.id (u.actAll l.id as).1 (v.actAll l.id as).1) ?_ h ⟨hu, hv, hc⟩
  intro u v a as h ⟨hu, hv, hc⟩
  rcases h.act hu.callsShut hv.callsShut l.id a (hu.visited_act a) (hv.visited_act a) with
    hagree | hless | hless
  · refine ⟨agree_iff_both.mp hagree, fun hpu hpv => ⟨hu.act hpu, hv.act hpv, ?_⟩⟩
    rw [World.actAll, World.actAll] at hc
    generalize u.act l.id a = x at hc hpu
    generalize v.act l.id a = y at hc hpv
    obtain ⟨u', e⟩ := x
    obtain ⟨v', e'⟩ := y
    obtain rfl : e = .proceed := hpu
    obtain rfl : e' = .proceed := hpv
    exact hc
  -- A call of shutdown that came back in one world only would make the counts differ in the end.
  · exact absurd hc (hless.actAll as).1
  · exact absurd hc (hless.actAll as).2

end SameBare

def Polls (w : World) (id : SubscriberId) (r : Nat) (d : Delivery) : Prop :=
  ∃ ps, Moment.Walked ⟨w, some ⟨id, r, d.message, d.deadline, d.wait.call?⟩, ps⟩

theorem Reachable.polls (hw : w.Reachable) {s : Subscriber} {d : Delivery}
    (hs : w.subscriber? id = some s) (hp : s.phase = .delivering d) (hc : s.cancelled = false) :
    w.Polls id s.relay d := by
  obtain ⟨ps, hwalked⟩ := walked_of_reachable hw
  exact ⟨ps, hwalked.trans (.single (.transition (.poll rfl hs hp hc) (.refl w)))⟩

theorem Reachable.held_take (hw : w.Reachable) {s : Subscriber} {m : Message}
    {queue : List Message} (hs : w.subscriber? id = some s) (hp : s.phase = .idle)
    (hc : s.cancelled = false) (hq : s.queue = m :: queue) :
    (w.take id m queue).Held ⟨id, s.relay, m, w.deadlineFor s.relay, none⟩ := by
  obtain ⟨ps, hwalked⟩ := walked_of_reachable hw
  have hstep : WalkStep ⟨w, none, ps⟩ _ :=
    .transition (.begin rfl hs hp hc hq) ((SparesListeners.deliveries id).take w m queue)
  exact ⟨rfl, ps, hwalked.trans (.single hstep)⟩

theorem Polls.held {d : Delivery} (h : w.Polls id r d) (hd : d.wait.call? = none) :
    w.Held ⟨id, r, d.message, d.deadline, none⟩ := by
  obtain ⟨ps, hw⟩ := h
  rw [hd] at hw
  exact ⟨rfl, ps, hw⟩

theorem Polls.drives {d : Delivery} (h : w.Polls id r d) (hd : d.wait = .call c) :
    ∃ ps, Moment.Walked ⟨w.driveCall c, some ⟨id, r, d.message, d.deadline, some c⟩, ps⟩ := by
  obtain ⟨ps, hw⟩ := h
  rw [hd] at hw
  have hdrive : Leads w (some ⟨id, r, d.message, d.deadline, some c⟩) (w.driveCall c)
      (some ⟨id, r, d.message, d.deadline, some c⟩) := leads_driveCall rfl
  obtain ⟨qs, hwalk⟩ := hdrive ps
  exact ⟨qs, hw.trans hwalk.walk⟩

theorem Polls.held_back {d : Delivery} (h : w.Polls id r d) (hd : d.wait = .call c)
    {x : Option RelayError} (hx : (w.driveCall c).result? c = some x) :
    ((w.driveCall c).row id (.called "shutdown" (.ofShutdown x))).Held
      ⟨id, r, d.message, d.deadline, none⟩ := by
  obtain ⟨ps, hw⟩ := h.drives hd
  have hrow := leads_row (w.driveCall c) ⟨id, r, d.message, d.deadline, none⟩
    (x := .called "shutdown" (.ofShutdown x)) rfl
  have hback : Leads (w.driveCall c) (some ⟨id, r, d.message, d.deadline, some c⟩)
      (w.driveCall c) (some ⟨id, r, d.message, d.deadline, none⟩) := leads_back rfl hx
  obtain ⟨qs, hwalk⟩ := (hback.trans hrow) ps
  exact ⟨rfl, qs, hw.trans hwalk.walk⟩

namespace SameBare

theorem poll (h : u.SameBare v) {d : Delivery} (hu : u.Polls id r d) (hv : v.Polls id r d)
    (hc : SameReturns id (u.poll id d).1 (v.poll id d).1) :
    Both SameBare (u.poll id d) (v.poll id d) := by
  cases hw : d.wait with
  | call c =>
    have hbare := h.driveCall c
    have hless : ∀ {u v : World} {x : Option RelayError}
        (_ : ReturnsAhead id (u.row id (.called "shutdown" (.ofShutdown x)), .proceed)
          (v, .waits d.wait)),
        ¬ SameReturns id ((u.row id (.called "shutdown" (.ofShutdown x))).actAll id d.rest).1 v ∧
          ¬ SameReturns id v ((u.row id (.called "shutdown" (.ofShutdown x))).actAll id d.rest).1 :=
      fun ho => ho.differ ((Plain.calls.actAll _ id d.rest).shutdownReturns_le id)
        (SparesListeners.calls.actAll ..)
    simp only [World.poll, hw] at hc ⊢
    rcases hbare.returns c with ⟨hx, hy⟩ | ⟨x, hx, hy⟩ | ⟨⟨x, hx⟩, hy⟩ | ⟨hx, x, hy⟩ <;>
      rw [hx, hy] at hc ⊢ <;> dsimp only at hc ⊢
    · exact ⟨hbare, rfl⟩
    · exact (hbare.row id _).actAll (hu.held_back hw hx) (hv.held_back hw hy) d.rest hc
    · exact absurd hc
        (hless (hbare.returnsAhead (hu.held_back hw hx).visited ⟨_, hv.drives hw⟩ hx hy)).1
    · exact absurd hc
        (hless (hbare.symm.returnsAhead (hv.held_back hw hy).visited ⟨_, hu.drives hw⟩ hy hx)).2
  | turn | «until» | forever =>
    have hd : d.wait.call? = none := by rw [hw]; rfl
    refine (parallel id).poll h hd fun hover => ?_
    have hover' : v.waitOver d.wait = true := (waitOver_congr hd h.now).symm.trans hover
    rw [poll_of_over hd hover, poll_of_over hd hover'] at hc
    exact h.actAll (hu.held hd) (hv.held hd) d.rest hc

theorem begin (h : u.SameBare v) {s : Subscriber} {m : Message} {queue : List Message}
    (hu : (u.take id m queue).Held ⟨id, s.relay, m, u.deadlineFor s.relay, none⟩)
    (hv : (v.take id m queue).Held ⟨id, s.relay, m, v.deadlineFor s.relay, none⟩)
    (hc : SameReturns id (u.begin id s m queue) (v.begin id s m queue)) :
    (u.begin id s m queue).SameBare (v.begin id s m queue) := by
  have hdeadline : u.deadlineFor s.relay = v.deadlineFor s.relay :=
    h.same (f := (World.deadlineFor · s.relay)) fun w => deadlineFor_bare w s.relay
  rw [hdeadline] at hu
  have htake := (parallel id).take m queue h
  have hstart := hc.of_conclude
  refine (parallel id).begin hdeadline ?_
  revert hstart
  unfold World.start
  split
  · exact fun _ => ⟨htake, rfl⟩
  · exact htake.actAll hu hv _

theorem stepWorker (h : u.SameBare v) (hu : u.Reachable) (hv : v.Reachable) (id : SubscriberId)
    (hc : SameReturns id (u.stepWorker id) (v.stepWorker id)) :
    (u.stepWorker id).SameBare (v.stepWorker id) := by
  have hsub := h.subscriber? id
  refine (parallel id).stepWorker h hsub (h.isFed hu.callsShut hv.callsShut id) ?_ ?_
  · intro s m queue hs hk hp hq
    have hs' := hsub.trans hs
    simp only [World.stepWorker, hs', hs, hp, hk, hq] at hc
    exact h.begin (hu.held_take hs' hp hk hq) (hv.held_take hs hp hk hq) hc
  · intro s d hs hk hp
    have hs' := hsub.trans hs
    simp only [World.stepWorker, hs', hs, hp, hk, proceed_eq] at hc
    exact (parallel id).proceed (h.poll (hu.polls hs' hp hk) (hv.polls hs hp hk) hc.of_conclude)

end SameBare
end World
end Fanout
