import Mathlib.Data.List.Nodup
import Fanout.Proofs.PartChanges

/-! # What a transition does to the relays

A transition changes at most one relay, in one of eight ways. The facts that every moment of a run
keeps about active subscribers and the running slice follow from them.
-/
namespace Fanout

/-- The last report on a bus. -/
inductive Event.Draft.IsFinal : Event.Draft → Prop where
  | drained : IsFinal ⟨.allDrainedWithin, []⟩
  | exceeded (pending : Nat) : IsFinal (.graceExceeded pending)

namespace World

inductive RelayChange (w v : World) : Prop where
  | still : (∀ n, v.active n = w.active n) → (∀ n, v.closed n = w.closed n) →
    (∀ n, v.events n = w.events n) →
    (∀ n q, w.relay? n = some q → (v.relay? n).map Relay.config = some q.config) → RelayChange w v
  | enrolled (r : Nat) (name : String) : w.closed r = false →
    w.Reports r [.registered name ⟨w.subscribers.size⟩] v →
    (∀ n, v.active n = if r = n then w.active n ++ [⟨w.subscribers.size⟩] else w.active n) →
    (∀ n, v.closed n = w.closed n) → w.relayExists r = true → RelayChange w v
  | withdrawn (r : Nat) (id : SubscriberId) : id ∈ w.active r →
    w.Reports r [.unregistered (w.nameOf id) id] v →
    (∀ n, v.active n = if r = n then (w.active n).erase id else w.active n) →
    (∀ n, v.closed n = w.closed n) → w.relayExists r = true → RelayChange w v
  | ignored (r : Nat) : w.closed r = false → w.active r = [] →
    w.Reports r [⟨.publishedWithoutSubscribers, []⟩] v → (∀ n, v.active n = w.active n) →
    (∀ n, v.closed n = w.closed n) → w.relayExists r = true → RelayChange w v
  | published (r : Nat) : w.closed r = false → w.active r ≠ [] →
    w.Reports r ((w.drops (w.active r)).map (fun d => .fault (w.nameOf d.1) d.1 d.2) ++
      [.published ((w.active r).length - (w.drops (w.active r)).length)]) v →
    (∀ n, v.active n = w.active n) → (∀ n, v.closed n = w.closed n) →
    w.relayExists r = true → RelayChange w v
  | shut (r : Nat) : w.closed r = false →
    w.Reports r (⟨.shutdownRequested, []⟩ ::
      (w.active r).map fun id => .unregistered (w.nameOf id) id) v →
    (∀ n, v.active n = if r = n then [] else w.active n) →
    (∀ n, v.closed n = if r = n then true else w.closed n) → w.relayExists r = true →
      RelayChange w v
  | faulted (r : Nat) (id : SubscriberId) (s : Subscriber) (f : SinkFault) :
    w.subscriber? id = some s → s.relay = r → s.live = true → f.endsDelivery = true →
    w.Reports r [.fault (w.nameOf id) id f] v → (∀ n, v.active n = w.active n) →
    (∀ n, v.closed n = w.closed n) → RelayChange w v
  | ended (c : Nat) (k : Call) (d : Event.Draft) (result : Option RelayError) :
    w.call? c = some k → k.phase.unsettled = true → w.liveWorkers k.relay = 0 → d.IsFinal →
    w.Reports k.relay [d] v → (∀ n, v.active n = w.active n) →
    (∀ n, v.closed n = w.closed n) → v.subscribers = w.subscribers →
    v.call? c = some { k with phase := .flushing result } → RelayChange w v

variable {w v : World}

theorem RelayChange.of_relays (hr : v.relays = w.relays) : RelayChange w v := by
  refine .still (active_of_relays hr) (closed_of_relays hr) (events_of_relays hr) ?_
  intro n q hq
  rw [relay?, hr]
  exact congrArg (Option.map Relay.config) hq

theorem RelayChange.of_sameCore (hv : w.SameCore v) : RelayChange w v := by
  refine .still hv.active hv.closed hv.events fun n q hq => ?_
  have hr := congrArg (Option.map Relay.config) (hv.relays n)
  rw [Option.map_map, Option.map_map, hq] at hr
  exact hr

theorem relayChange_build (w : World) (name : String) (config : Config)
    (observers : List Observer) : RelayChange w (w.build name config observers).1 := by
  refine .still (active_build w name config observers) (closed_build w name config observers)
    (events_build w name config observers) fun n q hq => ?_
  rcases relay?_build w name config observers n with he | ⟨hn, -⟩
  · rw [he, hq]
    rfl
  · rw [hn] at hq
    cases hq

theorem relayChange_register {r : Nat} (hex : w.relayExists r = true) (name : String)
    (sink : Sink) : RelayChange w (w.register r name sink).1 := by
  have hstep := w.registerStep r name sink
  generalize (w.register r name sink).1 = v at hstep
  cases hstep with
  | panics | ignored => exact .of_relays rfl
  | @enrolls title capacity ho hr =>
    let s : Subscriber :=
      { relay := r, relayName := name, sink := sink, name := title, capacity := capacity }
    exact .enrolled r title ho (reports_enroll hr s) (active_enroll hr s)
      (fun n => closed_enroll w r n s) hex

theorem relayChange_unregister {r : Nat} (hex : w.relayExists r = true) (id : SubscriberId) :
    RelayChange w (w.unregister r id).1 := by
  by_cases hi : id ∈ w.active r
  · rw [unregister_of_mem hi]
    exact .withdrawn r id hi (reports_withdraw (lt_size_of_mem_active hi) id)
      (active_withdraw w r id) (closed_withdraw w r id) hex
  · rw [unregister_of_notMem hi]
    exact .of_relays rfl

theorem relayChange_publish {r : Nat} (hex : w.relayExists r = true) (m : Message) :
    RelayChange w (w.publish r m) := by
  have hstep := w.publishStep r m
  generalize w.publish r m = v at hstep
  cases hstep with
  | missing | ignored => exact .of_relays rfl
  | unheard hc hr ha =>
    have ht : w.Reports r [] (w.trace .publishedToNobody) := .nil rfl rfl rfl
    exact .ignored r hc ha (ht.append (.emit (w := w.trace .publishedToNobody) hr _))
      (fun n => active_emit ..) (fun n => closed_emit ..) hex
  | fansOut hc hr ha =>
    exact .published r hc ha (reports_fanOut hr _ m) (active_fanOut w r _ m)
      (closed_fanOut w r _ m) hex

theorem relayChange_openCall {r : Nat} (hex : w.relayExists r = true)
    (owner : Option SubscriberId) : RelayChange w (w.openCall r owner) := by
  have hstep := w.openCallStep r owner
  generalize w.openCall r owner = v at hstep
  cases hstep with
  | missing | late => exact .of_relays rfl
  | @closes q hc hq =>
    have hr := lt_size_of_relay? hq
    have ha : w.active r = q.active := by simp [active, hq]
    have hp : w.Reports r _ { w.close r q with
        calls := w.calls.push ⟨r, owner, .draining (w.after q.config.grace)⟩ } :=
      (reports_close hr).sameCore rfl rfl rfl
    rw [← ha] at hp
    exact .shut r hc hp (active_close w r q) (closed_close hr q) hex

theorem relayChange_stepCall {c : Nat} (hr : ∀ k, w.call? c = some k → k.relay < w.relays.size) :
    RelayChange w (w.stepCall c) := by
  have hend : ∀ {k d result}, w.call? c = some k → k.phase.unsettled = true →
      w.liveWorkers k.relay = 0 → d.IsFinal → RelayChange w (w.flush c k.relay d result) := by
    intro k d result hk hp hl hd
    refine .ended c k d result hk hp hl hd (reports_flush (hr k hk) ..)
      (fun n => active_flush w c _ _ _ n) (fun n => closed_flush w c _ _ _ n) rfl ?_
    exact (call?_setPhase ..).trans (by rw [if_pos rfl]; exact congrArg (Option.map _) hk)
  have hc := w.callStep c
  generalize w.stepCall c = v at hc ⊢
  cases hc with
  | stays => exact .of_relays rfl
  | drained hk hp hl => exact hend hk (by rw [hp]; rfl) hl .drained
  | expired => exact .of_relays rfl
  | stopped hk hp hl => exact hend hk (by rw [hp]; rfl) hl (.exceeded _)
  | returns => exact .of_relays rfl

theorem relayChange_giveUp (w : World) (c : Nat) : RelayChange w (w.giveUp c) := by
  rw [giveUp]
  split <;> exact .of_relays rfl

theorem relayChange_contain {id : SubscriberId} {s : Subscriber} {f : SinkFault}
    (hs : w.subscriber? id = some s) (hl : s.live = true) (hr : s.relay < w.relays.size)
    (hf : f.endsDelivery = true) : RelayChange w (w.contain id s.relay f) :=
  .faulted s.relay id s f hs rfl hl hf (reports_contain hr id f) (active_contain w id _ f)
    (closed_contain w id _ f)

theorem relayChange_overrun {id : SubscriberId} {s : Subscriber} {f : SinkFault}
    (hs : w.subscriber? id = some s) (hl : s.live = true) (hr : s.relay < w.relays.size)
    (hf : f.endsDelivery = true) (wait : Wait) :
    RelayChange w ((w.abandon id wait).contain id s.relay f) := by
  obtain ⟨calls, he⟩ := w.abandon_eq id wait
  rw [he]
  let u : World := { w.row id .aborted with calls := calls }
  have hu : w.Reports s.relay [] u := .nil rfl rfl rfl
  exact .faulted s.relay id s f hs rfl hl hf (hu.append (reports_contain (w := u) hr id f))
    (active_contain u id _ f) (closed_contain u id _ f)

theorem relayChange_abort (w : World) (id : SubscriberId) (wait : Wait) :
    RelayChange w (((w.abandon id wait).note (.concluded id .cancelled)).stopWorker id) := by
  obtain ⟨calls, he⟩ := w.abandon_eq id wait
  rw [he]
  exact .of_relays rfl

theorem RelayChange.config (h : RelayChange w v) {n : Nat} {q : Relay} (hq : w.relay? n = some q) :
    ∃ p, v.relay? n = some p ∧ p.config = q.config := by
  have hreports : ∀ {r ds}, w.Reports r ds v → (v.relay? n).map Relay.config = some q.config := by
    intro r ds hv
    rw [hv.configs, hq]
    rfl
  have hm : (v.relay? n).map Relay.config = some q.config := by
    cases h with
    | still _ _ _ hc => exact hc n q hq
    | enrolled _ _ _ hv | withdrawn _ _ _ hv | ignored _ _ _ hv | published _ _ _ hv
    | shut _ _ hv | faulted _ _ _ _ _ _ _ _ hv | ended _ _ _ _ _ _ _ _ hv => exact hreports hv
  exact Option.map_eq_some_iff.mp hm

theorem RelayChange.relays_le (h : RelayChange w v) : w.relays.size ≤ v.relays.size := by
  by_cases hn : v.relays.size < w.relays.size
  · obtain ⟨p, hp, -⟩ := h.config (n := v.relays.size) (Array.getElem?_eq_getElem hn)
    exact absurd (lt_size_of_relay? hp) (Nat.lt_irrefl _)
  · omega

/-- A closed relay stays closed. -/
theorem RelayChange.stays_closed (h : RelayChange w v) {n : Nat} (hn : w.closed n = true) :
    v.closed n = true := by
  cases h with
  | still _ hc | enrolled _ _ _ _ _ hc | withdrawn _ _ _ _ _ hc | ignored _ _ _ _ _ hc
  | published _ _ _ _ _ hc | faulted _ _ _ _ _ _ _ _ _ _ hc | ended _ _ _ _ _ _ _ _ _ _ hc =>
    exact (hc n).trans hn
  | shut r _ _ _ hc =>
    rw [hc]
    split
    · rfl
    · exact hn

theorem RelayChange.nodup (h : RelayChange w v) (hw : ∀ r, (w.active r).Nodup)
    (hf : ∀ r, ⟨w.subscribers.size⟩ ∉ w.active r) (n : Nat) : (v.active n).Nodup := by
  cases h with
  | still ha | ignored _ _ _ _ ha | published _ _ _ _ ha | faulted _ _ _ _ _ _ _ _ _ ha
  | ended _ _ _ _ _ _ _ _ _ ha =>
    rw [ha]
    exact hw n
  | enrolled r _ _ _ ha =>
    rw [ha]
    split
    · rw [← List.concat_eq_append]
      exact List.Nodup.concat (hf n) (hw n)
    · exact hw n
  | withdrawn r id _ _ ha =>
    rw [ha]
    split
    · exact (hw n).erase id
    · exact hw n
  | shut r _ _ ha =>
    rw [ha]
    split
    · exact List.nodup_nil
    · exact hw n

theorem RelayChange.shut_active (h : RelayChange w v)
    (hw : ∀ r, w.closed r = true → w.active r = [])
    {n : Nat} (hn : v.closed n = true) : v.active n = [] := by
  cases h with
  | still ha hc | ignored _ _ _ _ ha hc | published _ _ _ _ ha hc
  | faulted _ _ _ _ _ _ _ _ _ ha hc | ended _ _ _ _ _ _ _ _ _ ha hc =>
    rw [ha]
    exact hw n ((hc n).symm.trans hn)
  | enrolled r _ ho _ ha hc =>
    rw [hc] at hn
    rw [ha, if_neg]
    · exact hw n hn
    · rintro rfl
      rw [ho] at hn
      cases hn
  | withdrawn r id _ _ ha hc =>
    rw [hc] at hn
    rw [ha, hw n hn]
    split <;> rfl
  | shut r _ _ ha hc =>
    rw [ha]
    split
    · rfl
    · rename_i hr
      rw [hc, if_neg hr] at hn
      exact hw n hn

end World

open World

theorem Transition.relayChange {a b : Moment} (h : Transition a b) (ha : a.Sound) :
    RelayChange a.world b.world := by
  cases h with
  | sameCore hv => exact .of_sameCore hv
  | build name config observers => exact relayChange_build ..
  | register r name sink hr => exact relayChange_register hr name sink
  | unregister r id hr => exact relayChange_unregister hr id
  | publish r m hr => exact relayChange_publish hr m
  | shutdown r hr => exact relayChange_openCall hr _
  | call c => exact relayChange_stepCall (ha.calls c)
  | giveUp c => exact relayChange_giveUp ..
  | begin | crash | poll | row | back => exact .of_relays rfl
  | abort => exact relayChange_abort ..
  | stop => exact .of_relays rfl
  | @conclude l o hl hf =>
    obtain ⟨s, hs, hr, hv⟩ := ha.slice l hl
    have hz := ha.housed l.id s hs
    cases o with
    | ended f =>
      cases f with
      | none => exact .of_relays rfl
      | some f =>
        rw [← hr]
        exact relayChange_contain hs hv hz (SinkFault.endsDelivery_of_isOwn hf.2)
    | crashed => exact hf.elim
    | waits wait rest =>
      rw [World.conclude, World.waitOn]
      split
      · rw [← hr]
        exact relayChange_overrun hs hv hz rfl wait
      · exact .of_relays rfl

end Fanout
