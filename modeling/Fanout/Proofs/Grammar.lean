import Fanout.Proofs.Log
import Fanout.Proofs.Settled

/-! # The grammar of a bus

The events on the bus of a relay are always a log that can be read to its end, and the log then
tells the active subscribers. Nothing is reported any more once a shutdown has said how it went:
all workers are gone then, for good.
-/
namespace Fanout

variable {a b : Moment} {r : Nat}

namespace Log

variable {g : Log}

theorem reads_drops (ds : List (SubscriberId × SinkFault)) (name : SubscriberId → String)
    (time seq : Nat) (ho : g.stage = .opened) (hd : ∀ d ∈ ds, d.1 ∈ g.active ∧
      (EventKind.ofFault d.2 = .sinkOverflow ∨ EventKind.ofFault d.2 = .sinkWorkerGone)) :
    Reads g (Event.stampAll time seq (ds.map fun d => .fault (name d.1) d.1 d.2))
      { g with drops := g.drops + ds.length } := by
  induction ds generalizing g seq with
  | nil => exact .nil
  | cons d ds ih =>
    obtain ⟨⟨hm, hk⟩, hds⟩ := List.forall_mem_cons.mp hd
    have hdrop : ((Event.Draft.fault (name d.1) d.1 d.2).stamp seq time).isDrop = true := by
      rw [Event.isDrop, Event.Draft.kind_stamp]
      exact decide_eq_true hk
    have hn := Next.dropped hdrop (World.id_fault ..) ho hm
    have hr := ih (g := { g with drops := g.drops + 1 }) (seq + 1) ho hds
    rw [List.length_cons, Nat.add_comm ds.length, ← Nat.add_assoc]
    exact .cons hn hr

theorem reads_removals {ids : List SubscriberId} (name : SubscriberId → String)
    (time seq : Nat) (hd : g.drops = 0) (hn : ids.Nodup) :
    Reads { g with active := ids }
      (Event.stampAll time seq (ids.map fun i => .unregistered (name i) i))
      { g with active := [] } := by
  induction ids generalizing seq with
  | nil => exact .nil
  | cons i ids ih =>
    obtain ⟨hni, hn⟩ := List.nodup_cons.mp hn
    have hnext := Next.unregistered (g := { g with active := i :: ids })
      (e := (Event.Draft.unregistered (name i) i).stamp seq time) rfl rfl hd List.mem_cons_self
    have hrest : (i :: ids).filter (· != i) = ids := by
      rw [List.filter_cons_of_neg (by simp), List.filter_eq_self]
      intro j hj
      exact bne_iff_ne.mpr fun he => hni (he ▸ hj)
    dsimp only at hnext
    rw [hrest] at hnext
    exact .cons hnext (ih (seq + 1) hn)

end Log

structure Moment.Logged (a : Moment) (r : Nat) (g : Log) : Prop where
  reads : Log.Reads {} (a.world.events r) g
  active : g.active = a.world.active r
  drops : g.drops = 0
  opened : g.stage = .opened ↔ a.world.closed r = false
  done : g.stage = .done → a.world.Settled r
  seen : ∀ i ∈ g.seen, ∃ s, a.world.subscriber? i = some s

namespace Moment.Logged

variable {g k : Log}

theorem closed (hg : a.Logged r g) (hc : a.world.closed r = true) (hs : ¬ a.world.Settled r) :
    g.stage = .closed := by
  cases hst : g.stage with
  | opened =>
    rw [hg.opened.mp hst] at hc
    cases hc
  | closed => rfl
  | done => exact absurd (hg.done hst) hs

theorem frame (hg : a.Logged r g) (h : Transition a b) (ha : a.Sound)
    (he : b.world.events r = a.world.events r) (hact : b.world.active r = a.world.active r)
    (hcl : b.world.closed r = a.world.closed r) : b.Logged r g where
  reads := he ▸ hg.reads
  active := hg.active.trans hact.symm
  drops := hg.drops
  opened := hcl ▸ hg.opened
  done hd := h.settled ha (hg.done hd)
  seen i hi := by
    obtain ⟨s, hs⟩ := hg.seen i hi
    obtain ⟨t, ht, -⟩ := Transitions.subscriber (.single h) ha hs
    exact ⟨t, ht⟩

theorem extend (hg : a.Logged r g) (h : Transition a b) (ha : a.Sound) {ds : List Event.Draft}
    (hv : a.world.Reports r ds b.world)
    (hr : g.Reads (Event.stampAll a.world.now a.world.nextSeq ds) k)
    (hact : k.active = b.world.active r) (hd : k.drops = 0)
    (ho : k.stage = .opened ↔ b.world.closed r = false)
    (hdone : k.stage = .done → b.world.Settled r)
    (hseen : ∀ i ∈ k.seen, i ∈ g.seen ∨ ∃ s, b.world.subscriber? i = some s) :
    b.Logged r k where
  reads := by
    rw [hv.events, if_pos rfl]
    exact hg.reads.append hr
  active := hact
  drops := hd
  opened := ho
  done := hdone
  seen i hi := by
    rcases hseen i hi with hi | hi
    · obtain ⟨s, hs⟩ := hg.seen i hi
      obtain ⟨t, ht, -⟩ := Transitions.subscriber (.single h) ha hs
      exact ⟨t, ht⟩
    · exact hi

variable {id : SubscriberId}

theorem enrolled (hg : a.Logged r g) (h : Transition a b) (ha : a.Sound) {name : String}
    (ho : a.world.closed r = false)
    (hv : a.world.Reports r [.registered name ⟨a.world.subscribers.size⟩] b.world)
    (hact : b.world.active r = a.world.active r ++ [⟨a.world.subscribers.size⟩])
    (hcl : b.world.closed r = a.world.closed r) : ∃ k, b.Logged r k := by
  have hst := hg.opened.mpr ho
  have hnew : ⟨a.world.subscribers.size⟩ ∉ g.seen := by
    intro hi
    obtain ⟨s, hs⟩ := hg.seen _ hi
    exact World.serial_ne_size hs rfl
  have hnext := Log.Next.registered
    (e := (Event.Draft.registered name ⟨a.world.subscribers.size⟩).stamp a.world.nextSeq
      a.world.now) rfl rfl hst hg.drops hnew
  refine ⟨_, hg.extend h ha hv (.cons hnext .nil) ?_ hg.drops (hcl ▸ hg.opened) ?_ ?_⟩
  · rw [hact, ← hg.active]
  · intro hd
    cases hst.symm.trans hd
  · intro i hi
    rcases List.mem_append.mp hi with hi | hi
    · exact .inl hi
    · have hm : i ∈ b.world.active r := hact ▸ List.mem_append.mpr (.inr hi)
      obtain ⟨s, hs, -⟩ := (h.sound ha).member r i hm
      exact .inr ⟨s, hs⟩

theorem withdrawn (hg : a.Logged r g) (h : Transition a b) (ha : a.Sound)
    (hm : id ∈ a.world.active r)
    (hv : a.world.Reports r [.unregistered (a.world.nameOf id) id] b.world)
    (hact : b.world.active r = (a.world.active r).erase id)
    (hcl : b.world.closed r = a.world.closed r) : ∃ k, b.Logged r k := by
  have hnext := Log.Next.unregistered
    (e := (Event.Draft.unregistered (a.world.nameOf id) id).stamp a.world.nextSeq a.world.now)
    rfl rfl hg.drops (hg.active ▸ hm)
  refine ⟨_, hg.extend h ha hv (.cons hnext .nil) ?_ hg.drops (hcl ▸ hg.opened)
    (fun hd => h.settled ha (hg.done hd)) fun _ hi => .inl hi⟩
  rw [hact, hg.active]
  exact ((ha.nodup r).erase_eq_filter id).symm

theorem told (hg : a.Logged r g) (h : Transition a b) (ha : a.Sound) {d : Event.Draft}
    (hn : g.Next (d.stamp a.world.nextSeq a.world.now) g)
    (hv : a.world.Reports r [d] b.world) (hact : b.world.active r = a.world.active r)
    (hcl : b.world.closed r = a.world.closed r) : ∃ k, b.Logged r k :=
  ⟨g, hg.extend h ha hv (.cons hn .nil) (hg.active.trans hact.symm) hg.drops (hcl ▸ hg.opened)
    (fun hd => h.settled ha (hg.done hd)) fun _ hi => .inl hi⟩

theorem published (hg : a.Logged r g) (h : Transition a b) (ha : a.Sound)
    (ho : a.world.closed r = false) (he : a.world.active r ≠ [])
    (hv : a.world.Reports r
      ((a.world.drops (a.world.active r)).map
        (fun d => .fault (a.world.nameOf d.1) d.1 d.2) ++
        [.published ((a.world.active r).length - (a.world.drops (a.world.active r)).length)])
      b.world) (hact : b.world.active r = a.world.active r)
    (hcl : b.world.closed r = a.world.closed r) : ∃ k, b.Logged r k := by
  generalize hds : a.world.drops (a.world.active r) = ds at hv
  have hst := hg.opened.mpr ho
  have hdrop : ∀ d ∈ ds, d.1 ∈ g.active ∧
      (EventKind.ofFault d.2 = .sinkOverflow ∨ EventKind.ofFault d.2 = .sinkWorkerGone) := by
    rw [hg.active, ← hds]
    exact fun d hd => World.kind_of_mem_drops hd
  have hdrops := Log.reads_drops ds a.world.nameOf a.world.now a.world.nextSeq hst hdrop
  have hcount : g.drops + ds.length = ds.length := by rw [hg.drops, Nat.zero_add]
  have hle : g.drops + ds.length ≤ g.active.length := by
    rw [hcount, hg.active, ← hds]
    exact List.length_filterMap_le ..
  have hnext (seq : Nat) := Log.Next.published (g := { g with drops := g.drops + ds.length })
    (e := (Event.Draft.published ((a.world.active r).length - ds.length)).stamp seq a.world.now)
    rfl (by rw [hcount, hg.active]; rfl) hst (hg.active ▸ he) hle
  refine ⟨{ g with drops := 0 }, hg.extend h ha hv ?_ (hg.active.trans hact.symm) rfl
    (hcl ▸ hg.opened) (fun hd => h.settled ha (hg.done hd)) fun _ hi => .inl hi⟩
  rw [Event.stampAll_append]
  exact hdrops.append (.cons (hnext _) .nil)

theorem shut (hg : a.Logged r g) (h : Transition a b) (ha : a.Sound) (ho : a.world.closed r = false)
    (hv : a.world.Reports r (⟨.shutdownRequested, []⟩ ::
      (a.world.active r).map fun id => .unregistered (a.world.nameOf id) id) b.world)
    (hact : b.world.active r = []) (hcl : b.world.closed r = true) : ∃ k, b.Logged r k := by
  have hnext := Log.Next.shut
    (e := (⟨.shutdownRequested, []⟩ : Event.Draft).stamp a.world.nextSeq a.world.now) rfl
    (hg.opened.mpr ho) hg.drops
  have hrest := Log.reads_removals (g := { g with stage := .closed }) a.world.nameOf
    a.world.now (a.world.nextSeq + 1) hg.drops (ha.nodup r)
  rw [← hg.active] at hv hrest
  refine ⟨_, hg.extend h ha hv (.cons hnext hrest) hact.symm hg.drops ?_ ?_ fun _ hi => .inl hi⟩
  · simp [hcl]
  · intro hd
    cases hd

theorem faulted (hg : a.Logged r g) (h : Transition a b) (ha : a.Sound) {s : Subscriber}
    {f : SinkFault} (hs : a.world.subscriber? id = some s) (hr : s.relay = r)
    (hl : s.live = true) (hf : f.endsDelivery = true)
    (hv : a.world.Reports r [.fault (a.world.nameOf id) id f] b.world)
    (hact : b.world.active r = a.world.active r)
    (hcl : b.world.closed r = a.world.closed r) : ∃ k, b.Logged r k := by
  have hstage : g.stage = .opened ∨ g.stage = .closed ∧ g.active = [] := by
    cases hc : a.world.closed r with
    | false => exact .inl (hg.opened.mpr hc)
    | true =>
      refine .inr ⟨hg.closed hc fun hd => ?_, hg.active.trans (ha.shut r hc)⟩
      cases hl.symm.trans (hd.workers id s hs hr)
  refine hg.told h ha (.faulted ?_ hg.drops hstage) hv hact hcl
  rw [Event.Draft.kind_stamp]
  exact hf

theorem ended (hg : a.Logged r g) (h : Transition a b) (ha : a.Sound) {c : Nat} {k : Call}
    {d : Event.Draft} (hk : a.world.call? c = some k) (hr : k.relay = r)
    (hu : k.phase.unsettled = true) (hd : d.IsFinal) (hv : a.world.Reports r [d] b.world)
    (hact : b.world.active r = a.world.active r) (hcl : b.world.closed r = a.world.closed r)
    (hset : b.world.Settled r) : ∃ k, b.Logged r k := by
  have hc : a.world.closed r = true := hr ▸ ha.closing c k hk hu
  have hst := hg.closed hc fun hd => by cases hu.symm.trans (hd.calls c k hk hr)
  have hfinal : (d.stamp a.world.nextSeq a.world.now).isFinal = true := by cases hd <;> rfl
  have hnext := Log.Next.ended hfinal hst (hg.active.trans (ha.shut r hc)) hg.drops
  refine ⟨_, hg.extend h ha hv (.cons hnext .nil) (hg.active.trans hact.symm) hg.drops ?_
    (fun _ => hset) fun _ hi => .inl hi⟩
  simp [hcl, hc]

end Moment.Logged

theorem Transition.logged (h : Transition a b) (ha : a.Sound) {g : Log} (hg : a.Logged r g) :
    ∃ k, b.Logged r k := by
  have hother : ∀ {n ds}, a.world.Reports n ds b.world → n ≠ r →
      b.world.active r = a.world.active r → b.world.closed r = a.world.closed r →
      ∃ k, b.Logged r k := by
    intro n ds hv hn hact hcl
    have he := hv.events r
    rw [if_neg hn, List.append_nil] at he
    exact ⟨g, hg.frame h ha he hact hcl⟩
  cases h.relayChange ha with
  | still hact hcl hev => exact ⟨g, hg.frame h ha (hev r) (hact r) (hcl r)⟩
  | enrolled n name ho hv hact hcl =>
    by_cases hn : n = r
    · subst hn
      exact hg.enrolled h ha ho hv ((hact n).trans (if_pos rfl)) (hcl n)
    · exact hother hv hn ((hact r).trans (if_neg hn)) (hcl r)
  | withdrawn n id hm hv hact hcl =>
    by_cases hn : n = r
    · subst hn
      exact hg.withdrawn h ha hm hv ((hact n).trans (if_pos rfl)) (hcl n)
    · exact hother hv hn ((hact r).trans (if_neg hn)) (hcl r)
  | ignored n ho he hv hact hcl =>
    by_cases hn : n = r
    · subst hn
      exact hg.told h ha (.ignored rfl (hg.opened.mpr ho) hg.drops (hg.active.trans he)) hv
        (hact n) (hcl n)
    · exact hother hv hn (hact r) (hcl r)
  | published n ho he hv hact hcl =>
    by_cases hn : n = r
    · subst hn
      exact hg.published h ha ho he hv (hact n) (hcl n)
    · exact hother hv hn (hact r) (hcl r)
  | shut n ho hv hact hcl =>
    by_cases hn : n = r
    · subst hn
      exact hg.shut h ha ho hv ((hact n).trans (if_pos rfl)) ((hcl n).trans (if_pos rfl))
    · exact hother hv hn ((hact r).trans (if_neg hn)) ((hcl r).trans (if_neg hn))
  | faulted n id s f hs hr hl hf hv hact hcl =>
    by_cases hn : n = r
    · subst hn
      exact hg.faulted h ha hs hr hl hf hv (hact n) (hcl n)
    · exact hother hv hn (hact r) (hcl r)
  | ended c k d result hk hu hl hd hv hact hcl hsub hj =>
    by_cases hn : k.relay = r
    · subst hn
      have hset := h.settled_of_ended ha hk hu hl hsub hj rfl
      exact hg.ended h ha hk rfl hu hd hv (hact _) (hcl _) hset
    · exact hother hv hn (hact r) (hcl r)

theorem Moment.Reached.logged (ha : a.Reached) (r : Nat) : ∃ g, a.Logged r g := by
  induction ha with
  | refl =>
    refine ⟨{}, .nil, rfl, rfl, by simp [World.closed, World.relay?], fun hd => ?_, fun i hi => ?_⟩
    · cases hd
    · cases hi
  | tail hac hcd ih =>
    obtain ⟨g, hg⟩ := ih
    exact hcd.logged (Transitions.sound hac sound_empty) hg

/-- The events on the bus of a relay obey the grammar, and played back they leave just the
subscribers that are active: those with a registration and no removal after it. -/
theorem events_grammatical (ha : a.Reached) (r : Nat) :
    Log.Grammatical (a.world.events r) ∧ replay (a.world.events r) = a.world.active r ∧
      ∀ i, i ∈ a.world.active r ↔ ∃ pre e post, a.world.events r = pre ++ e :: post ∧
        e.registered? = some i ∧ ∀ f ∈ post, f.unregistered? ≠ some i := by
  obtain ⟨g, hg⟩ := ha.logged r
  have hreplay : replay (a.world.events r) = a.world.active r :=
    hg.reads.tells.active.symm.trans hg.active
  refine ⟨hg.reads.grammatical hg.drops fun hst => ?_, hreplay, fun i => ?_⟩
  · rw [hg.active]
    apply ha.sound.shut r
    cases hc : a.world.closed r with
    | true => rfl
    | false => exact absurd (hg.opened.mpr hc) hst
  · rw [← hreplay]
    exact mem_replay_iff

/-- A relay that is closed after one publish. -/
def Moment.parting : Moment :=
  ((Moment.opening {} [{ key := "sink", name := "sink" }]).publish 0 .empty).shutdown 0

theorem reached_parting : Moment.parting.Reached :=
  ((reached_opening {} (by decide) _).tail (.publish 0 .empty rfl)).tail
    (.shutdown 0 rfl fun l hl => by cases hl)

theorem events_grammatical_parting : (Moment.parting.world.events 0).map (·.kind) =
      [.subscriberRegistered, .messagePublished, .shutdownRequested, .subscriberUnregistered] ∧
    Log.Grammatical (Moment.parting.world.events 0) ∧
    replay (Moment.parting.world.events 0) = [] := by
  obtain ⟨hg, hr, -⟩ := events_grammatical reached_parting 0
  exact ⟨rfl, hg, hr⟩

end Fanout
