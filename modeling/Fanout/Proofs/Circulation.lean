import Fanout.Proofs.Faults
import Fanout.Proofs.Staffing
import Fanout.Proofs.SubscriberView

/-! # What a publish does

A publish goes round the slots of its relay in the order in which a map happens to hold them.
It offers the message to one queue after the other and keeps a list of those that could not
take it. Only then it makes its reports. Whatever the order, the same subscribers get the
message, and one report follows for each of the others.
-/
namespace Fanout

/-- The places of the queue that a sink gets, which has one at least. -/
def Capacity.places : Capacity → Nat
  | .size n => max n 1
  | .panics => 0

namespace Subscriber

def receives (s : Subscriber) : Bool := s.live && s.queue.length < s.sink.capacity.places

/-- Why a subscriber that does not receive misses a message. -/
def lack (s : Subscriber) : SinkFault :=
  if s.live then .overflow s.sink.capacity.places else .workerGone

def push (m : Message) (s : Subscriber) : Subscriber := { s with queue := s.queue ++ [m] }

end Subscriber

def Relay.withoutEvents (q : Relay) : Relay := { q with bus := { q.bus with events := #[] } }

namespace World

variable {w : World} {r : Nat} {m : Message} {ids : List SubscriberId}

/-- Offers a message to one subscriber. The list has those that did not take it so far. -/
def offer (m : Message) (x : World × List (SubscriberId × SinkFault)) (id : SubscriberId) :
    World × List (SubscriberId × SinkFault) :=
  match x.1.refusal? id with
  | none => (x.1.accept m id, x.2)
  | some f => (x.1, x.2 ++ [(id, f)])

def offerAll (w : World) (m : Message) (ids : List SubscriberId) :
    World × List (SubscriberId × SinkFault) :=
  ids.foldl (offer m) (w, [])

/-- Offers a message to all subscribers in some order, then reports who missed it and how many
are left. -/
def circulate (w : World) (r : Nat) (ids : List SubscriberId) (m : Message) : World :=
  let (v, dropped) := w.offerAll m ids
  (dropped.foldl (reportDrop r) v).emit r (.published (ids.length - dropped.length))

theorem refusal?_accept (w : World) (m : Message) {id : SubscriberId} (hi : id ∉ ids)
    {i : SubscriberId} (hm : i ∈ ids) : (w.accept m id).refusal? i = w.refusal? i := by
  have hne : id ≠ i := fun he => hi (he ▸ hm)
  rw [refusal?, subscriber?_accept, if_neg hne, refusal?]

theorem drops_accept (w : World) (m : Message) {id : SubscriberId} (hi : id ∉ ids) :
    (w.accept m id).drops ids = w.drops ids := by
  refine List.filterMap_congr fun i hm => ?_
  rw [w.refusal?_accept m hi hm]

theorem takers_accept (w : World) (m : Message) {id : SubscriberId} (hi : id ∉ ids) :
    (w.accept m id).takers ids = w.takers ids := by
  refine List.filter_congr fun i hm => ?_
  rw [w.refusal?_accept m hi hm]

/-- No subscriber is offered a message twice, so each finds its queue as it was at the call. -/
theorem foldl_offer (w : World) (m : Message) (hn : ids.Nodup)
    (ds : List (SubscriberId × SinkFault)) :
    ids.foldl (offer m) (w, ds) =
      ((w.takers ids).foldl (accept · m) w, ds ++ w.drops ids) := by
  induction ids generalizing w ds with
  | nil => simp [takers, drops]
  | cons id ids ih =>
    obtain ⟨hi, hn⟩ := List.nodup_cons.mp hn
    rw [List.foldl_cons, offer]
    cases hf : w.refusal? id with
    | none =>
      dsimp only
      rw [ih _ hn, w.takers_accept m hi, w.drops_accept m hi]
      simp [takers, drops, hf]
    | some f =>
      dsimp only
      rw [ih _ hn]
      simp [takers, drops, hf]

theorem circulate_eq_fanOut (w : World) (r : Nat) (m : Message) (hn : ids.Nodup) :
    w.circulate r ids m = w.fanOut r ids m := by
  rw [circulate, offerAll, w.foldl_offer m hn]
  rfl

def receives (w : World) (id : SubscriberId) : Bool := (w.subscriber? id).any (·.receives)

def lackOf (w : World) (id : SubscriberId) : SinkFault :=
  ((w.subscriber? id).map (·.lack)).getD .workerGone

/-- Each of some subscribers is there, and if its worker is, with the queue it asked for. -/
def Equipped (w : World) (ids : List SubscriberId) : Prop := ∀ i ∈ ids, ∃ s,
  w.subscriber? i = some s ∧ (s.live = true → s.capacity = s.sink.capacity.places)

theorem Equipped.refusal? (he : w.Equipped ids) {i : SubscriberId} (hi : i ∈ ids) :
    w.refusal? i = if w.receives i then none else some (w.lackOf i) := by
  obtain ⟨s, hs, hcap⟩ := he i hi
  cases hl : s.live with
  | false => simp [World.refusal?, receives, lackOf, Subscriber.receives, Subscriber.lack, hs, hl]
  | true =>
    by_cases hq : s.queue.length < s.sink.capacity.places
    · simp [World.refusal?, receives, Subscriber.receives, Subscriber.isFull, hs, hl, hcap hl, hq]
    · simp [World.refusal?, receives, lackOf, Subscriber.receives, Subscriber.lack,
        Subscriber.isFull, hs, hl, hcap hl, hq, Nat.le_of_not_lt hq]

theorem Equipped.takers (he : w.Equipped ids) : w.takers ids = ids.filter w.receives := by
  refine List.filter_congr fun i hi => ?_
  rw [he.refusal? hi]
  cases w.receives i <;> rfl

theorem Equipped.drops (he : w.Equipped ids) :
    w.drops ids = (ids.filter (!w.receives ·)).map fun i => (i, w.lackOf i) := by
  induction ids with
  | nil => rfl
  | cons i ids ih =>
    have hi := he.refusal? (List.mem_cons_self ..)
    have hds := ih fun j hj => he j (List.mem_cons_of_mem _ hj)
    rw [World.drops] at hds ⊢
    cases hr : w.receives i <;> simp [hr] at hi <;> simp [hr, hi, hds]

theorem length_receives_add (w : World) (ids : List SubscriberId) :
    (ids.filter (!w.receives ·)).length + (ids.filter w.receives).length = ids.length := by
  induction ids with
  | nil => rfl
  | cons i ids ih => cases hi : w.receives i <;> simp [hi] <;> omega

theorem journal_foldl_accept (w : World) (m : Message) (ids : List SubscriberId) :
    (ids.foldl (accept · m) w).journal.toList = w.journal.toList ++ ids.map (.accepted · m) := by
  induction ids generalizing w with
  | nil => simp
  | cons id ids ih =>
    refine (ih _).trans ?_
    simp [accept, note, modifySubscriber]

theorem journal_foldl_reportDrop (w : World) (r : Nat) (ds : List (SubscriberId × SinkFault)) :
    (ds.foldl (reportDrop r) w).journal.toList = w.journal.toList ++
      ds.map fun d => .traced (.dropped (w.nameOf d.1) d.1 d.2) := by
  induction ds generalizing w with
  | nil => simp
  | cons d ds ih =>
    refine (ih _).trans ?_
    simp only [List.map_cons]
    simp [reportDrop, emit, trace, note, modifyRelay, nameOf, subscriber?]

theorem journal_fanOut (w : World) (r : Nat) (ids : List SubscriberId) (m : Message) :
    (w.fanOut r ids m).journal.toList = w.journal.toList ++ (w.takers ids).map (.accepted · m) ++
      (w.drops ids).map fun d => .traced (.dropped (w.nameOf d.1) d.1 d.2) := by
  have hn : ((w.takers ids).foldl (accept · m) w).nameOf = w.nameOf := by
    funext i
    exact foldl_keeps w (·.nameOf i) (accept · m) (fun u id => nameOf_accept u m id i) _
  refine (journal_foldl_reportDrop ..).trans ?_
  rw [journal_foldl_accept, hn]

theorem relay?_fanOut_of_ne (w : World) {r n : Nat} (hr : r ≠ n) (ids : List SubscriberId)
    (m : Message) : (w.fanOut r ids m).relay? n = w.relay? n := by
  refine ((relay?_emit ..).trans (if_neg hr)).trans
    ((foldl_keeps _ (·.relay? n) (reportDrop r) ?_ _).trans
      (foldl_keeps _ (·.relay? n) (accept · m) (fun _ _ => rfl) _))
  intro v d
  exact (relay?_emit ..).trans (if_neg hr)

theorem withoutEvents_emit (w : World) (r n : Nat) (d : Event.Draft) :
    ((w.emit r d).relay? n).map Relay.withoutEvents = (w.relay? n).map Relay.withoutEvents := by
  rw [relay?_emit]
  split
  · cases w.relay? n <;> rfl
  · rfl

theorem withoutEvents_fanOut (w : World) (r : Nat) (ids : List SubscriberId) (m : Message)
    (n : Nat) :
    ((w.fanOut r ids m).relay? n).map Relay.withoutEvents =
      (w.relay? n).map Relay.withoutEvents := by
  refine (withoutEvents_emit ..).trans
    ((foldl_keeps _ (fun v => (v.relay? n).map Relay.withoutEvents) (reportDrop r) ?_ _).trans
      (foldl_keeps _ (fun v => (v.relay? n).map Relay.withoutEvents) (accept · m)
        (fun _ _ => rfl) _))
  intro v d
  exact withoutEvents_emit ..

/-- Apart from queues, reports and the record, a publish leaves everything as it was. -/
structure Untouched (w : World) (r : Nat) (v : World) : Prop where
  relays : ∀ n, (v.relay? n).map Relay.withoutEvents = (w.relay? n).map Relay.withoutEvents
  elsewhere : ∀ n, n ≠ r → v.relay? n = w.relay? n
  size : v.relays.size = w.relays.size
  population : v.subscribers.size = w.subscribers.size
  calls : v.calls = w.calls
  names : v.relayNames = w.relayNames
  handles : v.handles = w.handles
  clock : v.now = w.now

theorem Untouched.symm {u : World} (hu : w.Untouched r u) : u.Untouched r w :=
  ⟨fun n => (hu.relays n).symm, fun n hn => (hu.elsewhere n hn).symm, hu.size.symm,
    hu.population.symm, hu.calls.symm, hu.names.symm, hu.handles.symm, hu.clock.symm⟩

theorem Untouched.trans {u v : World} (hu : w.Untouched r u) (hv : u.Untouched r v) :
    w.Untouched r v :=
  ⟨fun n => (hv.relays n).trans (hu.relays n),
    fun n hn => (hv.elsewhere n hn).trans (hu.elsewhere n hn), hv.size.trans hu.size,
    hv.population.trans hu.population, hv.calls.trans hu.calls, hv.names.trans hu.names,
    hv.handles.trans hu.handles, hv.clock.trans hu.clock⟩

theorem untouched_fanOut (hr : r < w.relays.size) (ids : List SubscriberId) (m : Message) :
    w.Untouched r (w.fanOut r ids m) := by
  have hkeep {β : Type} (p : World → β) (hp : ∀ u d, p (reportDrop r u d) = p u)
      (hq : ∀ u i, p (u.accept m i) = p u) (he : ∀ u d, p (u.emit r d) = p u) :
      p (w.fanOut r ids m) = p w :=
    (he ..).trans ((foldl_keeps _ p (reportDrop r) hp _).trans
      (foldl_keeps _ p (accept · m) hq _))
  have hrep := reports_fanOut hr ids m
  refine ⟨w.withoutEvents_fanOut r ids m, fun n hn => w.relay?_fanOut_of_ne hn.symm ids m,
    hrep.relays, ?_, ?_, ?_, ?_, hrep.clock⟩
  · exact hkeep (·.subscribers.size) (fun _ _ => rfl)
      (fun _ _ => Array.size_modify) fun _ _ => rfl
  · exact hkeep (·.calls) (fun _ _ => rfl) (fun _ _ => rfl) fun _ _ => rfl
  · exact hkeep (·.relayNames) (fun _ _ => rfl) (fun _ _ => rfl) fun _ _ => rfl
  · exact hkeep (·.handles) (fun _ _ => rfl) (fun _ _ => rfl) fun _ _ => rfl

/-- What a message that went round some subscribers of relay `r` leaves behind: it is in the
queues of those that receive, the others have a report each, and the last report counts. -/
structure Circulated (w : World) (r : Nat) (ids : List SubscriberId) (m : Message) (v : World) :
    Prop where
  queues : ∀ i, v.subscriber? i = (w.subscriber? i).map fun s =>
    if i ∈ ids ∧ s.receives = true then s.push m else s
  counted : (w.offerAll m ids).2.length + (ids.filter w.receives).length = ids.length
  reports : ∃ es, List.Forall₂
      (fun i e => ∃ s, w.subscriber? i = some s ∧ e.Tells s.name i s.lack)
      (ids.filter (!w.receives ·)) es ∧
    v.events r = w.events r ++ es ++
      [{ seq := w.nextSeq + es.length, kind := .messagePublished, time := w.now
         recipients := some (capped (ids.filter w.receives).length) }] ∧
    v.nextSeq = w.nextSeq + es.length + 1
  rest : w.Untouched r v
  journal : ∃ ns, v.journal.toList = w.journal.toList ++
    (ids.filter w.receives).map (.accepted · m) ++ ns ∧ ∀ n ∈ ns, n.sparesDeliveries = true

theorem tells_stampAll (he : w.Equipped ids) (time seq : Nat) :
    List.Forall₂ (fun i e => ∃ s, w.subscriber? i = some s ∧ e.Tells s.name i s.lack) ids
      (Event.stampAll time seq (ids.map fun i => .fault (w.nameOf i) i (w.lackOf i))) := by
  induction ids generalizing seq with
  | nil => exact .nil
  | cons i ids ih =>
    obtain ⟨s, hs, -⟩ := he i (List.mem_cons_self ..)
    refine .cons ⟨s, hs, ?_⟩ (ih (fun j hj => he j (List.mem_cons_of_mem _ hj)) (seq + 1))
    have hname : w.nameOf i = s.name := nameOf_eq hs
    have hlack : w.lackOf i = s.lack := by simp [lackOf, hs]
    have htells := Event.tells_stamp (w.nameOf i) i (w.lackOf i) seq time
    rw [hname, hlack] at htells
    simpa only [hname, hlack] using htells

theorem length_stampAll (time seq : Nat) (ds : List Event.Draft) :
    (Event.stampAll time seq ds).length = ds.length := by
  induction ds generalizing seq with
  | nil => rfl
  | cons d ds ih => exact congrArg (· + 1) (ih (seq + 1))

theorem Equipped.circulated (he : w.Equipped ids) (hn : ids.Nodup) (hr : r < w.relays.size)
    (m : Message) : w.Circulated r ids m (w.circulate r ids m) := by
  have hlen : (w.drops ids).length = (ids.filter (!w.receives ·)).length := by
    rw [he.drops, List.length_map]
  have hadd := w.length_receives_add ids
  have hdrafts : (w.drops ids).map (fun d => Event.Draft.fault (w.nameOf d.1) d.1 d.2) =
      (ids.filter (!w.receives ·)).map fun i => .fault (w.nameOf i) i (w.lackOf i) := by
    rw [he.drops, List.map_map]
    rfl
  have hmissed : w.Equipped (ids.filter (!w.receives ·)) :=
    fun i hi => he i (List.mem_of_mem_filter hi)
  rw [w.circulate_eq_fanOut r m hn]
  have hjournal := w.journal_fanOut r ids m
  rw [he.takers] at hjournal
  refine ⟨fun i => ?_, ?_, ⟨_, tells_stampAll hmissed w.now w.nextSeq, ?_, ?_⟩,
    untouched_fanOut hr ids m, ⟨_, hjournal, ?_⟩⟩
  · rw [w.subscriber?_fanOut r m hn, he.takers]
    cases hs : w.subscriber? i with
    | none => simp
    | some s =>
      have hmem : i ∈ ids.filter w.receives ↔ i ∈ ids ∧ s.receives = true := by
        simp [receives, hs]
      by_cases hi : i ∈ ids ∧ s.receives = true
      · simp [hmem, hi, Subscriber.push]
      · simp [hmem, hi]
  · rw [offerAll, w.foldl_offer m hn, List.nil_append, hlen, hadd]
  · have hcount : ids.length - (w.drops ids).length = (ids.filter w.receives).length := by omega
    rw [(reports_fanOut hr ids m).events, if_pos rfl, hdrafts, hcount, Event.stampAll_append,
      length_stampAll, List.append_assoc]
    rfl
  · rw [(reports_fanOut hr ids m).count, List.length_append, hdrafts, length_stampAll]
    rfl
  · intro n hm
    obtain ⟨d, -, rfl⟩ := List.mem_map.mp hm
    rfl

/-- Two outcomes of a call made in world `w` that only the order of the drops tells apart, in
the reports on relay `r` with their numbers and in the record. -/
structure Reordered (w : World) (r : Nat) (u v : World) : Prop where
  subscribers : u.subscribers = v.subscribers
  rest : u.Untouched r v
  count : u.nextSeq = v.nextSeq
  events : ∃ es fs e, u.events r = w.events r ++ es ++ [e] ∧
    v.events r = w.events r ++ fs ++ [e] ∧
    (es.map Event.unnumbered).Perm (fs.map Event.unnumbered)
  journal : u.journal.toList.Perm v.journal.toList

theorem unnumbered_stampAll (time seq : Nat) (ds : List Event.Draft) :
    (Event.stampAll time seq ds).map Event.unnumbered = ds.map (·.stamp 0 time) := by
  induction ds generalizing seq with
  | nil => rfl
  | cons d ds ih => exact congrArg₂ List.cons (Event.unnumbered_stamp ..) (ih (seq + 1))

theorem reordered_fanOut {ids' : List SubscriberId} (hp : ids.Perm ids') (hn : ids.Nodup)
    (hr : r < w.relays.size) (m : Message) :
    w.Reordered r (w.fanOut r ids m) (w.fanOut r ids' m) := by
  have hn' := hp.nodup_iff.mp hn
  have htakers : (w.takers ids).Perm (w.takers ids') := hp.filter _
  have hdrops : (w.drops ids).Perm (w.drops ids') := hp.filterMap _
  have hu := untouched_fanOut hr ids m
  have hv := untouched_fanOut hr ids' m
  have hcu := reports_fanOut hr ids m
  have hcv := reports_fanOut hr ids' m
  have hlen := hdrops.length_eq
  refine ⟨?_, hu.symm.trans hv, ?_, ?_, ?_⟩
  · refine Array.ext_getElem? fun n => ?_
    have hun := w.subscriber?_fanOut r m hn ⟨n⟩
    have hvn := w.subscriber?_fanOut r m hn' ⟨n⟩
    simp only [htakers.mem_iff] at hun
    exact hun.trans hvn.symm
  · rw [hcu.count, hcv.count]
    simp [hlen]
  · let told : List (SubscriberId × SinkFault) → List Event := fun ds =>
      Event.stampAll w.now w.nextSeq (ds.map fun d => .fault (w.nameOf d.1) d.1 d.2)
    refine ⟨told (w.drops ids), told (w.drops ids'),
      (Event.Draft.published (ids.length - (w.drops ids).length)).stamp
        (w.nextSeq + (w.drops ids).length) w.now, ?_, ?_, ?_⟩
    · rw [hcu.events, if_pos rfl, Event.stampAll_append, List.length_map, List.append_assoc]
      rfl
    · rw [hcv.events, if_pos rfl, Event.stampAll_append, List.length_map, List.append_assoc, hlen,
        hp.length_eq]
      rfl
    · rw [unnumbered_stampAll, unnumbered_stampAll]
      exact (hdrops.map _).map _
  · rw [journal_fanOut, journal_fanOut]
    exact ((List.Perm.refl _).append (htakers.map _)).append (hdrops.map _)

end World

variable {a : Moment} {r : Nat}

theorem Moment.Reached.equipped (ha : a.Reached) (r : Nat) :
    a.world.Equipped (a.world.active r) := by
  intro i hi
  obtain ⟨s, hs, -, -⟩ := ha.sound.member r i hi
  refine ⟨s, hs, fun hl => ?_⟩
  obtain ⟨hcap, -⟩ := ha.roomy i s hs hl
  obtain ⟨n, hn, hk⟩ := World.queueCapacity?_eq_ok hcap
  rw [hn]
  exact hk

/-- At any moment, and in whatever order a publish on an open relay goes round the active
subscribers: the message is at the end of the queues of just those whose worker receives and
whose queue has a place, each other one is reported once, the last report has the count, and
nothing else changes. Another order only reorders the reports of the drops. -/
theorem publish_goes_round (ha : a.Reached) (ho : a.world.closed r = false)
    (hne : a.world.active r ≠ []) (m : Message) :
    a.publish r m = { a with
      world := a.world.circulate r (a.world.active r) m
      published := a.published ++ [⟨a.world, r, m⟩] } ∧
    ∀ ids, ids.Perm (a.world.active r) →
      a.world.Circulated r ids m (a.world.circulate r ids m) ∧
      ∀ ids', ids'.Perm (a.world.active r) →
        a.world.Reordered r (a.world.circulate r ids m) (a.world.circulate r ids' m) := by
  have hn := ha.sound.nodup r
  obtain ⟨id, hid⟩ := List.exists_mem_of_ne_nil _ hne
  have hr := World.lt_size_of_mem_active hid
  refine ⟨?_, fun ids hp => ⟨?_, fun ids' hp' => ?_⟩⟩
  · rw [Moment.publish, a.world.circulate_eq_fanOut r m hn]
    have hstep := a.world.publishStep r m
    generalize a.world.publish r m = v at hstep
    cases hstep with
    | missing he | unheard _ _ he => exact absurd he hne
    | ignored hc => cases ho.symm.trans hc
    | fansOut => rfl
  · have he : a.world.Equipped ids := fun i hi => ha.equipped r i (hp.mem_iff.mp hi)
    exact he.circulated (hp.nodup_iff.mpr hn) hr m
  · have hids := hp.nodup_iff.mpr hn
    rw [a.world.circulate_eq_fanOut r m hids,
      a.world.circulate_eq_fanOut r m (hp'.nodup_iff.mpr hn)]
    exact World.reordered_fanOut (hp.trans hp'.symm) hids hr m

/-- One worker has gone down, one queue of a single place is full, and one has room. -/
def Moment.mixed : Moment :=
  let a := (Moment.opening {} [
    { key := "bare", name := "bare", style := .bare, script := [[.panicAtStart]] },
    { key := "full", name := "full", capacity := .size 0 },
    { key := "free", name := "free" }]).publish 0 .empty
  { a with world := a.world.stepWorker ⟨0⟩ }

theorem reached_mixed : Moment.mixed.Reached := by
  let a := (Moment.opening {} [
    { key := "bare", name := "bare", style := .bare, script := [[.panicAtStart]] },
    { key := "full", name := "full", capacity := .size 0 },
    { key := "free", name := "free" }]).publish 0 .empty
  have ha : a.Reached := (reached_opening {} (by decide) _).tail (.publish 0 .empty rfl)
  exact ha.tail (@Transition.crash a ⟨0⟩ _ _ _ rfl rfl rfl rfl rfl ⟨rfl, [], rfl⟩)

/-- The next message goes to the last one only, and both others are reported. -/
theorem publish_goes_round_mixed : Moment.mixed.world.closed 0 = false ∧
    ∃ v, v = Moment.mixed.world.circulate 0 [⟨1⟩, ⟨2⟩, ⟨0⟩] .empty ∧
      (v.subscriber? ⟨2⟩).map (·.queue) = some [.empty, .empty] ∧
      ∃ d e, d.Tells "full" ⟨1⟩ (.overflow 1) ∧ e.Tells "bare" ⟨0⟩ .workerGone ∧
        v.events 0 = Moment.mixed.world.events 0 ++ [d, e] ++
          [{ seq := 6, kind := .messagePublished, time := 0, recipients := some 1 }] := by
  have hact : Moment.mixed.world.active 0 = [⟨0⟩, ⟨1⟩, ⟨2⟩] := by decide +kernel
  have hopen : Moment.mixed.world.closed 0 = false := by decide +kernel
  have hne : Moment.mixed.world.active 0 ≠ [] := by simp [hact]
  obtain ⟨-, hround⟩ := publish_goes_round reached_mixed hopen hne .empty
  obtain ⟨hcirc, -⟩ := hround [⟨1⟩, ⟨2⟩, ⟨0⟩] (by rw [hact]; decide)
  obtain ⟨es, htells, hevents, -⟩ := hcirc.reports
  have hmissed : [⟨1⟩, ⟨2⟩, ⟨0⟩].filter (!Moment.mixed.world.receives ·) = [⟨1⟩, ⟨0⟩] := by
    decide +kernel
  have hreached : [⟨1⟩, ⟨2⟩, ⟨0⟩].filter Moment.mixed.world.receives = [⟨2⟩] := by decide +kernel
  rw [hmissed] at htells
  obtain ⟨d, fs, ⟨s, hs, hd⟩, hrest, rfl⟩ := List.forall₂_cons_left_iff.mp htells
  obtain ⟨e, gs, ⟨t, ht, he⟩, hnil, rfl⟩ := List.forall₂_cons_left_iff.mp hrest
  obtain rfl := List.forall₂_nil_left_iff.mp hnil
  have h₁ : Moment.mixed.world.subscriber? ⟨1⟩ = some _ := rfl
  have h₀ : Moment.mixed.world.subscriber? ⟨0⟩ = some _ := rfl
  obtain rfl := Option.mem_unique h₁ hs
  obtain rfl := Option.mem_unique h₀ ht
  refine ⟨hopen, _, rfl, ?_, d, e, hd, he, ?_⟩
  · rw [hcirc.queues]
    rfl
  · rw [hreached] at hevents
    exact hevents

end Fanout
