import Fanout.Proofs.Views

/-! # What the operations of a relay do

For each operation: the reports it makes, and what it does to the subscribers, to the active
set and to the record of deliveries.
-/
namespace Fanout.World

variable {w : World} {r : Nat}

theorem serial_ne_size {id : SubscriberId} {s : Subscriber} (hs : w.subscriber? id = some s) :
    id.serial ≠ w.subscribers.size :=
  Nat.ne_of_lt (Array.getElem?_eq_some_iff.mp hs).1

theorem relay?_build (w : World) (name : String) (config : Config) (observers : List Observer)
    (n : Nat) : (w.build name config observers).1.relay? n = w.relay? n ∨
      w.relay? n = none ∧ (w.build name config observers).1.relay? n =
        some { config := config, bus := .ofCapacity config.busCapacity
               listeners := observers.map fun o => { observer := o } } := by
  unfold build
  split
  · exact .inl rfl
  · by_cases hn : n = w.relays.size
    · subst hn
      exact .inr ⟨by simp [relay?], Array.getElem?_push_size⟩
    · exact .inl (Array.getElem?_push.trans (if_neg hn))

theorem active_build (w : World) (name : String) (config : Config) (observers : List Observer)
    (n : Nat) : (w.build name config observers).1.active n = w.active n := by
  rcases relay?_build w name config observers n with he | ⟨hn, he⟩
  · rw [active, he, active]
  · rw [active, he, active, hn]
    rfl

theorem closed_build (w : World) (name : String) (config : Config) (observers : List Observer)
    (n : Nat) : (w.build name config observers).1.closed n = w.closed n := by
  rcases relay?_build w name config observers n with he | ⟨hn, he⟩
  · rw [closed, he, closed]
  · rw [closed, he, closed, hn]
    rfl

theorem events_build (w : World) (name : String) (config : Config) (observers : List Observer)
    (n : Nat) : (w.build name config observers).1.events n = w.events n := by
  rcases relay?_build w name config observers n with he | ⟨hn, he⟩
  · rw [events, he, events]
  · rw [events, he, events, hn]
    rfl

theorem subscribers_build (w : World) (name : String) (config : Config)
    (observers : List Observer) :
    (w.build name config observers).1.subscribers = w.subscribers := by
  unfold build
  split <;> rfl

theorem journal_build (w : World) (name : String) (config : Config)
    (observers : List Observer) : (w.build name config observers).1.journal = w.journal := by
  unfold build
  split <;> rfl

theorem calls_build (w : World) (name : String) (config : Config)
    (observers : List Observer) : (w.build name config observers).1.calls = w.calls := by
  unfold build
  split <;> rfl

theorem now_build (w : World) (name : String) (config : Config) (observers : List Observer) :
    (w.build name config observers).1.now = w.now := by
  unfold build
  split <;> rfl

theorem reports_enroll (hr : r < w.relays.size) (s : Subscriber) :
    w.Reports r [.registered s.name ⟨w.subscribers.size⟩] (w.enroll r s) := by
  let u : World := { w with subscribers := w.subscribers.push s }
  let v := u.modifyRelay r fun q => { q with active := q.active ++ [⟨w.subscribers.size⟩] }
  have hu : w.Reports r [] u := .nil rfl rfl rfl
  have hv : u.Reports r [] v := .modifyRelay u r r fun _ => ⟨rfl, rfl⟩
  have ht : v.Reports r [] (v.trace (.registered s.name ⟨w.subscribers.size⟩)) :=
    .nil rfl rfl rfl
  refine ((hu.append hv).append ht).append (.emit ?_ _)
  simpa [v, u, trace, note, modifyRelay] using hr

theorem active_enroll (hr : r < w.relays.size) (s : Subscriber) (n : Nat) :
    (w.enroll r s).active n =
      if r = n then w.active n ++ [⟨w.subscribers.size⟩] else w.active n := by
  refine (active_emit ..).trans ((active_modifyRelay ..).trans ?_)
  split
  · rename_i he
    subst he
    have hq := relay?_of_lt_size hr
    simp only [active, hq]
    simp [relay?, hr]
  · rfl

theorem closed_enroll (w : World) (r n : Nat) (s : Subscriber) :
    (w.enroll r s).closed n = w.closed n := by
  refine (closed_emit ..).trans ((closed_modifyRelay ..).trans ?_)
  split <;> rfl

theorem subscriber?_push (w : World) (s : Subscriber) (id : SubscriberId) :
    ({ w with subscribers := w.subscribers.push s } : World).subscriber? id =
      if id.serial = w.subscribers.size then some s else w.subscriber? id := by
  simp [subscriber?, Array.getElem?_push]

theorem subscriber?_enroll (w : World) (r : Nat) (s : Subscriber) (id : SubscriberId) :
    (w.enroll r s).subscriber? id =
      if id.serial = w.subscribers.size then some s else w.subscriber? id :=
  subscriber?_push w s id

theorem rows_enroll (w : World) (r : Nat) (s : Subscriber) (id : SubscriberId) :
    (w.enroll r s).rows id = w.rows id :=
  rows_trace w _ id

theorem conclusions_enroll (w : World) (r : Nat) (s : Subscriber) (id : SubscriberId) :
    (w.enroll r s).conclusions id = w.conclusions id :=
  conclusions_trace w _ id

/-- A registration enrolls a fresh subscriber, or is turned away, or leaves no trace but a poisoned
lock at most. -/
inductive RegisterStep (w : World) (r : Nat) (name : String) (sink : Sink) : World → Prop where
  | panics (rs : List Nat) : RegisterStep w r name sink { w with poisoned := rs }
  | ignored {title : String} : w.closed r = true → sink.name = .given title →
    RegisterStep w r name sink (w.turnAway r name sink title)
  | enrolls {title : String} {capacity : Nat} : w.closed r = false → r < w.relays.size →
    sink.name = .given title → queueCapacity? sink.capacity = .ok capacity →
    RegisterStep w r name sink (w.enroll r
      { relay := r, relayName := name, sink := sink, name := title, capacity := capacity })

theorem registerStep (w : World) (r : Nat) (name : String) (sink : Sink) :
    RegisterStep w r name sink (w.register r name sink).1 := by
  simp only [register, locked?_eq]
  cases hn : sink.name with
  | panics p => exact .panics w.poisoned
  | given title =>
    cases hq : w.relay? r with
    | none => exact .panics w.poisoned
    | some q =>
      dsimp only
      by_cases hc : q.closed = true
      · rw [if_pos hc]
        exact .ignored (by simp [closed, hq, hc]) hn
      · rw [if_neg hc]
        cases hcap : queueCapacity? sink.capacity with
        | error info => exact .panics _
        | ok capacity =>
          have ho : w.closed r = false := by simpa [closed, hq] using hc
          exact .enrolls ho (lt_size_of_relay? hq) hn hcap

theorem reports_withdraw (hr : r < w.relays.size) (id : SubscriberId) :
    w.Reports r [.unregistered (w.nameOf id) id] (w.withdraw r id) := by
  let u := w.modifyRelay r fun q => { q with active := q.active.erase id }
  let v := (u.modifySubscriber id fun s => { s with cancelled := true }).trace
    (.unregistered (w.nameOf id) id)
  have hu : w.Reports r [] u := .modifyRelay w r r fun _ => ⟨rfl, rfl⟩
  have hv : u.Reports r [] v := .nil rfl rfl rfl
  refine (hu.append hv).append (.emit ?_ _)
  simpa [v, u, trace, note, modifyRelay, modifySubscriber] using hr

theorem active_withdraw (w : World) (r : Nat) (id : SubscriberId) (n : Nat) :
    (w.withdraw r id).active n = if r = n then (w.active n).erase id else w.active n := by
  refine (active_emit ..).trans ((active_modifyRelay ..).trans ?_)
  split
  · simp only [active]
    cases w.relay? n <;> rfl
  · rfl

theorem closed_withdraw (w : World) (r : Nat) (id : SubscriberId) (n : Nat) :
    (w.withdraw r id).closed n = w.closed n := by
  refine (closed_emit ..).trans ((closed_modifyRelay ..).trans ?_)
  split <;> rfl

theorem subscriber?_withdraw (w : World) (r : Nat) (id i : SubscriberId) :
    (w.withdraw r id).subscriber? i = if id = i then
      (w.subscriber? i).map ({ · with cancelled := true }) else w.subscriber? i :=
  subscriber?_modifySubscriber ..

theorem rows_withdraw (w : World) (r : Nat) (id i : SubscriberId) :
    (w.withdraw r id).rows i = w.rows i :=
  rows_trace w _ i

theorem conclusions_withdraw (w : World) (r : Nat) (id i : SubscriberId) :
    (w.withdraw r id).conclusions i = w.conclusions i :=
  conclusions_trace w _ i

theorem unregister_of_mem {id : SubscriberId} (hm : id ∈ w.active r) :
    w.unregister r id = (w.withdraw r id, true) :=
  if_pos ((w.isActive_iff r id).mpr hm)

theorem unregister_of_notMem {id : SubscriberId} (hm : id ∉ w.active r) :
    w.unregister r id = (w.trace (.unregisterIgnored id), false) :=
  if_neg fun ha => hm ((w.isActive_iff r id).mp ha)

inductive PublishStep (w : World) (r : Nat) (m : Message) : World → Prop where
  | missing : w.active r = [] → PublishStep w r m w
  | ignored : w.closed r = true → PublishStep w r m (w.trace .publishIgnored)
  | unheard : w.closed r = false → r < w.relays.size → w.active r = [] →
    PublishStep w r m ((w.trace .publishedToNobody).emit r ⟨.publishedWithoutSubscribers, []⟩)
  | fansOut : w.closed r = false → r < w.relays.size → w.active r ≠ [] →
    PublishStep w r m (w.fanOut r (w.active r) m)

theorem publishStep (w : World) (r : Nat) (m : Message) :
    PublishStep w r m (w.publish r m) := by
  simp only [publish, locked?_eq]
  cases hq : w.relay? r with
  | none => exact .missing (by simp [active, hq])
  | some q =>
    have ha : w.active r = q.active := by simp [active, hq]
    have hr := lt_size_of_relay? hq
    dsimp only
    by_cases hs : q.closed = true
    · rw [if_pos hs]
      exact .ignored (by simp [closed, hq, hs])
    · rw [if_neg hs]
      have ho : w.closed r = false := by simpa [closed, hq] using hs
      by_cases he : q.active.isEmpty = true
      · rw [if_pos he]
        exact .unheard ho hr (by simpa [ha] using he)
      · rw [if_neg he, ← ha]
        exact .fansOut ho hr (by simpa [ha] using he)

theorem refusal?_eq_none_iff {id : SubscriberId} : w.refusal? id = none ↔
    ∃ s, w.subscriber? id = some s ∧ s.live = true ∧ s.isFull = false := by
  rw [refusal?]
  cases w.subscriber? id with
  | none => simp
  | some s => cases hl : s.live <;> cases hf : s.isFull <;> simp [hl, hf]

theorem mem_takers_iff {ids : List SubscriberId} {id : SubscriberId} : id ∈ w.takers ids ↔
    id ∈ ids ∧ ∃ s, w.subscriber? id = some s ∧ s.live = true ∧ s.isFull = false := by
  rw [takers, List.mem_filter, Option.isNone_iff_eq_none, refusal?_eq_none_iff]

theorem enqueues_iff {id : SubscriberId} : w.enqueues r id = true ↔
    w.closed r = false ∧ id ∈ w.takers (w.active r) := by
  rw [mem_takers_iff, enqueues]
  cases w.subscriber? id <;> simp [and_assoc]

theorem subscriber?_accept (w : World) (m : Message) (id i : SubscriberId) :
    (w.accept m id).subscriber? i = if id = i then
      (w.subscriber? i).map fun s => { s with queue := s.queue ++ [m] } else w.subscriber? i :=
  subscriber?_modifySubscriber ..

theorem subscriber?_foldl_accept (w : World) (m : Message) {ids : List SubscriberId}
    (hn : ids.Nodup) (i : SubscriberId) :
    (ids.foldl (accept · m) w).subscriber? i = if i ∈ ids then
      (w.subscriber? i).map fun s => { s with queue := s.queue ++ [m] } else w.subscriber? i := by
  induction ids generalizing w with
  | nil => simp
  | cons id ids ih =>
    obtain ⟨hi, hn⟩ := List.nodup_cons.mp hn
    rw [List.foldl_cons, ih (w.accept m id) hn, subscriber?_accept]
    by_cases he : id = i
    · subst he
      simp [hi]
    · have he' : i ≠ id := fun h => he h.symm
      simp [he, he']

theorem subscribers_foldl_reportDrop (w : World) (r : Nat)
    (drops : List (SubscriberId × SinkFault)) :
    (drops.foldl (reportDrop r) w).subscribers = w.subscribers :=
  foldl_keeps w (·.subscribers) (reportDrop r) (fun _ _ => rfl) drops

theorem subscriber?_fanOut (w : World) (r : Nat) (m : Message) {ids : List SubscriberId}
    (hn : ids.Nodup) (i : SubscriberId) :
    (w.fanOut r ids m).subscriber? i = if i ∈ w.takers ids then
      (w.subscriber? i).map fun s => { s with queue := s.queue ++ [m] } else w.subscriber? i := by
  have hs : (w.fanOut r ids m).subscribers =
      ((w.takers ids).foldl (accept · m) w).subscribers := subscribers_foldl_reportDrop ..
  rw [subscriber?, hs]
  exact subscriber?_foldl_accept w m (hn.filter _) i

theorem rows_fanOut (w : World) (r : Nat) (ids : List SubscriberId) (m : Message)
    (i : SubscriberId) : (w.fanOut r ids m).rows i = w.rows i := by
  refine (foldl_keeps _ (·.rows i) (reportDrop r) ?_ _).trans
    (foldl_keeps _ (·.rows i) (accept · m) ?_ _)
  · intro v d
    exact rows_trace v _ i
  · intro v id
    exact (rows_note ..).trans (List.append_nil _)

theorem conclusions_fanOut (w : World) (r : Nat) (ids : List SubscriberId) (m : Message)
    (i : SubscriberId) : (w.fanOut r ids m).conclusions i = w.conclusions i := by
  refine (foldl_keeps _ (·.conclusions i) (reportDrop r) ?_ _).trans
    (foldl_keeps _ (·.conclusions i) (accept · m) ?_ _)
  · intro v d
    exact conclusions_trace v _ i
  · intro v id
    exact (conclusions_note ..).trans (List.append_nil _)

theorem active_fanOut (w : World) (r : Nat) (ids : List SubscriberId) (m : Message) (n : Nat) :
    (w.fanOut r ids m).active n = w.active n := by
  refine (active_emit ..).trans ((foldl_keeps _ (·.active n) (reportDrop r) ?_ _).trans
    (foldl_keeps _ (·.active n) (accept · m) ?_ _))
  · intro v d
    exact active_emit ..
  · intro v id
    rfl

theorem closed_fanOut (w : World) (r : Nat) (ids : List SubscriberId) (m : Message) (n : Nat) :
    (w.fanOut r ids m).closed n = w.closed n := by
  refine (closed_emit ..).trans ((foldl_keeps _ (·.closed n) (reportDrop r) ?_ _).trans
    (foldl_keeps _ (·.closed n) (accept · m) ?_ _))
  · intro v d
    exact closed_emit ..
  · intro v id
    rfl

theorem nameOf_accept (w : World) (m : Message) (id i : SubscriberId) :
    (w.accept m id).nameOf i = w.nameOf i := by
  rw [nameOf, subscriber?_accept, nameOf]
  split
  · cases w.subscriber? i <;> rfl
  · rfl

theorem reports_foldl_reportDrop (hr : r < w.relays.size)
    (drops : List (SubscriberId × SinkFault)) :
    w.Reports r (drops.map fun d => .fault (w.nameOf d.1) d.1 d.2)
      (drops.foldl (reportDrop r) w) := by
  induction drops generalizing w with
  | nil => exact .nil rfl rfl rfl
  | cons d drops ih =>
    let v := w.trace (.dropped (w.nameOf d.1) d.1 d.2)
    have hv : w.Reports r [] v := .nil rfl rfl rfl
    have hd : w.Reports r [.fault (w.nameOf d.1) d.1 d.2] (reportDrop r w d) :=
      hv.append (.emit (w := v) hr _)
    have hs : r < (reportDrop r w d).relays.size := hd.relays.symm ▸ hr
    exact hd.append (ih hs)

theorem reports_fanOut (hr : r < w.relays.size) (ids : List SubscriberId) (m : Message) :
    w.Reports r
      ((w.drops ids).map (fun d => .fault (w.nameOf d.1) d.1 d.2) ++
        [.published (ids.length - (w.drops ids).length)]) (w.fanOut r ids m) := by
  let v := (w.takers ids).foldl (accept · m) w
  have hv : w.Reports r [] v := by
    refine .nil ?_ ?_ ?_
    · exact foldl_keeps w (·.relays) (accept · m) (fun _ _ => rfl) _
    · exact foldl_keeps w (·.nextSeq) (accept · m) (fun _ _ => rfl) _
    · exact foldl_keeps w (·.now) (accept · m) (fun _ _ => rfl) _
  have hn : v.nameOf = w.nameOf := by
    funext i
    exact foldl_keeps w (·.nameOf i) (accept · m) (fun u id => nameOf_accept u m id i) _
  have hs : r < v.relays.size := hv.relays.symm ▸ hr
  have hd := reports_foldl_reportDrop hs (w.drops ids)
  rw [hn] at hd
  exact (hv.append hd).append (.emit (hd.relays.symm ▸ hs) _)

theorem reports_foldl_unregistered (hr : r < w.relays.size) (ids : List SubscriberId) :
    w.Reports r (ids.map fun id => .unregistered (w.nameOf id) id)
      (ids.foldl (fun v id => v.emit r (.unregistered (v.nameOf id) id)) w) := by
  induction ids generalizing w with
  | nil => exact .nil rfl rfl rfl
  | cons id ids ih =>
    have hd : w.Reports r [.unregistered (w.nameOf id) id]
        (w.emit r (.unregistered (w.nameOf id) id)) := .emit hr _
    exact hd.append (ih (hd.relays.symm ▸ hr))

theorem reports_close {q : Relay} (hr : r < w.relays.size) :
    w.Reports r (⟨.shutdownRequested, []⟩ ::
      q.active.map fun id => .unregistered (w.nameOf id) id) (w.close r q) := by
  let u := w.modifyRelay r fun q => { q with closed := true, active := [] }
  have hu : w.Reports r [] u := .modifyRelay w r r fun _ => ⟨rfl, rfl⟩
  have hs : r < u.relays.size := hu.relays.symm ▸ hr
  have he := hu.append (Reports.emit (w := u) hs ⟨.shutdownRequested, []⟩)
  exact he.append (reports_foldl_unregistered (he.relays.symm ▸ hr) q.active)

theorem active_close (w : World) (r : Nat) (q : Relay) (n : Nat) :
    (w.close r q).active n = if r = n then [] else w.active n := by
  refine (foldl_keeps _ (·.active n) _ (fun v id => ?_) _).trans
    ((active_emit ..).trans ((active_modifyRelay ..).trans ?_))
  · exact active_emit ..
  · split
    · cases w.relay? n <;> rfl
    · rfl

theorem closed_close (hr : r < w.relays.size) (q : Relay) (n : Nat) :
    (w.close r q).closed n = if r = n then true else w.closed n := by
  refine (foldl_keeps _ (·.closed n) _ (fun v id => ?_) _).trans
    ((closed_emit ..).trans ((closed_modifyRelay ..).trans ?_))
  · exact closed_emit ..
  · split
    · rename_i he
      subst he
      have hq := relay?_of_lt_size hr
      rw [hq]
      rfl
    · rfl

/-- The call that closes a relay finds it open; another one only joins the record of calls. -/
inductive OpenCallStep (w : World) (r : Nat) (owner : Option SubscriberId) : World → Prop where
  | missing : w.relay? r = none → OpenCallStep w r owner w
  | late : w.closed r = true →
    OpenCallStep w r owner { w with calls := w.calls.push ⟨r, owner, .returned none⟩ }
  | closes {q : Relay} : w.closed r = false → w.relay? r = some q →
    OpenCallStep w r owner { w.close r q with
      calls := w.calls.push ⟨r, owner, .draining (w.after q.config.grace)⟩ }

theorem openCallStep (w : World) (r : Nat) (owner : Option SubscriberId) :
    OpenCallStep w r owner (w.openCall r owner) := by
  simp only [openCall, locked?_eq]
  cases hq : w.relay? r with
  | none => exact .missing hq
  | some q =>
    dsimp only
    by_cases hc : q.closed = true
    · rw [if_pos hc]
      exact .late (by simp [closed, hq, hc])
    · rw [if_neg hc, calls_close]
      exact .closes (by simpa [closed, hq] using hc) hq

theorem closed_openCall (hr : r < w.relays.size) (owner : Option SubscriberId) :
    (w.openCall r owner).closed r = true := by
  have hstep := w.openCallStep r owner
  generalize w.openCall r owner = v at hstep
  cases hstep with
  | missing hn => cases hn.symm.trans (relay?_of_lt_size hr)
  | late hc => exact hc
  | @closes q => exact (closed_close hr q r).trans (if_pos rfl)

theorem active_openCall (hr : r < w.relays.size) (hs : w.closed r = true → w.active r = [])
    (owner : Option SubscriberId) (n : Nat) :
    (w.openCall r owner).active n = if r = n then [] else w.active n := by
  have hstep := w.openCallStep r owner
  generalize w.openCall r owner = v at hstep
  cases hstep with
  | missing hn => cases hn.symm.trans (relay?_of_lt_size hr)
  | late hc =>
    split
    · rename_i hrn
      exact hrn ▸ hs hc
    · rfl
  | @closes q => exact active_close w r q n

theorem subscribers_openCall (w : World) (r : Nat) (owner : Option SubscriberId) :
    (w.openCall r owner).subscribers = w.subscribers := by
  have hstep := w.openCallStep r owner
  generalize w.openCall r owner = v at hstep
  cases hstep with
  | missing | late => rfl
  | @closes q => exact subscribers_close w r q

theorem journal_openCall (w : World) (r : Nat) (owner : Option SubscriberId) :
    (w.openCall r owner).journal = w.journal := by
  have hstep := w.openCallStep r owner
  generalize w.openCall r owner = v at hstep
  cases hstep with
  | missing | late => rfl
  | @closes q => exact journal_close w r q

theorem calls_openCall (hr : r < w.relays.size) (owner : Option SubscriberId) :
    ∃ p, (w.openCall r owner).calls = w.calls.push ⟨r, owner, p⟩ ∧
      (p = .returned none ∧ w.closed r = true ∨
        p = .draining (w.after (w.graceOf r)) ∧ w.closed r = false) := by
  have hstep := w.openCallStep r owner
  generalize w.openCall r owner = v at hstep
  cases hstep with
  | missing hn => cases hn.symm.trans (relay?_of_lt_size hr)
  | late hc => exact ⟨_, rfl, .inl ⟨rfl, hc⟩⟩
  | closes ho hq =>
    refine ⟨_, rfl, .inr ⟨?_, ho⟩⟩
    rw [graceOf, hq]
    rfl

inductive CallStep (w : World) (c : Nat) : World → Prop where
  | stays : CallStep w c w
  | drained {k : Call} {deadline : Nat} : w.call? c = some k → k.phase = .draining deadline →
    w.liveWorkers k.relay = 0 → CallStep w c (w.flush c k.relay ⟨.allDrainedWithin, []⟩ none)
  | expired {k : Call} {deadline : Nat} : w.call? c = some k → k.phase = .draining deadline →
    w.liveWorkers k.relay ≠ 0 → deadline ≤ w.now → CallStep w c
      ((w.cancelAll k.relay).setPhase c (.cancelling (w.liveWorkers k.relay)))
  | stopped {k : Call} {pending : Nat} : w.call? c = some k → k.phase = .cancelling pending →
    w.liveWorkers k.relay = 0 → CallStep w c (w.flush c k.relay (.graceExceeded pending)
      (some (.graceExceeded (w.graceOf k.relay) pending)))
  | returns {k : Call} {result : Option RelayError} : w.call? c = some k →
    k.phase = .flushing result → w.listenersStopped k.relay = true →
    CallStep w c (w.setPhase c (.returned result))

theorem callStep (w : World) (c : Nat) : CallStep w c (w.stepCall c) := by
  unfold stepCall
  cases hk : w.call? c with
  | none => exact .stays
  | some k =>
    dsimp only
    cases hp : k.phase with
    | draining deadline =>
      dsimp only
      by_cases hl : w.liveWorkers k.relay = 0
      · rw [if_pos hl]
        exact .drained hk hp hl
      · rw [if_neg hl]
        by_cases hd : deadline ≤ w.now
        · rw [if_pos hd]
          exact .expired hk hp hl hd
        · rw [if_neg hd]
          exact .stays
    | cancelling pending =>
      dsimp only
      by_cases hl : w.liveWorkers k.relay = 0
      · rw [if_pos hl]
        exact .stopped hk hp hl
      · rw [if_neg hl]
        exact .stays
    | flushing result =>
      dsimp only
      by_cases hl : w.listenersStopped k.relay = true
      · rw [if_pos hl]
        exact .returns hk hp hl
      · rw [if_neg hl]
        exact .stays
    | returned result => exact .stays
    | dropped => exact .stays

/-- A shutdown whose grace is over while workers are left fires all tokens of its relay. -/
theorem stepCall_expired {c : Nat} {k : Call} {deadline : Nat} (hk : w.call? c = some k)
    (hp : k.phase = .draining deadline) (hl : w.liveWorkers k.relay ≠ 0)
    (hd : deadline ≤ w.now) : w.stepCall c =
      (w.cancelAll k.relay).setPhase c (.cancelling (w.liveWorkers k.relay)) := by
  simp only [stepCall, hk, hp, if_neg hl, if_pos hd]

theorem reports_flush (hr : r < w.relays.size) (c : Nat) (d : Event.Draft)
    (result : Option RelayError) : w.Reports r [d] (w.flush c r d result) := by
  have he : w.Reports r [d] (w.emit r d) := .emit hr d
  have hm := he.append (.modifyRelay (w.emit r d) r r (f := fun q => { q with stopping := true })
    fun _ => ⟨rfl, rfl⟩)
  exact hm.sameCore rfl rfl rfl

theorem active_flush (w : World) (c r : Nat) (d : Event.Draft) (result : Option RelayError)
    (n : Nat) : (w.flush c r d result).active n = w.active n := by
  refine (active_modifyRelay ..).trans (Eq.trans ?_ (active_emit w r n d))
  split
  · rw [active]
  · rfl

theorem closed_flush (w : World) (c r : Nat) (d : Event.Draft) (result : Option RelayError)
    (n : Nat) : (w.flush c r d result).closed n = w.closed n := by
  refine (closed_modifyRelay ..).trans (Eq.trans ?_ (closed_emit w r n d))
  split
  · rw [closed]
  · rfl

theorem conclusions_take (w : World) (id : SubscriberId) (m : Message) (queue : List Message)
    (i : SubscriberId) : (w.take id m queue).conclusions i = w.conclusions i :=
  (conclusions_note ..).trans (List.append_nil _)

theorem conclusions_concluded (w : World) (id i : SubscriberId) (how : Conclusion) :
    (w.note (.concluded id how)).conclusions i =
      w.conclusions i ++ if id = i then [how] else [] := by
  rw [conclusions_note, Note.conclusionOf?]
  split <;> rfl

theorem rows_concluded (w : World) (id i : SubscriberId) (how : Conclusion) :
    (w.note (.concluded id how)).rows i = w.rows i :=
  (rows_note ..).trans (List.append_nil _)

theorem rows_row (w : World) (id : SubscriberId) (x : Row) (i : SubscriberId) :
    (w.row id x).rows i = w.rows i ++ if id = i then [x] else [] := by
  refine (rows_note ..).trans (congrArg (w.rows i ++ ·) ?_)
  rw [Note.rowOf?]
  split <;> rfl

theorem conclusions_row (w : World) (id : SubscriberId) (x : Row) (i : SubscriberId) :
    (w.row id x).conclusions i = w.conclusions i :=
  (conclusions_note ..).trans (List.append_nil _)

theorem reports_contain (hr : r < w.relays.size) (id : SubscriberId) (f : SinkFault) :
    w.Reports r [.fault (w.nameOf id) id f] (w.contain id r f) := by
  let u := (w.finish id (.fault f)).trace (.contained (w.nameOf id) id f)
  have hu : w.Reports r [] u := .nil rfl rfl rfl
  exact hu.append (.emit (w := u) hr _)

theorem active_contain (w : World) (id : SubscriberId) (r : Nat) (f : SinkFault) (n : Nat) :
    (w.contain id r f).active n = w.active n :=
  active_emit ..

theorem closed_contain (w : World) (id : SubscriberId) (r : Nat) (f : SinkFault) (n : Nat) :
    (w.contain id r f).closed n = w.closed n :=
  closed_emit ..

theorem abandon_eq (w : World) (id : SubscriberId) (wait : Wait) :
    ∃ calls, w.abandon id wait = { w.row id .aborted with calls := calls } := by
  cases wait <;> exact ⟨_, rfl⟩

theorem relayNames_build (w : World) (name : String) (config : Config)
    (observers : List Observer) {x : String × Nat}
    (hx : x ∈ (w.build name config observers).1.relayNames) :
    x ∈ w.relayNames ∨ x.2 = w.relays.size ∧
      x.2 < (w.build name config observers).1.relays.size := by
  unfold build at hx ⊢
  split at hx
  · exact .inl hx
  · rename_i hc
    rw [if_neg hc]
    rcases List.mem_cons.mp hx with rfl | hx
    · refine .inr ⟨rfl, ?_⟩
      simp [nameRelay]
    · exact .inl (List.mem_filter.mp hx).1

theorem relayNames_register (w : World) (r : Nat) (name : String) (sink : Sink) :
    (w.register r name sink).1.relayNames = w.relayNames := by
  have hstep := w.registerStep r name sink
  generalize (w.register r name sink).1 = v at hstep
  cases hstep with
  | panics | ignored | enrolls => rfl

theorem relayNames_unregister (w : World) (r : Nat) (id : SubscriberId) :
    (w.unregister r id).1.relayNames = w.relayNames := by
  rw [unregister]
  split <;> rfl

theorem relayNames_openCall (w : World) (r : Nat) (owner : Option SubscriberId) :
    (w.openCall r owner).relayNames = w.relayNames := by
  have hstep := w.openCallStep r owner
  generalize w.openCall r owner = v at hstep
  cases hstep with
  | missing | late => rfl
  | @closes q => exact relayNames_close w r q

theorem relayNames_abandon (w : World) (id : SubscriberId) (wait : Wait) :
    (w.abandon id wait).relayNames = w.relayNames := by
  obtain ⟨calls, he⟩ := w.abandon_eq id wait
  rw [he]
  rfl

end Fanout.World
