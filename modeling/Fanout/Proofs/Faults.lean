import Mathlib.Data.List.Forall2
import Fanout.Proofs.Draining
import Fanout.Proofs.Walks

/-! # Faults are reported and stop nothing

A delivery that ends with an error, a panic or a timeout is reported once, on the bus of its
relay. One that ends well, or that its worker has to let go of, is not. Nobody else notices, and
the worker goes on with the next message in its queue.
-/
namespace Fanout

def Conclusion.fault? : Conclusion → Option SinkFault
  | .fault f => some f
  | .delivered | .cancelled | .crashed => none

def Conclusion.reports (name : String) (id : SubscriberId) (x : Conclusion) : List Event.Draft :=
  (x.fault?.map (Event.Draft.fault name id)).toList

/-- The conclusion of a delivery whose slice comes out so, unless it goes on waiting. -/
def Outcome.conclusion? (w : World) (l : Slice) : Outcome → Option Conclusion
  | .ended none => some .delivered
  | .ended (some f) => some (.fault f)
  | .crashed => some .crashed
  | .waits _ _ =>
    if w.overdue l.deadline then some (.fault (.timedOut (w.timeoutOf l.relay))) else none

/-- An event that reports a fault, with all that it says of it. -/
structure Event.Tells (e : Event) (name : String) (id : SubscriberId) (f : SinkFault) :
    Prop where
  kind : e.kind = .ofFault f
  subscriber : e.subscriber = some name
  id : e.id = some id
  reason : e.reason = some f.reason
  timeout : e.timeoutMs = match f with
    | .timedOut d => some (capped d.millis)
    | _ => none
  recipients : e.recipients = none

theorem Event.tells_stamp (name : String) (id : SubscriberId) (f : SinkFault) (seq time : Nat) :
    ((Draft.fault name id f).stamp seq time).Tells name id f := by
  cases f <;> exact ⟨rfl, rfl, rfl, rfl, rfl, rfl⟩

def World.limitOf (w : World) (r : Nat) : Option Duration :=
  (w.relay? r).bind (·.config.deliveryLimit)

theorem Config.eq_of_deliveryLimit {c : Config} {d : Duration} (hd : c.deliveryLimit = some d) :
    c.deliveryTimeout = d := by
  rw [deliveryLimit] at hd
  split at hd
  · cases hd
  · exact Option.some.inj hd

theorem World.timeoutOf_eq {w : World} {r : Nat} {d : Duration} (hd : w.limitOf r = some d) :
    w.timeoutOf r = d := by
  obtain ⟨q, hq, hd⟩ := Option.bind_eq_some_iff.mp hd
  rw [timeoutOf, hq]
  exact Config.eq_of_deliveryLimit hd

def Moment.conclude (a : Moment) (l : Slice) (o : Outcome) : Moment :=
  { a with world := a.world.conclude l.id l.relay l.message l.deadline o, slice := none }

/-- A delivery to a subscriber comes to its conclusion: its code is through or its time is over,
or its worker, told to stop, lets go of it, or it takes the worker down. -/
inductive Moment.Concludes (a : Moment) (id : SubscriberId) : Moment → Conclusion → Prop where
  | code {l : Slice} {o : Outcome} {how : Conclusion} : a.slice = some l → l.id = id → o.Fits l →
    o.conclusion? a.world l = some how → Concludes a id (a.conclude l o) how
  | abort {s : Subscriber} {d : Delivery} : a.slice = none → a.world.subscriber? id = some s →
    s.phase = .delivering d → s.cancelled = true → Concludes a id { a with
      world := ((a.world.abandon id d.wait).note (.concluded id .cancelled)).stopWorker id }
      .cancelled
  | crash {s : Subscriber} {m : Message} {queue : List Message} : a.slice = none →
    a.world.subscriber? id = some s → s.phase = .idle → s.cancelled = false →
    s.queue = m :: queue → s.sink.BringsDown s.begun → Concludes a id { a with
      world := (a.world.take id m queue).crash id } .crashed

namespace World

variable {w v : World} {r : Nat}

theorem conclusions_of_journal (hj : v.journal = w.journal) (id : SubscriberId) :
    v.conclusions id = w.conclusions id := by
  rw [conclusions, hj, conclusions]

theorem overdue_iff {deadline : Option Nat} :
    w.overdue deadline = true ↔ ∃ t, deadline = some t ∧ t ≤ w.now := by
  cases deadline <;> simp [overdue]

theorem conclusions_finish (w : World) (id : SubscriberId) (how : Conclusion) :
    (w.finish id how).conclusions id = w.conclusions id ++ [how] :=
  (conclusions_concluded w id id how).trans (by rw [if_pos rfl])

theorem subscriber?_contain {id : SubscriberId} {s : Subscriber} (hs : w.subscriber? id = some s)
    (r : Nat) (f : SinkFault) :
    (w.contain id r f).subscriber? id = some { s with phase := .idle } := by
  refine (subscriber?_modifySubscriber (w.note (.concluded id (.fault f))) id id _).trans ?_
  rw [if_pos rfl]
  exact congrArg (Option.map _) hs

theorem conclusions_contain (w : World) (id : SubscriberId) (r : Nat) (f : SinkFault) :
    (w.contain id r f).conclusions id = w.conclusions id ++ [.fault f] :=
  (conclusions_trace ..).trans (conclusions_finish ..)

theorem conclusions_abandon (w : World) (i : SubscriberId) (wait : Wait) (id : SubscriberId) :
    (w.abandon i wait).conclusions id = w.conclusions id := by
  obtain ⟨calls, he⟩ := w.abandon_eq i wait
  rw [he]
  exact conclusions_row ..

theorem relays_abandon (w : World) (id : SubscriberId) (wait : Wait) :
    (w.abandon id wait).relays = w.relays := by
  obtain ⟨calls, he⟩ := w.abandon_eq id wait
  rw [he]
  rfl

theorem subscribers_abandon (w : World) (id : SubscriberId) (wait : Wait) :
    (w.abandon id wait).subscribers = w.subscribers := by
  obtain ⟨calls, he⟩ := w.abandon_eq id wait
  rw [he]
  rfl

theorem reports_overrun (hr : r < w.relays.size) (id : SubscriberId) (wait : Wait)
    (f : SinkFault) :
    w.Reports r [.fault (w.nameOf id) id f] ((w.abandon id wait).contain id r f) := by
  obtain ⟨calls, he⟩ := w.abandon_eq id wait
  let u : World := { w.row id .aborted with calls := calls }
  have hu : w.Reports r [] u := .nil rfl rfl rfl
  rw [he]
  exact hu.append (reports_contain (w := u) hr id f)

end World

variable {a b c : Moment} {id : SubscriberId} {s : Subscriber} {m : Message}

theorem conclusions_of_waiting {l : Slice} {o : Outcome} (ho : o.Fits l)
    (hk : o.conclusion? a.world l = none) (id : SubscriberId) :
    (a.conclude l o).world.conclusions id = a.world.conclusions id := by
  cases o with
  | ended f => cases f <;> cases hk
  | crashed => exact ho.elim
  | waits wait rest =>
    have hd : ¬ a.world.overdue l.deadline = true := by
      intro hd
      rw [Outcome.conclusion?, if_pos hd] at hk
      cases hk
    rw [Moment.conclude, World.conclude, World.waitOn, if_neg hd]
    rfl

theorem Transition.concludes (h : Transition a b) (id : SubscriberId) :
    b.world.conclusions id = a.world.conclusions id ∨ ∃ how, a.Concludes id b how := by
  cases h with
  | sameCore hv => exact .inl (hv.conclusions id)
  | build => exact .inl (World.conclusions_of_journal (World.journal_build ..) id)
  | register => exact .inl ((World.Plain.edits.register ..).conclusions id)
  | unregister => exact .inl ((World.Plain.edits.unregister ..).conclusions id)
  | publish => exact .inl ((World.Plain.edits.publish ..).conclusions id)
  | shutdown => exact .inl ((World.Plain.edits.openCall ..).conclusions id)
  | call c => exact .inl ((World.plain_stepCall ..).conclusions id)
  | giveUp c => exact .inl (congrArg Part.conclusions (part_giveUp c))
  | begin => exact .inl (World.conclusions_take ..)
  | poll | back => exact .inl rfl
  | row => exact .inl (World.conclusions_row ..)
  | stop => exact .inl (World.conclusions_trace ..)
  | @crash i s m queue hl hs hp hc hq hb =>
    by_cases hi : i = id
    · subst hi
      exact .inr ⟨_, .crash hl hs hp hc hq hb⟩
    · have htake := (World.Spares.deliveries hi).take a.world m queue
      exact .inl (htake.trans ((World.Spares.deliveries hi).crash _)).conclusions
  | @abort i s d hl hs hp hc =>
    by_cases hi : i = id
    · subst hi
      exact .inr ⟨_, .abort hl hs hp hc⟩
    · exact .inl ((World.Spares.deliveries hi).abort ..).conclusions
  | @conclude l o hl ho =>
    by_cases hi : l.id = id
    · cases hk : o.conclusion? a.world l with
      | some how => exact .inr ⟨how, .code hl hi ho hk⟩
      | none => exact .inl (conclusions_of_waiting ho hk id)
    · exact .inl ((World.Spares.deliveries hi).conclude ..).conclusions

/-- A fault changes nothing for anybody: not who is active, nor the part of any other
subscriber. Its own worker is idle again, with its queue and its token as they were. -/
structure Moment.Contains (a : Moment) (id : SubscriberId) (s : Subscriber) (b : Moment) :
    Prop where
  active : ∀ n, b.world.active n = a.world.active n
  others : ∀ i, i ≠ id → b.part i = a.part i
  slice : b.slice = none
  worker : b.world.subscriber? id = some { s with phase := .idle }

theorem reports_of_fault (name : String) (id : SubscriberId) (f : SinkFault) :
    (Conclusion.fault f).reports name id = [.fault name id f] := rfl

theorem conclude_cases (ha : a.Sound) (hs : a.world.subscriber? id = some s) {l : Slice}
    {o : Outcome} {how : Conclusion} (hl : a.slice = some l) (hi : l.id = id) (ho : o.Fits l)
    (hk : o.conclusion? a.world l = some how) :
    (how = .delivered ∧
      (a.conclude l o).world = a.world.finish id .delivered) ∨
    (∃ f, how = .fault f ∧ f.isOwn = true ∧
      (a.conclude l o).world = a.world.contain id s.relay f) ∨
    ∃ wait, how = .fault (.timedOut (a.world.timeoutOf s.relay)) ∧
      (∃ t, l.deadline = some t ∧ t ≤ a.world.now) ∧
      (a.conclude l o).world =
        (a.world.abandon id wait).contain id s.relay (.timedOut (a.world.timeoutOf s.relay)) := by
  subst hi
  obtain ⟨t, ht, hr, -⟩ := ha.slice l hl
  obtain rfl := Option.mem_unique hs ht
  cases o with
  | ended f =>
    cases f with
    | none =>
      obtain rfl := Option.some.inj hk
      exact .inl ⟨rfl, rfl⟩
    | some f =>
      obtain rfl := Option.some.inj hk
      refine .inr (.inl ⟨f, rfl, ho.2, ?_⟩)
      rw [hr]
      rfl
  | crashed => exact ho.elim
  | waits wait rest =>
    rw [Outcome.conclusion?] at hk
    split at hk
    · rename_i hd
      obtain rfl := Option.some.inj hk
      refine .inr (.inr ⟨wait, by rw [hr], World.overdue_iff.mp hd, ?_⟩)
      · rw [Moment.conclude, World.conclude, World.waitOn, if_pos hd, hr]
    · cases hk

namespace Moment.Concludes

variable {how : Conclusion}

theorem conclusions (h : a.Concludes id b how) (ha : a.Sound)
    (hs : a.world.subscriber? id = some s) :
    b.world.conclusions id = a.world.conclusions id ++ [how] := by
  cases h with
  | @code l o how hl hi ho hk =>
    rcases conclude_cases ha hs hl hi ho hk with ⟨rfl, he⟩ | ⟨f, rfl, -, he⟩ | ⟨wait, rfl, -, he⟩
    · rw [he]
      exact World.conclusions_finish ..
    · rw [he]
      exact World.conclusions_contain ..
    · rw [he]
      exact (World.conclusions_contain ..).trans
        (congrArg (· ++ [_]) (World.conclusions_abandon ..))
  | @abort t d hl ht hp hc =>
    refine (World.conclusions_trace ..).trans ((World.conclusions_concluded ..).trans ?_)
    rw [if_pos rfl, World.conclusions_abandon]
  | crash hl ht hp hc hq hb =>
    refine (World.conclusions_concluded ..).trans ?_
    rw [if_pos rfl, World.conclusions_take]

theorem reports (h : a.Concludes id b how) (ha : a.Sound)
    (hs : a.world.subscriber? id = some s) :
    a.world.Reports s.relay (how.reports s.name id) b.world := by
  have hr := ha.housed id s hs
  cases h with
  | @code l o how hl hi ho hk =>
    rcases conclude_cases ha hs hl hi ho hk with ⟨rfl, he⟩ | ⟨f, rfl, -, he⟩ | ⟨wait, rfl, -, he⟩
    · rw [he]
      exact .nil rfl rfl rfl
    · rw [he, reports_of_fault, ← nameOf_eq hs]
      exact World.reports_contain hr id f
    · rw [he, reports_of_fault, ← nameOf_eq hs]
      exact World.reports_overrun hr id wait _
  | @abort t d hl ht hp hc =>
    obtain ⟨calls, he⟩ := a.world.abandon_eq id d.wait
    rw [he]
    exact .nil rfl rfl rfl
  | crash hl ht hp hc hq hb => exact .nil rfl rfl rfl

theorem contains {f : SinkFault} (h : a.Concludes id b (.fault f)) (ha : a.Sound)
    (hs : a.world.subscriber? id = some s) : a.Contains id s b := by
  cases h with
  | @code l o how hl hi ho hk =>
    have hother : ∀ i, i ≠ id → (a.conclude l o).part i = a.part i := by
      intro i hne
      have hli : l.id ≠ i := fun h => hne (h.symm.trans hi)
      refine ((World.Spares.deliveries hli).conclude ..).part ?_ rfl
      exact (sliceOf_of_none rfl i).trans (sliceOf_of_ne hl hli).symm
    rcases conclude_cases ha hs hl hi ho hk with ⟨hn, -⟩ | ⟨g, -, -, he⟩ | ⟨wait, -, -, he⟩
    · cases hn
    · refine ⟨fun n => ?_, hother, rfl, ?_⟩
      · rw [he]
        exact World.active_contain ..
      · rw [he]
        exact World.subscriber?_contain hs _ g
    · refine ⟨fun n => ?_, hother, rfl, ?_⟩
      · rw [he]
        refine (World.active_contain ..).trans ?_
        rw [World.active_of_relays (World.relays_abandon ..)]
      · rw [he]
        refine World.subscriber?_contain (s := s) ?_ _ _
        rw [World.subscriber?, World.subscribers_abandon]
        exact hs

end Moment.Concludes

/-- The faults on the buses are those of the concluded deliveries, in order and one for one. -/
structure Part.Reported (p : Part) (id : SubscriberId) : Prop where
  unborn : p.sub = none → p.conclusions = [] ∧ ∀ n, p.faults n = []
  tells : ∀ s, p.sub = some s → List.Forall₂ (·.Tells s.name id ·) (p.faults s.relay)
    (p.conclusions.filterMap Conclusion.fault?)
  elsewhere : ∀ s n, p.sub = some s → n ≠ s.relay → p.faults n = []

/-- What a slice, a delivery and the concluded deliveries of a subscriber owe to the time limit. -/
structure Part.Limited (p : Part) (limit : Option Duration) : Prop where
  slice : ∀ l, p.slice = some l → l.deadline.isSome = true → limit.isSome = true
  delivery : ∀ s d, p.sub = some s → s.phase = .delivering d → d.deadline.isSome = true →
    limit.isSome = true
  faults : ∀ f, .fault f ∈ p.conclusions → f.isOwn = true ∨ ∃ d, limit = some d ∧ f = .timedOut d

namespace PartChange

variable {w v : World} {p q : Part}

/-- A fault that is concluded is reported in the same moment. -/
theorem charges (h : PartChange id w v p q) :
    (q.conclusions = p.conclusions ∧ q.faults = p.faults) ∨
    ∃ s x, p.sub = some s ∧ q.conclusions = p.conclusions ++ [x] ∧
      ((x.fault? = none ∧ q.faults = p.faults) ∨
        ∃ f, x = .fault f ∧ q.faults = p.withFault w id s f) := by
  cases h with
  | born | refused | withdraw | close | halt | accept | begin | poll | row | engage | back
  | wait | stop => exact .inl ⟨rfl, rfl⟩
  | crash hs | finish hs | abort hs => exact .inr ⟨_, _, hs, rfl, .inl ⟨rfl, rfl⟩⟩
  | fail hs | overrun hs => exact .inr ⟨_, _, hs, rfl, .inr ⟨_, rfl, rfl⟩⟩

theorem reported (h : PartChange id w v p q) (hp : p.Reported id) : q.Reported id := by
  have hback : q.sub = none → p.sub = none := by
    intro hn
    cases hs : p.sub with
    | none => rfl
    | some s =>
      obtain ⟨t, ht, -⟩ := h.sub hs
      cases hn.symm.trans ht
  rcases h.charges with ⟨hc, hf⟩ | ⟨s, x, hs, hc, hx⟩
  · refine ⟨fun hn => ?_, fun t ht => ?_, fun t n ht hn => ?_⟩
    · rw [hc, hf]
      exact hp.unborn (hback hn)
    · rw [hc, hf]
      cases hs : p.sub with
      | none =>
        obtain ⟨hcn, hfn⟩ := hp.unborn hs
        rw [hcn, hfn]
        exact .nil
      | some s =>
        obtain ⟨u, hu, hr, ⟨-, hk⟩, -⟩ := h.sub hs
        obtain rfl := Option.mem_unique ht hu
        rw [hr, hk]
        exact hp.tells s hs
    · rw [hf]
      cases hs : p.sub with
      | none => exact (hp.unborn hs).2 n
      | some s =>
        obtain ⟨u, hu, hr, -⟩ := h.sub hs
        obtain rfl := Option.mem_unique ht hu
        exact hp.elsewhere s n hs (hr ▸ hn)
  · obtain ⟨u, hu, hr, ⟨-, hk⟩, -⟩ := h.sub hs
    refine ⟨fun hn => ?_, fun t ht => ?_, fun t n ht hn => ?_⟩
    · cases hn.symm.trans hu
    · obtain rfl := Option.mem_unique ht hu
      have hold := hp.tells s hs
      rw [hc, List.filterMap_append, hr, hk]
      rcases hx with ⟨hnone, hf⟩ | ⟨f, rfl, hf⟩
      · simpa [hf, hnone] using hold
      · have hone : List.Forall₂ (Event.Tells · s.name id ·)
            [(Event.Draft.fault s.name id f).stamp w.nextSeq w.now] [f] :=
          .cons (Event.tells_stamp ..) .nil
        rw [hf, Part.withFault, if_pos rfl]
        exact List.rel_append hold hone
    · obtain rfl := Option.mem_unique ht hu
      rw [hr] at hn
      have hold := hp.elsewhere s n hs hn
      rcases hx with ⟨-, hf⟩ | ⟨f, -, hf⟩
      · rw [hf, hold]
      · rw [hf, Part.withFault, hold, if_neg (Ne.symm hn)]
        rfl

theorem limited_of_unborn (h : PartChange id w v p q) (hn : p.sub = none) (hp : p.Sound id)
    (hr : p.Reported id) (limit : Option Duration) : q.Limited limit := by
  have hslice : ∀ l, p.slice ≠ some l := by
    intro l hl
    obtain ⟨-, s, hs, -⟩ := hp.slice l hl
    cases hn.symm.trans hs
  have hnil := (hr.unborn hn).1
  cases h with
  | born _ hi | refused _ hi =>
    refine ⟨fun l hl => absurd hl (hslice l), fun s d hs hd => ?_, fun f hf => ?_⟩
    · obtain rfl := Option.some.inj hs
      cases hi.symm.trans hd
    · rw [hnil] at hf
      cases hf
  | close =>
    refine ⟨fun l hl => absurd hl (hslice l), fun s d hs => ?_, fun f hf => ?_⟩
    · cases hn.symm.trans hs
    · rw [hnil] at hf
      cases hf
  | withdraw hs | halt hs | accept _ hs | begin hs | crash hs | poll hs | finish hs | fail hs
  | overrun hs | wait hs | abort hs | stop hs => cases hn.symm.trans hs
  | row hl | engage _ hl | back hl => exact absurd hl (hslice _)

theorem limited (h : PartChange id w v p q) (hs : p.sub = some s)
    (hp : p.Limited (w.limitOf s.relay)) : q.Limited (w.limitOf s.relay) := by
  have hadd : ∀ {x : Conclusion}, (∀ f, x = .fault f → f.isOwn = true ∨
      ∃ d, w.limitOf s.relay = some d ∧ f = .timedOut d) →
      ∀ f, .fault f ∈ p.conclusions ++ [x] → f.isOwn = true ∨
        ∃ d, w.limitOf s.relay = some d ∧ f = .timedOut d := by
    intro x hx f hf
    rcases List.mem_append.mp hf with hf | hf
    · exact hp.faults f hf
    · exact hx f (List.mem_singleton.mp hf).symm
  cases h with
  | born hn | refused hn => cases hn.symm.trans hs
  | @withdraw t ht | @halt t _ _ _ ht | @accept t _ ht =>
    refine ⟨hp.slice, fun u d hu hd => ?_, hp.faults⟩
    obtain rfl := Option.some.inj hu
    exact hp.delivery t d ht hd
  | close | row => exact ⟨hp.slice, hp.delivery, hp.faults⟩
  | begin ht _ hi =>
    obtain rfl := Option.mem_unique hs ht
    refine ⟨fun l hl hd => ?_, fun u d hu hd => ?_, hp.faults⟩
    · obtain rfl := Option.some.inj hl
      exact Option.isSome_map.symm.trans hd
    · obtain rfl := Option.some.inj hu
      cases hi.symm.trans hd
  | crash =>
    refine ⟨hp.slice, fun u d hu hd => ?_, hadd fun f hf => ?_⟩
    · obtain rfl := Option.some.inj hu
      cases hd
    · cases hf
  | poll ht _ hph =>
    refine ⟨fun l hl hd => ?_, hp.delivery, hp.faults⟩
    obtain rfl := Option.some.inj hl
    exact hp.delivery _ _ ht hph hd
  | engage _ hj | back hj =>
    refine ⟨fun l hl hd => ?_, hp.delivery, hp.faults⟩
    obtain rfl := Option.some.inj hl
    exact hp.slice _ hj hd
  | finish =>
    refine ⟨fun l hl => ?_, fun u d hu hd => ?_, hadd fun f hf => ?_⟩
    · cases hl
    · obtain rfl := Option.some.inj hu
      cases hd
    · cases hf
  | fail _ _ _ ho =>
    refine ⟨fun l hl => ?_, fun u d hu hd => ?_, hadd fun f hf => .inl ?_⟩
    · cases hl
    · obtain rfl := Option.some.inj hu
      cases hd
    · cases hf
      exact ho
  | overrun ht hl hd =>
    obtain rfl := Option.mem_unique hs ht
    obtain ⟨t, hd, -⟩ := hd
    obtain ⟨d, hlim⟩ := Option.isSome_iff_exists.mp (hp.slice _ hl (by rw [hd]; rfl))
    refine ⟨fun l hl => ?_, fun u d hu hd => ?_, hadd fun f hf => .inr ⟨d, hlim, ?_⟩⟩
    · cases hl
    · obtain rfl := Option.some.inj hu
      cases hd
    · cases hf
      rw [World.timeoutOf_eq hlim]
  | wait _ hl _ hd =>
    refine ⟨fun l hl => ?_, fun u d hu hph hdead => ?_, hp.faults⟩
    · cases hl
    · obtain rfl := Option.some.inj hu
      obtain rfl := Phase.delivering.inj hph
      exact hp.slice _ hl (hd ▸ hdead)
  | abort =>
    refine ⟨hp.slice, fun u d hu hd => ?_, hadd fun f hf => ?_⟩
    · obtain rfl := Option.some.inj hu
      cases hd
    · cases hf
  | stop =>
    refine ⟨hp.slice, fun u d hu hd => ?_, hp.faults⟩
    obtain rfl := Option.some.inj hu
    cases hd

theorem rows_prefix (h : PartChange id w v p q) : p.rows <+: q.rows := by
  cases h with
  | born | refused | withdraw | close | halt | accept | poll | engage | back | finish | fail | wait
  | stop => exact List.prefix_rfl
  | begin | crash | row | overrun | abort => exact List.prefix_append _ _

end PartChange

theorem Moment.Reached.reported (ha : a.Reached) (id : SubscriberId) :
    (a.part id).Reported id := by
  refine Transitions.keeps (fun ht _ hp => ht.reported hp) ha sound_empty ⟨fun _ => ?_, ?_, ?_⟩
  · exact ⟨rfl, fun _ => rfl⟩
  · intro s hs
    cases hs
  · intro s n hs
    cases hs

theorem Transition.limitOf (h : Transition a b) (ha : a.Sound) {r : Nat}
    (hr : r < a.world.relays.size) : b.world.limitOf r = a.world.limitOf r := by
  have hq := World.relay?_of_lt_size hr
  obtain ⟨p, hp, hc⟩ := (h.relayChange ha).config hq
  rw [World.limitOf, hp, World.limitOf, hq, Option.bind_some, Option.bind_some, hc]

theorem Moment.Reached.limited (ha : a.Reached) (hs : a.world.subscriber? id = some s) :
    (a.part id).Limited (a.world.limitOf s.relay) := by
  induction ha generalizing s with
  | refl => cases hs
  | @tail c d hc hcd ih =>
    have hsound := Moment.Reached.sound hc
    cases ht : c.world.subscriber? id with
    | some t =>
      obtain ⟨u, hu, hr, -⟩ := Transitions.subscriber (.single hcd) hsound ht
      obtain rfl := Option.mem_unique hs hu
      rw [hr, hcd.limitOf hsound (hsound.housed id t ht)]
      rcases hcd.partChange hsound id with he | hchange
      · rw [he]
        exact ih ht
      · exact hchange.limited ht (ih ht)
    | none =>
      rcases hcd.partChange hsound id with he | hchange
      · have he : d.world.subscriber? id = c.world.subscriber? id := congrArg Part.sub he
        cases hs.symm.trans (he.trans ht)
      · exact hchange.limited_of_unborn ht (hsound.part id) (Moment.Reached.reported hc id) _

/-- Message `m` is the next one that a worker comes to, when these deliveries have begun: it has
come to it, or it still is about to, or it was told to stop before. -/
def Part.TurnsTo (p : Part) (started : List Message) (m : Message) : Prop :=
  started ++ [m] <+: p.started ∨ ∃ t, p.sub = some t ∧ (t.cancelled = true ∨
    p.started = started ∧ p.slice = none ∧ t.phase = .idle ∧ ∃ queue, t.queue = m :: queue)

theorem PartChange.turnsTo {w v : World} {p q : Part} {started : List Message}
    (h : PartChange id w v p q) (hp : p.TurnsTo started m) : q.TurnsTo started m := by
  rcases hp with hpre | ⟨t, ht, hc | ⟨hst, hl, hi, queue, hq⟩⟩
  · exact .inl (hpre.trans (h.rows_prefix.filterMap _))
  · obtain ⟨u, hu, -, -, hcan, -⟩ := h.sub ht
    exact .inr ⟨u, hu, .inl (hcan hc)⟩
  · cases h with
    | born hn | refused hn => cases hn.symm.trans ht
    | withdraw | halt => exact .inr ⟨_, rfl, .inl rfl⟩
    | close => exact .inr ⟨t, ht, .inr ⟨hst, hl, hi, queue, hq⟩⟩
    | accept n hu =>
      obtain rfl := Option.mem_unique ht hu
      refine .inr ⟨_, rfl, .inr ⟨hst, hl, hi, queue ++ [n], ?_⟩⟩
      rw [hq]
      rfl
    | begin hu _ _ _ hn | crash hu _ _ _ hn =>
      obtain rfl := Option.mem_unique ht hu
      obtain ⟨rfl, -⟩ := List.cons.inj (hn.symm.trans hq)
      refine .inl ?_
      rw [Part.started, started_append]
      exact (congrArg (· ++ [_]) hst).symm ▸ List.prefix_rfl
    | poll hu _ hd | abort hu _ hd =>
      obtain rfl := Option.mem_unique ht hu
      cases hi.symm.trans hd
    | row hn | engage _ hn | back hn | finish _ hn | fail _ hn | overrun _ hn | wait _ hn =>
      cases hl.symm.trans hn
    | stop hu _ _ hc =>
      obtain rfl := Option.mem_unique ht hu
      rcases hc with hc | ⟨hn, -⟩
      · exact .inr ⟨_, rfl, .inl hc⟩
      · cases hn.symm.trans hq

/-- Where a worker stands that has message `m` to deliver next, after these deliveries. -/
inductive Moment.GoesOn (c : Moment) (id : SubscriberId) (started : List Message) (m : Message) :
    Prop where
  | begun : started ++ [m] <+: c.world.started id → GoesOn c id started m
  | told {t : Subscriber} : c.world.subscriber? id = some t → t.cancelled = true →
    GoesOn c id started m
  | next {t : Subscriber} {queue : List Message} : c.world.subscriber? id = some t →
    t.queue = m :: queue → c.world.started id = started → c.world.workerReady id = true →
    c.world.stepWorker id = c.world.begin id t m queue → GoesOn c id started m

theorem Part.TurnsTo.goesOn {started : List Message} (h : (c.part id).TurnsTo started m) :
    c.GoesOn id started m := by
  rcases h with hpre | ⟨t, ht, hc | ⟨hst, -, hi, queue, hq⟩⟩
  · exact .begun hpre
  · exact .told ht hc
  · have ht : c.world.subscriber? id = some t := ht
    cases hc : t.cancelled with
    | true => exact .told ht hc
    | false =>
      refine .next ht hq hst ?_ ?_
      · simp [World.workerReady, ht, hi, hq]
      · simp [World.stepWorker, ht, hi, hc, hq]

/-- An idle worker comes to the first message in its queue before any other. -/
theorem Transitions.goesOn {queue : List Message} (hbc : Transitions b c) (hb : b.Sound)
    (hl : b.slice = none) (hs : b.world.subscriber? id = some s) (hi : s.phase = .idle)
    (hq : s.queue = m :: queue) : c.GoesOn id (b.world.started id) m := by
  refine (Transitions.keeps (fun ht _ hp => ht.turnsTo hp) hbc hb ?_).goesOn
  exact .inr ⟨s, hs, .inr ⟨rfl, sliceOf_of_none hl id, hi, queue, hq⟩⟩

/-- The faults on the bus of its relay that name a subscriber tell, under the name that its sink
gave, in order and one for one, of
the deliveries to it that ended with a fault: an error or a panic of its own, or the time limit
of the relay. No other bus has any. Each delivery that has begun is concluded once, but for the
one underway. A conclusion comes with just its fault on the bus, or with nothing. A fault changes
nothing for anybody, and its worker goes on with the next message unless it is told to stop. -/
theorem faults_reported (ha : a.Reached) (hs : a.world.subscriber? id = some s) :
    s.sink.name = .given s.name ∧
    List.Forall₂ (·.Tells s.name id ·) (a.world.faults s.relay id)
      ((a.world.conclusions id).filterMap Conclusion.fault?) ∧
    (∀ n, n ≠ s.relay → a.world.faults n id = []) ∧
    (∀ f, .fault f ∈ a.world.conclusions id →
      f.isOwn = true ∨ ∃ d, a.world.limitOf s.relay = some d ∧ f = .timedOut d) ∧
    (a.world.started id).length =
      (a.world.conclusions id).length + (a.part id).isUnderway.toNat ∧
    ∀ b, Transition a b →
      (b.world.conclusions id = a.world.conclusions id ∧
        ∀ n, b.world.faults n id = a.world.faults n id) ∨
      ∃ how, a.Concludes id b how ∧
        b.world.conclusions id = a.world.conclusions id ++ [how] ∧
        a.world.Reports s.relay (how.reports s.name id) b.world ∧
        ∀ f, how = .fault f → a.Contains id s b ∧
          ∀ m queue, s.queue = m :: queue →
            ∀ c, Transitions b c → c.GoesOn id (b.world.started id) m := by
  have hsound := ha.sound
  have hrep := ha.reported id
  refine ⟨ha.goesBy hs, hrep.tells s hs, fun n hn => hrep.elsewhere s n hs hn,
    (ha.limited hs).faults,
    ha.counted id, fun b hab => ?_⟩
  rcases hab.concludes id with hsame | ⟨how, hh⟩
  · refine .inl ⟨hsame, fun n => ?_⟩
    rcases hab.partChange hsound id with he | ht
    · exact congrFun (congrArg Part.faults he) n
    · rcases ht.charges with ⟨-, hf⟩ | ⟨_, x, -, hx, -⟩
      · exact congrFun hf n
      · cases List.append_right_eq_self.mp (hx.symm.trans hsame)
  · refine .inr ⟨how, hh, hh.conclusions hsound hs, hh.reports hsound hs, ?_⟩
    rintro f rfl
    have hcon := hh.contains hsound hs
    refine ⟨hcon, fun m queue hq c hbc => ?_⟩
    exact hbc.goesOn (hab.sound hsound) hcon.slice hcon.worker rfl hq

/-- A message is on its way to a sink that fails. -/
def Moment.doomed : Moment :=
  (Moment.opening {} [{ key := "sink", name := "sink", script := [[.fail "broken"]] }]).publish 0
    .empty

/-- Its worker has taken its turn, and the error is on the bus. -/
theorem faults_reported_doomed : ∃ e, (Moment.doomed.world.stepWorker ⟨0⟩).faults 0 ⟨0⟩ = [e] ∧
    e.Tells "sink" ⟨0⟩ (.failed (.fail "broken")) := by
  have hdoomed : Moment.doomed.Reached := (reached_opening {} (by decide) _).tail
    (.publish 0 .empty rfl)
  obtain ⟨ps, hps⟩ := World.leads_stepWorker Moment.doomed.world ⟨0⟩ Moment.doomed.published
  have hs : (Moment.doomed.world.stepWorker ⟨0⟩).subscriber? ⟨0⟩ = some _ := rfl
  have hc : (Moment.doomed.world.stepWorker ⟨0⟩).conclusions ⟨0⟩ =
      [.fault (.failed (.fail "broken"))] := rfl
  obtain ⟨-, htells, -⟩ := faults_reported (hdoomed.trans (TimedWalk.walk hps).transitions) hs
  rw [hc] at htells
  obtain ⟨e, es, he, hnil, hf⟩ := List.forall₂_cons_right_iff.mp htells
  exact ⟨e, hf.trans (congrArg _ (List.forall₂_nil_right_iff.mp hnil)), he⟩

end Fanout
