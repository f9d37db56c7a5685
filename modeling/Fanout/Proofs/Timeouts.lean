import Fanout.Proofs.Deadlines

/-! # Timeouts

A worker whose delivery has to wait at its deadline gives up on it, but only after it has polled it
there once more. That delivery is over for good, and the worker turns to the next message at the
same time, unless it finds that it has been told to stop.
-/
namespace Fanout

variable {a b : Moment} {u v w : World} {id : SubscriberId} {s : Subscriber} {m : Message}

theorem Outcome.waits_of_timedOut {o : Outcome} {l : Slice} {T : Duration}
    (ho : o.conclusion? w l = some (.fault (.timedOut T)))
    (hown : ∀ f, o = .ended (some f) → f.isOwn = true) :
    (∃ wait rest, o = .waits wait rest) ∧ w.overdue l.deadline = true := by
  cases o with
  | ended f =>
    cases f with
    | none => cases ho
    | some f =>
      cases ho
      cases hown _ rfl
  | crashed => cases ho
  | waits wait rest =>
    refine ⟨⟨wait, rest, rfl⟩, ?_⟩
    by_contra hd
    rw [Outcome.conclusion?, if_neg hd] at ho
    cases ho

/-- What a worker must find for its step to end with a timeout, and where that leaves it. -/
structure World.Expires (w : World) (id : SubscriberId) (s : Subscriber) (d : Delivery)
    (T : Duration) : Prop where
  phase : s.phase = .delivering d
  unfired : s.cancelled = false
  waits : ∃ wait rest, (w.poll id d).2 = .waits wait rest
  overdue : w.overdue d.deadline = true
  concluded : (w.stepWorker id).conclusions id = w.conclusions id ++ [.fault (.timedOut T)]
  idle : ∀ t, (w.stepWorker id).subscriber? id = some t → t.phase = .idle

theorem World.expires (hs : w.subscriber? id = some s) {T : Duration} {xs : List Conclusion}
    (hx : (w.stepWorker id).conclusions id = w.conclusions id ++ xs)
    (hT : .fault (.timedOut T) ∈ xs)
    (hfresh : w.overdue (w.deadlineFor s.relay) = false) : ∃ d, w.Expires id s d T := by
  have hone : ∀ {v : World} {c : Option Conclusion}, v.conclusions id =
      w.conclusions id ++ c.toList → v.conclusions id = w.conclusions id ++ xs →
      c = some (.fault (.timedOut T)) := by
    intro v c hv hv'
    obtain rfl := List.append_cancel_left (hv.symm.trans hv')
    exact Option.mem_toList.mp hT
  have hstep := w.workerStep id
  generalize hv : w.stepWorker id = v at hstep hx
  cases hstep with
  | stays => cases hone (c := none) (List.append_nil _).symm hx
  | stops => cases hone (c := none) ((conclusions_trace ..).trans (List.append_nil _).symm) hx
  | @aborts t d =>
    refine nomatch hone (c := some .cancelled) ?_ hx
    refine (conclusions_trace ..).trans ((conclusions_concluded ..).trans ?_)
    rw [if_pos rfl, conclusions_abandon]
    rfl
  | @crashes t m queue =>
    refine nomatch hone (c := some .crashed) ?_ hx
    refine (conclusions_concluded ..).trans ?_
    rw [if_pos rfl, conclusions_take]
    rfl
  | @begins t m queue x ht _ _ _ hact =>
    obtain rfl := Option.mem_unique hs ht
    have hp : (w.take id m queue).Plain x.1 := hact ▸ Plain.calls.actAll ..
    have hcon := conclusions_conclude x.1 id s.relay m (w.deadlineFor s.relay) x.2
    rw [hp.conclusions, conclusions_take] at hcon
    obtain ⟨-, hdue⟩ := Outcome.waits_of_timedOut (hone hcon hx)
      fun f hf => isOwn_actAll (w.take id m queue) id _ (hact ▸ hf)
    have hnow : x.1.now = w.now := hp.clock
    rw [overdue, hnow] at hdue
    cases hdue.symm.trans hfresh
  | @polls t d x ht hph hc hpoll =>
    obtain rfl := Option.mem_unique hs ht
    have hp : w.Plain x.1 := hpoll ▸ Plain.calls.poll ..
    have hcon := conclusions_conclude x.1 id s.relay d.message d.deadline x.2
    rw [hp.conclusions] at hcon
    have hout := hone hcon hx
    obtain ⟨⟨wait, rest, hw⟩, hdue⟩ := Outcome.waits_of_timedOut hout
      fun f hf => isOwn_poll w id d (hpoll ▸ hf)
    refine ⟨d, hph, hc, ⟨wait, rest, hpoll ▸ hw⟩, ?_, ?_, ?_⟩
    · rw [overdue, hp.clock] at hdue
      exact hdue
    · rw [hv, hcon, hout]
      rfl
    · intro u hu
      rw [hv, hw, conclude, waitOn, if_pos hdue] at hu
      have hu := (subscriber?_modifySubscriber ..).symm.trans hu
      rw [if_pos rfl] at hu
      obtain ⟨y, -, rfl⟩ := Option.map_eq_some_iff.mp hu
      rfl

/-- After these deliveries none has begun yet. Message `m` is next, or the token has fired. -/
def Part.Awaits (p : Part) (started : List Message) (m : Message) : Prop :=
  p.started = started ∧ ∃ t, p.sub = some t ∧
    (t.cancelled = true ∨ p.slice = none ∧ t.phase = .idle ∧ ∃ queue, t.queue = m :: queue)

theorem PartChange.begins {p q : Part} (h : PartChange id w v p q) : q.started = p.started ∨
    ∃ s m queue, p.sub = some s ∧ s.cancelled = false ∧ s.queue = m :: queue ∧
      q.started = p.started ++ [m] := by
  cases h with
  | born | refused | withdraw | close | halt | accept | poll | engage | back | finish | fail | wait
  | stop => exact .inl rfl
  | begin hs _ _ hc hq | crash hs _ _ hc hq =>
    exact .inr ⟨_, _, _, hs, hc, hq, started_append ..⟩
  | row _ hx =>
    refine .inl ?_
    rw [Part.started, List.filterMap_append]
    simp [Row.message?_of_isPlain hx, Part.started]
  | overrun | abort => exact .inl (by simp [Part.started, Row.message?])

theorem PartChange.awaits {p q : Part} {started : List Message} (h : PartChange id w v p q)
    (hp : p.Awaits started m) : started ++ [m] <+: q.started ∨ q.Awaits started m := by
  obtain ⟨hst, t, ht, hnext⟩ := hp
  rcases h.begins with he | ⟨u, n, queue, hu, hc, hq, he⟩
  · have hturns : p.TurnsTo started m :=
      .inr ⟨t, ht, hnext.imp_right fun hn => ⟨hst, hn⟩⟩
    rcases h.turnsTo hturns with hpre | ⟨u, hu, hc | ⟨-, hn⟩⟩
    · exact .inl hpre
    · exact .inr ⟨he.trans hst, u, hu, .inl hc⟩
    · exact .inr ⟨he.trans hst, u, hu, .inr hn⟩
  · obtain rfl := Option.mem_unique ht hu
    rcases hnext with hcan | ⟨-, -, queue', hq'⟩
    · cases hc.symm.trans hcan
    · obtain ⟨rfl, -⟩ := List.cons.inj (hq.symm.trans hq')
      exact .inl (hst ▸ he ▸ List.prefix_rfl)

theorem Transitions.awaits {started : List Message} (hab : Transitions a b) (ha : a.Sound)
    (hp : (a.part id).Awaits started m) :
    started ++ [m] <+: (b.part id).started ∨ (b.part id).Awaits started m := by
  refine Transitions.keeps (I := fun p => started ++ [m] <+: p.started ∨ p.Awaits started m)
    (fun ht _ hi => ?_) hab ha (.inr hp)
  rcases hi with hpre | haw
  · exact .inl (hpre.trans (ht.rows_prefix.filterMap _))
  · exact ht.awaits haw

namespace World

/-- Where world `u` stands, come to from world `v` in which a worker has message `m` next: the
delivery of it has begun, at the time of `v`, or a token fired then and no delivery begins any
more, or the worker still is about to begin it, and no time has passed. -/
inductive ComesTo (v : World) (id : SubscriberId) (m : Message) (u : World) : Prop where
  | begun : v.starts id ++ [(v.now, m)] <+: u.starts id → ComesTo v id m u
  | told {x : World} {t : Subscriber} : TimedRun v x → TimedRun x u → x.now = v.now →
    x.starts id = v.starts id → u.starts id = v.starts id → x.subscriber? id = some t →
    t.cancelled = true → ComesTo v id m u
  | next {t : Subscriber} {queue : List Message} : u.now = v.now →
    u.starts id = v.starts id → u.subscriber? id = some t → t.phase = .idle →
    t.queue = m :: queue → u.workerReady id = true →
    u.stepWorker id = u.begin id t m queue → ComesTo v id m u

theorem awaits_of_idle (hs : u.subscriber? id = some s) (hi : s.phase = .idle)
    {queue : List Message} (hq : s.queue = m :: queue) (ps : List Publication) :
    (Moment.part ⟨u, none, ps⟩ id).Awaits (u.started id) m :=
  ⟨rfl, s, hs, .inr ⟨rfl, hi, queue, hq⟩⟩

theorem comesTo_of_awaits (hvu : TimedRun v u) (hnow : u.now = v.now)
    (hst : u.starts id = v.starts id) {ps : List Publication} {started : List Message}
    (ha : (Moment.part ⟨u, none, ps⟩ id).Awaits started m) : v.ComesTo id m u := by
  obtain ⟨-, t, ht, hnext⟩ := ha
  have ht : u.subscriber? id = some t := ht
  cases hc : t.cancelled with
  | true => exact .told hvu .refl hnow hst hst ht hc
  | false =>
    rcases hnext with hcan | ⟨-, hi, queue, hq⟩
    · cases hc.symm.trans hcan
    · refine .next hnow hst ht hi hq ?_ ?_
      · simp [workerReady, ht, hi, hq]
      · simp [stepWorker, ht, hi, hc, hq]

theorem comesTo (hv : v.TimedReachable) (hs : v.subscriber? id = some s) (hi : s.phase = .idle)
    {queue : List Message} (hq : s.queue = m :: queue) (h : TimedRun v u) : v.ComesTo id m u := by
  induction h with
  | refl => exact comesTo_of_awaits .refl rfl rfl (awaits_of_idle hs hi hq [])
  | @tail x k hx hk htime ih =>
    obtain ⟨ps, hwalked⟩ := walked_of_reachable (TimedReachable.reachable (hv.trans hx))
    obtain ⟨qs, hwalk⟩ := walk_move hk ps
    cases ih with
    | begun hpre =>
      obtain ⟨-, xs, hxs, -⟩ := hwalk.starts id
      have hxs : (x.move k).starts id = x.starts id ++ xs := hxs
      exact .begun (hpre.trans (hxs ▸ List.prefix_append _ _))
    | @told y t hvy hyx hnow hsame _ ht hc =>
      obtain ⟨rs, hy⟩ := walked_of_reachable (TimedReachable.reachable (hv.trans hvy))
      obtain ⟨ts, hyk⟩ := walk_run (hyx.tail k hk htime).run rs
      have hend : (x.move k).starts id = y.starts id :=
        hyk.starts_eq (Transitions.started (Walk.transitions hyk) hy.reached.sound ht (.inl hc))
      exact .told hvy (hyx.tail k hk htime) hnow hsame (hend.trans hsame) ht hc
    | next hnow hsame ht hi hq hready =>
      have hmove : ∀ time, k ≠ .pass time := by
        rintro time rfl
        cases hready.symm.trans (workerReady_of_quiet htime.1 id)
      have hclock : (x.move k).now = x.now := now_move hmove
      rcases (Walk.transitions hwalk).awaits hwalked.reached.sound (awaits_of_idle ht hi hq ps) with
        hpre | haw
      · have hbegun : x.starts id ++ [(x.now, m)] <+: (x.move k).starts id :=
          hwalk.starts_prefix hclock hpre
        rw [hsame, hnow] at hbegun
        exact .begun hbegun
      · have hst : (x.move k).starts id = x.starts id := hwalk.starts_eq haw.1
        exact comesTo_of_awaits (hx.tail k hk htime) (hclock.trans hnow) (hst.trans hsame) haw

/-- All deliveries but the one underway have been concluded. -/
theorem length_starts_of_delivering (hw : w.Reachable) (hs : w.subscriber? id = some s)
    {d : Delivery} (hd : s.phase = .delivering d) :
    (w.starts id).length = (w.conclusions id).length + 1 := by
  obtain ⟨ps, hwalked⟩ := walked_of_reachable hw
  have hcount := hwalked.reached.counted id
  rw [Part.counted_iff_of_sub rfl hs, hd] at hcount
  have hlen := congrArg List.length (started_eq w id)
  rw [List.length_map] at hlen
  exact hlen.symm.trans hcount

/-- Every delivery is concluded before the next one begins, and conclusions stay. -/
theorem lt_starts_of_run (hv : v.Reachable) (hvu : Run v u) {t : Subscriber} {d : Delivery}
    (ht : u.subscriber? id = some t) (hd : t.phase = .delivering d) :
    (v.conclusions id).length < (u.starts id).length := by
  obtain ⟨ps, hwalked⟩ := walked_of_reachable hv
  obtain ⟨qs, hwalk⟩ := walk_run hvu ps
  have hmono : (v.conclusions id).length ≤ (u.conclusions id).length := by
    refine Transitions.keeps (I := fun p => (v.conclusions id).length ≤ p.conclusions.length)
      (fun ht _ hp => ?_) (Walk.transitions hwalk) hwalked.reached.sound (Nat.le_refl _)
    rcases ht.charges with ⟨he, -⟩ | ⟨_, x, -, he, -⟩
    · exact he ▸ hp
    · rw [he, List.length_append]
      exact Nat.le_add_right_of_le hp
  rw [length_starts_of_delivering (hv.trans hvu) ht hd]
  exact Nat.lt_succ_of_le hmono

/-- In world `w` move `k` ends the delivery underway to a subscriber by a timeout of `T`. -/
structure Overruns (w : World) (id : SubscriberId) (s : Subscriber) (k : Move) (T : Duration) :
    Prop where
  own : k = .step (.worker id)
  limit : T = w.timeoutOf s.relay ∧ 0 < T.nanoseconds
  unfired : s.cancelled = false
  /-- It is due, and polled once more its code only waits. -/
  delivery : ∃ d t wait rest, s.phase = .delivering d ∧
    (w.starts id).getLast? = some (t, d.message) ∧ w.now = t + T.millisUp ∧
    (w.poll id d).2 = .waits wait rest
  concluded : (w.move k).conclusions id = w.conclusions id ++ [.fault (.timedOut T)]
  /-- Whatever delivery is underway from then on has begun later. -/
  final : ∀ u, Run (w.move k) u → ∀ t d, u.subscriber? id = some t → t.phase = .delivering d →
    (w.starts id).length < (u.starts id).length
  next : ∀ t m queue, (w.move k).subscriber? id = some t → t.queue = m :: queue →
    ∀ u, TimedRun (w.move k) u → (w.move k).ComesTo id m u

theorem not_overdue_deadlineFor {r : Nat} (hrep : (w.timeoutOf r).seconds ≤ maxSeconds) :
    w.overdue (w.deadlineFor r) = false := by
  rw [Bool.eq_false_iff]
  intro hdue
  obtain ⟨n, hn, hle⟩ := overdue_iff.mp hdue
  rw [deadlineFor_eq] at hn
  obtain ⟨limit, hl, rfl⟩ := Option.map_eq_some_iff.mp hn
  obtain ⟨rfl, hpos⟩ := limitOf_eq_some_iff.mp hl
  have hup := Duration.millisUp_pos hpos
  rw [Duration.over_of_le hrep] at hle
  omega

/-- The delivery underway has its deadline at the end of its time, which is not past. -/
theorem underway (hw : w.TimedReachable) (hs : w.subscriber? id = some s) {d : Delivery}
    (hd : s.phase = .delivering d) (hrep : (w.timeoutOf s.relay).seconds ≤ maxSeconds)
    (hpos : 0 < (w.timeoutOf s.relay).nanoseconds) :
    ∃ t, (w.starts id).getLast? = some (t, d.message) ∧
      d.deadline = some (t + (w.timeoutOf s.relay).millisUp) ∧
      w.now ≤ t + (w.timeoutOf s.relay).millisUp := by
  obtain ⟨ps, hwalked⟩ := timedWalked_of_timedReachable hw
  obtain ⟨t, ht⟩ := hwalked.times_delivering hs hd
  have hdue : d.deadline = some (t + (w.timeoutOf s.relay).millisUp) := by
    have hdue := ht.due
    rw [limitOf_eq_some_iff.mpr ⟨rfl, hpos⟩, Option.map_some, Duration.over_of_le hrep] at hdue
    exact hdue
  exact ⟨t, ht.begun, hdue, ht.ahead _ hdue⟩

theorem limitOf_of_timedOut (hw : w.Reachable) (hs : w.subscriber? id = some s) {k : Move}
    (hk : w.Allows k) {T : Duration} (hT : .fault (.timedOut T) ∈ (w.move k).conclusions id) :
    w.limitOf s.relay = some T := by
  obtain ⟨ps, hwalked⟩ := walked_of_reachable hw
  obtain ⟨qs, hwalk⟩ := walk_move hk ps
  have hsteps := Walk.transitions hwalk
  have hsound := hwalked.reached.sound
  obtain ⟨u, hu, hr, -⟩ := hsteps.subscriber hsound hs
  rcases ((hwalked.trans hwalk).reached.limited hu).faults _ hT with hown | ⟨limit, hl, he⟩
  · cases hown
  · rw [hr, hsteps.limitOf hsound (hsound.housed id s hs)] at hl
    obtain rfl := SinkFault.timedOut.inj he
    exact hl

theorem overruns (hw : w.TimedReachable) (hs : w.subscriber? id = some s)
    (hrep : (w.timeoutOf s.relay).seconds ≤ maxSeconds) {k : Move} (hk : w.Allows k)
    {T : Duration} {xs : List Conclusion}
    (hx : (w.move k).conclusions id = w.conclusions id ++ xs) (hT : .fault (.timedOut T) ∈ xs) :
    w.Overruns id s k T := by
  have hown : k = .step (.worker id) := by
    by_contra hne
    have hsame : (w.move k).conclusions id = w.conclusions id := conclusions_move hne
    obtain rfl := List.append_right_eq_self.mp (hx.symm.trans hsame)
    cases hT
  subst hown
  have hmoved : (w.move (.step (.worker id))).TimedReachable := hw.tail _ hk trivial
  have hlimit := limitOf_of_timedOut hw.reachable hs hk (hx ▸ List.mem_append_right _ hT)
  obtain ⟨rfl, hpos⟩ := limitOf_eq_some_iff.mp hlimit
  obtain ⟨d, hexp⟩ := expires hs hx hT (not_overdue_deadlineFor hrep)
  obtain ⟨t, hbegun, hdeadline, hahead⟩ := underway hw hs hexp.phase hrep hpos
  have hnow : w.now = t + (w.timeoutOf s.relay).millisUp := by
    obtain ⟨n, hn, hle⟩ := overdue_iff.mp hexp.overdue
    obtain rfl := Option.some.inj (hn.symm.trans hdeadline)
    exact Nat.le_antisymm hahead hle
  obtain ⟨wait, rest, hwait⟩ := hexp.waits
  refine ⟨rfl, ⟨rfl, hpos⟩, hexp.unfired, ⟨d, t, wait, rest, hexp.phase, hbegun, hnow, hwait⟩,
    hexp.concluded, fun u hu t d ht hd => ?_, fun t m queue ht hq u hu => ?_⟩
  · have hlt := lt_starts_of_run hmoved.reachable hu ht hd
    have hcon : (w.move (.step (.worker id))).conclusions id = _ := hexp.concluded
    rw [hcon, List.length_append, List.length_singleton] at hlt
    rw [length_starts_of_delivering hw.reachable hs hexp.phase]
    exact hlt
  · exact comesTo hmoved ht (hexp.idle t ht) hq hu

end World

/-- Under a time limit, no delivery is underway for that long when the world is quiet. A delivery
ends by timeout only in a step of its own worker, whose token has not fired, at the deadline, and
only if the code, polled there once more, has to wait. It is not taken up again, and the worker
goes on with the next message at the same time, unless its token fires first. Without a time
limit no delivery ever ends so. -/
theorem timeout_ends_overdue_only (hw : w.TimedReachable) (hs : w.subscriber? id = some s)
    (hrep : (w.timeoutOf s.relay).seconds ≤ World.maxSeconds) :
    (0 < (w.timeoutOf s.relay).nanoseconds → w.quiet = true →
      ∀ d, s.phase = .delivering d → ∃ t, (w.starts id).getLast? = some (t, d.message) ∧
        w.now < t + (w.timeoutOf s.relay).millisUp) ∧
    (∀ k xs T, w.Allows k → (w.move k).conclusions id = w.conclusions id ++ xs →
      .fault (.timedOut T) ∈ xs → w.Overruns id s k T) ∧
    ((w.timeoutOf s.relay).nanoseconds = 0 →
      ∀ T, .fault (.timedOut T) ∉ w.conclusions id) := by
  refine ⟨fun hpos hq d hd => ?_, fun k xs T hk hx hT => World.overruns hw hs hrep hk hx hT,
    fun hzero T hT => ?_⟩
  · obtain ⟨t, hbegun, hdeadline, -⟩ := World.underway hw hs hd hrep hpos
    exact ⟨t, hbegun, World.lt_deadline_of_quiet hq hs hd hdeadline⟩
  · obtain ⟨ps, hwalked⟩ := World.walked_of_reachable hw.reachable
    rcases (hwalked.reached.limited hs).faults _ hT with hown | ⟨limit, hl, -⟩
    · cases hown
    · obtain ⟨rfl, hpos⟩ := World.limitOf_eq_some_iff.mp hl
      exact hpos.ne' hzero

namespace Tardy

def config : Config := { deliveryTimeout := .ofMillis 50 }
def sink (script : List Action) : Sink := { key := "sink", name := "sink", script := [script] }

/-- A sink with two messages. -/
def laden (script : List Action) : World :=
  (((({} : World).move (.build "relay" config [])).move (.register 0 "relay" (sink script))).move
    (.publish 0 .empty)).move (.publish 0 .empty)

def begun (script : List Action) : World := (laden script).move (.step (.worker ⟨0⟩))

def due (script : List Action) : World := (begun script).move (.pass 50)

def polled (script : List Action) : World := (due script).move (.step (.worker ⟨0⟩))

/-- Removes its own subscriber just when its time is over. -/
def parting : List Action := [.sleep 50, .unregister "sink", .hang]

theorem timedReachable_laden (script : List Action) : (laden script).TimedReachable := by
  have h₁ := World.TimedRun.single (w := {}) (.build "relay" config []) trivial trivial
  have h₂ := h₁.tail (.register 0 "relay" (sink script)) rfl trivial
  have h₃ := h₂.tail (.publish 0 .empty) ⟨"relay", rfl⟩ trivial
  exact h₃.tail (.publish 0 .empty) ⟨"relay", rfl⟩ trivial

theorem timedReachable_begun : (begun [.hang]).TimedReachable := by
  have hready : (laden [.hang]).ready (.worker ⟨0⟩) = true := by decide +kernel
  exact (timedReachable_laden [.hang]).tail (.step (.worker ⟨0⟩)) hready trivial

theorem timedReachable_hanging : (due [.hang]).TimedReachable :=
  timedReachable_begun.tail (.pass 50) trivial ⟨by decide +kernel, by decide +kernel⟩

theorem timedReachable_parting : (due parting).TimedReachable := by
  have hready : (laden parting).ready (.worker ⟨0⟩) = true := by decide +kernel
  exact ((timedReachable_laden parting).tail (.step (.worker ⟨0⟩)) hready trivial).tail (.pass 50)
    trivial ⟨by decide +kernel, by decide +kernel⟩

end Tardy

/-- A delivery that hangs is fine until its time is over. Then it is polled in vain, and the
second message comes at once. -/
theorem timeout_ends_overdue_only_hanging :
    (∃ t, (Tardy.begun [.hang]).now < t + 50) ∧
    (∃ s, (Tardy.due [.hang]).subscriber? ⟨0⟩ = some s ∧
      (Tardy.due [.hang]).Overruns ⟨0⟩ s (.step (.worker ⟨0⟩)) (.ofMillis 50)) ∧
    (((Tardy.polled [.hang]).stepWorker ⟨0⟩).starts ⟨0⟩).map Prod.fst = [0, 50] := by
  have hready : (Tardy.due [.hang]).ready (.worker ⟨0⟩) = true := by decide +kernel
  have hbegun : (Tardy.begun [.hang]).subscriber? ⟨0⟩ = some _ := rfl
  have hdue : (Tardy.due [.hang]).subscriber? ⟨0⟩ = some _ := rfl
  have hcon : (Tardy.polled [.hang]).conclusions ⟨0⟩ =
      (Tardy.due [.hang]).conclusions ⟨0⟩ ++ [.fault (.timedOut (.ofMillis 50))] := by
    decide +kernel
  obtain ⟨hquiet, -, -⟩ := timeout_ends_overdue_only Tardy.timedReachable_begun hbegun
    (by decide +kernel)
  obtain ⟨-, hends, -⟩ := timeout_ends_overdue_only Tardy.timedReachable_hanging hdue
    (by decide +kernel)
  refine ⟨?_, ⟨_, hdue, hends (.step (.worker ⟨0⟩)) _ _ hready hcon (List.mem_singleton.mpr rfl)⟩,
    by decide +kernel⟩
  obtain ⟨t, -, hlt⟩ := hquiet (by decide +kernel) (by decide +kernel) _ rfl
  exact ⟨t, hlt⟩

/-- A delivery that removes its own subscriber at the deadline and then waits ends by timeout as
well, and the next message is not delivered. -/
theorem next_message_lost_after_timeout : ¬ ∀ (w : World) (id : SubscriberId) (s : Subscriber)
    (k : Move) (T : Duration), w.TimedReachable → w.subscriber? id = some s →
    (w.timeoutOf s.relay).seconds ≤ World.maxSeconds → w.Allows k →
    (w.move k).conclusions id = w.conclusions id ++ [.fault (.timedOut T)] →
    ∀ t m queue, (w.move k).subscriber? id = some t → t.queue = m :: queue →
    ∃ u, World.TimedRun (w.move k) u ∧
      (w.move k).starts id ++ [((w.move k).now, m)] <+: u.starts id := by
  intro h
  have hs : (Tardy.due Tardy.parting).subscriber? ⟨0⟩ = some _ := rfl
  have ht : (Tardy.polled Tardy.parting).subscriber? ⟨0⟩ = some _ := rfl
  have hcon : (Tardy.polled Tardy.parting).conclusions ⟨0⟩ =
      (Tardy.due Tardy.parting).conclusions ⟨0⟩ ++ [.fault (.timedOut (.ofMillis 50))] := by
    decide +kernel
  have hready : (Tardy.due Tardy.parting).ready (.worker ⟨0⟩) = true := by decide +kernel
  have hmoved : (Tardy.polled Tardy.parting).TimedReachable :=
    Tardy.timedReachable_parting.tail (.step (.worker ⟨0⟩)) hready trivial
  obtain ⟨u, hrun, hpre⟩ := h _ ⟨0⟩ _ (.step (.worker ⟨0⟩)) (.ofMillis 50)
    Tardy.timedReachable_parting hs (by decide +kernel) hready hcon _ .empty [] ht rfl
  have hrun : World.TimedRun (Tardy.polled Tardy.parting) u := hrun
  obtain ⟨ps, hwalked⟩ := World.walked_of_reachable hmoved.reachable
  obtain ⟨qs, hwalk⟩ := World.walk_run hrun.run ps
  have hsame : u.started ⟨0⟩ = (Tardy.polled Tardy.parting).started ⟨0⟩ :=
    Transitions.started (Walk.transitions hwalk) hwalked.reached.sound ht (.inl rfl)
  have hlen := (hpre.map Prod.snd).length_le
  rw [← World.started_eq u, hsame, World.started_eq, List.map_append, List.length_append] at hlen
  exact Nat.not_succ_le_self _ hlen

end Fanout
