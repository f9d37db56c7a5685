import Fanout.Proofs.Flushing
import Fanout.Proofs.Steps

/-! # Deliveries against the clock

The journal has when each delivery began. The one underway is the last of them, and under a time
limit it has a deadline, which time does not pass over before its worker has taken a turn there.
-/
namespace Fanout

def Duration.over (d : Duration) (t : Nat) : Nat :=
  if World.maxSeconds < d.seconds then t + 946080000000 else t + d.millisUp

theorem Duration.over_of_le {d : Duration} (hd : d.seconds ≤ World.maxSeconds) (t : Nat) :
    d.over t = t + d.millisUp :=
  if_neg (Nat.not_lt.mpr hd)

theorem Duration.millisUp_pos {d : Duration} (hd : 0 < d.nanoseconds) : 0 < d.millisUp := by
  rw [millisUp, perMillisecond]
  omega

namespace World

variable {w : World} {id : SubscriberId} {r : Nat}

theorem after_eq (w : World) (d : Duration) : w.after d = d.over w.now := rfl

theorem limitOf_eq (w : World) (r : Nat) : w.limitOf r =
    if (w.timeoutOf r).nanoseconds = 0 then none else some (w.timeoutOf r) := by
  rw [limitOf, timeoutOf]
  cases w.relay? r <;> rfl

theorem limitOf_eq_some_iff {d : Duration} :
    w.limitOf r = some d ↔ d = w.timeoutOf r ∧ 0 < d.nanoseconds := by
  rw [limitOf_eq]
  constructor
  · intro h
    split at h
    · cases h
    · rename_i hne
      obtain rfl := Option.some.inj h
      exact ⟨rfl, Nat.pos_of_ne_zero hne⟩
  · rintro ⟨rfl, hpos⟩
    exact if_neg hpos.ne'

theorem deadlineFor_eq (w : World) (r : Nat) :
    w.deadlineFor r = (w.limitOf r).map (·.over w.now) := rfl

theorem starts_of_journal {v : World} (hj : v.journal = w.journal) (id : SubscriberId) :
    v.starts id = w.starts id := by
  rw [starts, hj, starts]

theorem starts_trace (w : World) (t : Trace) (id : SubscriberId) :
    (w.trace t).starts id = w.starts id := (plain_trace w t).starts id

theorem starts_concluded (w : World) (i : SubscriberId) (how : Conclusion) (id : SubscriberId) :
    (w.note (.concluded i how)).starts id = w.starts id :=
  (starts_note ..).trans (List.append_nil _)

theorem starts_take (w : World) (i : SubscriberId) (m : Message) (queue : List Message)
    (id : SubscriberId) : (w.take i m queue).starts id =
      w.starts id ++ if i = id then [(w.now, m)] else [] := by
  refine (starts_note ..).trans (congrArg (w.starts id ++ ·) ?_)
  rw [Note.startOf?]
  split <;> rfl

theorem starts_abandon (w : World) (i : SubscriberId) (wait : Wait) (id : SubscriberId) :
    (w.abandon i wait).starts id = w.starts id := by
  obtain ⟨calls, he⟩ := w.abandon_eq i wait
  rw [he]
  exact (starts_note ..).trans (List.append_nil _)

theorem starts_contain (w : World) (i : SubscriberId) (r : Nat) (f : SinkFault)
    (id : SubscriberId) : (w.contain i r f).starts id = w.starts id :=
  (starts_trace ..).trans (starts_concluded ..)

theorem starts_conclude (w : World) (i : SubscriberId) (r : Nat) (m : Message)
    (deadline : Option Nat) (o : Outcome) (id : SubscriberId) :
    (w.conclude i r m deadline o).starts id = w.starts id := by
  cases o with
  | ended f =>
    cases f with
    | none => exact starts_concluded ..
    | some f => exact starts_contain ..
  | crashed => exact starts_concluded ..
  | waits wait rest =>
    rw [conclude, waitOn]
    split
    · exact (starts_contain ..).trans (starts_abandon ..)
    · rfl

theorem SameCore.starts {v : World} (hv : w.SameCore v) (id : SubscriberId) :
    v.starts id = w.starts id := by
  obtain ⟨ns, hns, ha⟩ := hv.journal
  have hnil : ns.filterMap (Note.startOf? id) = [] := by
    refine List.filterMap_eq_nil_iff.mpr fun n hn => ?_
    have hn := ha n hn
    cases n with
    | row => cases hn
    | accepted | concluded | traced | made | observed | missed | observerPanicked => rfl
  rw [World.starts, hns, List.filterMap_append, hnil, List.append_nil, World.starts]

end World

variable {a b : Moment} {u v w : World} {id : SubscriberId} {s : Subscriber} {m : Message}
  {deadline : Option Nat}

theorem Transition.starts (h : Transition a b) (id : SubscriberId) : ∃ ms : List Message,
    b.world.starts id = a.world.starts id ++ ms.map (a.world.now, ·) := by
  have hnone : b.world.starts id = a.world.starts id → ∃ ms : List Message,
      b.world.starts id = a.world.starts id ++ ms.map (a.world.now, ·) :=
    fun he => ⟨[], he.trans (List.append_nil _).symm⟩
  have htake : ∀ i m, (∃ ms : List Message, (if i = id then [(a.world.now, m)] else []) =
      ms.map (a.world.now, ·)) := by
    intro i m
    split
    · exact ⟨[m], rfl⟩
    · exact ⟨[], rfl⟩
  cases h with
  | sameCore hv => exact hnone (hv.starts id)
  | build => exact hnone (World.starts_of_journal (World.journal_build ..) id)
  | register => exact hnone ((World.Plain.edits.register ..).starts id)
  | unregister => exact hnone ((World.Plain.edits.unregister ..).starts id)
  | publish => exact hnone ((World.Plain.edits.publish ..).starts id)
  | shutdown => exact hnone ((World.Plain.edits.openCall ..).starts id)
  | call c => exact hnone ((World.plain_stepCall ..).starts id)
  | giveUp c => exact hnone ((World.Plain.edits.giveUp ..).starts id)
  | poll | back => exact hnone rfl
  | row x _ hx => exact hnone ((World.plain_row _ _ hx).starts id)
  | @begin i s m queue =>
    obtain ⟨ms, hms⟩ := htake i m
    exact ⟨ms, (World.starts_take ..).trans (congrArg _ hms)⟩
  | @crash i s m queue =>
    obtain ⟨ms, hms⟩ := htake i m
    exact ⟨ms, (World.starts_concluded ..).trans ((World.starts_take ..).trans (congrArg _ hms))⟩
  | conclude => exact hnone (World.starts_conclude ..)
  | abort =>
    exact hnone ((World.starts_trace ..).trans
      ((World.starts_concluded ..).trans (World.starts_abandon ..)))
  | stop => exact hnone (World.starts_trace ..)

theorem Transition.starts_eq (h : Transition a b) {ms : List Message}
    (he : b.world.started id = a.world.started id ++ ms) :
    b.world.starts id = a.world.starts id ++ ms.map (a.world.now, ·) := by
  obtain ⟨ns, hns⟩ := h.starts id
  rw [World.started_eq, World.started_eq, hns, List.map_append, List.map_map] at he
  have hid : ns.map (Prod.snd ∘ (a.world.now, ·)) = ns := List.map_id ns
  rw [hid] at he
  rw [hns, List.append_cancel_left he]

theorem WalkStep.now_of_started (h : WalkStep a b)
    (hm : b.world.started id = a.world.started id ++ [m]) : b.world.now = a.world.now := by
  cases h with
  | transition _ hw => exact hw.clock
  | build => exact World.now_move (m := .build ..) (fun _ => nofun)
  | listen r i => exact World.now_stepListener ..
  | pass time =>
    have hsame : (a.world.jump time).started id = a.world.started id := rfl
    cases List.append_right_eq_self.mp (hm.symm.trans hsame)

theorem Walk.starts (h : Walk a b) (id : SubscriberId) : a.world.now ≤ b.world.now ∧
    ∃ xs, b.world.starts id = a.world.starts id ++ xs ∧
      ∀ x ∈ xs, a.world.now ≤ x.1 ∧ x.1 ≤ b.world.now := by
  induction h with
  | refl => exact ⟨Nat.le_refl _, [], by simp, by simp⟩
  | @tail c d _ hcd ih =>
    obtain ⟨hle, xs, hxs, ht⟩ := ih
    obtain ⟨ms, hms⟩ := hcd.transition_of.starts id
    have hnow : c.world.now ≤ d.world.now := by
      rcases hcd.clock with he | ⟨-, hpast⟩
      · exact he.ge
      · exact hpast
    refine ⟨hle.trans hnow, xs ++ ms.map (c.world.now, ·), ?_, fun x hx => ?_⟩
    · rw [hms, hxs, List.append_assoc]
    · rcases List.mem_append.mp hx with hx | hx
      · exact ⟨(ht x hx).1, (ht x hx).2.trans hnow⟩
      · obtain ⟨n, -, rfl⟩ := List.mem_map.mp hx
        exact ⟨hle, hnow⟩

theorem Walk.starts_eq (h : Walk a b) (he : b.world.started id = a.world.started id) :
    b.world.starts id = a.world.starts id := by
  obtain ⟨-, xs, hxs, -⟩ := h.starts id
  rw [World.started_eq, World.started_eq, hxs, List.map_append] at he
  obtain rfl := List.map_eq_nil_iff.mp (List.append_right_eq_self.mp he)
  rw [hxs, List.append_nil]

/-- What begins on a walk without a pause begins at the time of its ends. -/
theorem Walk.starts_prefix (h : Walk a b) (hnow : b.world.now = a.world.now) {m : Message}
    (hm : a.world.started id ++ [m] <+: b.world.started id) :
    a.world.starts id ++ [(a.world.now, m)] <+: b.world.starts id := by
  obtain ⟨-, xs, hxs, ht⟩ := h.starts id
  rw [World.started_eq, World.started_eq, hxs, List.map_append,
    List.prefix_append_right_inj] at hm
  obtain ⟨ns, hns⟩ := hm
  cases xs with
  | nil => cases hns
  | cons x xs =>
    obtain ⟨rfl, -⟩ := List.cons.inj hns
    obtain ⟨hge, hle⟩ := ht x (List.mem_cons_self ..)
    have htime : a.world.now = x.1 := Nat.le_antisymm hge (hnow ▸ hle)
    rw [hxs, htime, List.prefix_append_right_inj]
    exact ⟨xs, rfl⟩

theorem Transitions.limitOf (hab : Transitions a b) (ha : a.Sound) {r : Nat}
    (hr : r < a.world.relays.size) : b.world.limitOf r = a.world.limitOf r := by
  induction hab with
  | refl => rfl
  | tail hac hcd ih =>
    have hlt := Nat.lt_of_lt_of_le hr (Transitions.relays_le hac ha)
    exact (hcd.limitOf (Transitions.sound hac ha) hlt).trans ih

/-- A delivery of this message, due at this deadline, is underway, in a slice or between two. -/
def Part.Handles (p : Part) (m : Message) (deadline : Option Nat) : Prop :=
  (∃ l, p.slice = some l ∧ l.message = m ∧ l.deadline = deadline) ∨
    ∃ s d, p.sub = some s ∧ s.phase = .delivering d ∧ d.message = m ∧ d.deadline = deadline

theorem PartChange.handles {p q : Part} (h : PartChange id w v p q) (hq : q.Handles m deadline) :
    p.Handles m deadline ∧ q.started = p.started ∨
      ∃ s, p.sub = some s ∧ deadline = w.deadlineFor s.relay ∧ q.started = p.started ++ [m] := by
  cases h with
  | born _ hi | refused _ hi =>
    rcases hq with hslice | ⟨t, d, ht, hd, -⟩
    · exact .inl ⟨.inl hslice, rfl⟩
    · obtain rfl := Option.some.inj ht
      cases hi.symm.trans hd
  | withdraw hs | halt hs | accept _ hs =>
    rcases hq with hslice | ⟨t, d, ht, hd⟩
    · exact .inl ⟨.inl hslice, rfl⟩
    · obtain rfl := Option.some.inj ht
      exact .inl ⟨.inr ⟨_, d, hs, hd⟩, rfl⟩
  | close => exact .inl ⟨hq, rfl⟩
  | @begin s n queue hs _ hi =>
    rcases hq with ⟨l, hl, rfl, rfl⟩ | ⟨t, d, ht, hd, -⟩
    · obtain rfl := Option.some.inj hl
      exact .inr ⟨s, hs, rfl, started_append ..⟩
    · obtain rfl := Option.some.inj ht
      cases hi.symm.trans hd
  | crash _ hl =>
    rcases hq with ⟨l, hm, -⟩ | ⟨t, d, ht, hd, -⟩
    · cases hl.symm.trans hm
    · obtain rfl := Option.some.inj ht
      cases hd
  | @poll s d hs _ hd =>
    rcases hq with ⟨l, hl, rfl, rfl⟩ | hsub
    · obtain rfl := Option.some.inj hl
      exact .inl ⟨.inr ⟨s, d, hs, hd, rfl, rfl⟩, rfl⟩
    · exact .inl ⟨.inr hsub, rfl⟩
  | row _ hx =>
    refine .inl ⟨hq, ?_⟩
    rw [Part.started, List.filterMap_append]
    simp [Row.message?_of_isPlain hx, Part.started]
  | engage _ hl | back hl =>
    rcases hq with ⟨l, hm, hmd⟩ | hsub
    · obtain rfl := Option.some.inj hm
      exact .inl ⟨.inl ⟨_, hl, hmd⟩, rfl⟩
    · exact .inl ⟨.inr hsub, rfl⟩
  | wait _ hl hm hd =>
    rcases hq with ⟨l, hn, -⟩ | ⟨t, d, ht, hph, rfl, rfl⟩
    · cases hn
    · obtain rfl := Option.some.inj ht
      obtain rfl := Phase.delivering.inj hph
      exact .inl ⟨.inl ⟨_, hl, hm.symm, hd.symm⟩, rfl⟩
  | finish | fail | overrun =>
    rcases hq with ⟨l, hn, -⟩ | ⟨t, d, ht, hd, -⟩
    · cases hn
    · obtain rfl := Option.some.inj ht
      cases hd
  | abort _ hl | stop _ hl =>
    rcases hq with ⟨l, hn, -⟩ | ⟨t, d, ht, hd, -⟩
    · cases hl.symm.trans hn
    · obtain rfl := Option.some.inj ht
      cases hd

namespace World

theorem mem_timers_of_delivery {d : Delivery} {t : Nat} (hs : w.subscriber? id = some s)
    (hp : s.phase = .delivering d) (hd : d.deadline = some t) : t ∈ w.timers := by
  have hmem : s ∈ w.subscribers.toList := (Array.mem_of_getElem? hs).val
  have hdel : s.phase.delivery? = some d := by rw [hp]; rfl
  have htimer : t ∈ d.timers := by simp [Delivery.timers, hd]
  rw [timers]
  exact List.mem_append_left _ (List.mem_append_left _ (List.mem_flatMap.mpr
    ⟨d, List.mem_filterMap.mpr ⟨s, hmem, hdel⟩, htimer⟩))

theorem lt_deadline_of_quiet (hq : w.quiet = true) {d : Delivery} {t : Nat}
    (hs : w.subscriber? id = some s) (hp : s.phase = .delivering d)
    (hd : d.deadline = some t) : w.now < t := by
  have hready := workerReady_of_quiet hq id
  simp only [workerReady, hs, hp, hd, Bool.or_eq_false_iff, overdue, Option.any_some,
    decide_eq_false_iff_not, Nat.not_le] at hready
  exact hready.2

end World

/-- When a delivery that is underway began, and that its deadline is not over. -/
structure World.Times (w : World) (id : SubscriberId) (s : Subscriber) (m : Message)
    (deadline : Option Nat) (t : Nat) : Prop where
  begun : (w.starts id).getLast? = some (t, m)
  due : deadline = (w.limitOf s.relay).map (·.over t)
  ahead : ∀ n, deadline = some n → w.now ≤ n

/-- The delivery underway is the last one that has begun. Its time limit runs from then on, and
time waits for its worker at the deadline. -/
theorem Moment.TimedWalked.times (ha : a.TimedWalked) (hs : a.world.subscriber? id = some s)
    (hp : (a.part id).Handles m deadline) : ∃ t, a.world.Times id s m deadline t := by
  induction ha generalizing s m deadline with
  | refl => cases hs
  | @tail c d hc hcd ih =>
    have hsound := (Moment.TimedWalked.walked hc).reached.sound
    have hstep := hcd.walkStep.transition_of
    have hcase : (c.part id).Handles m deadline ∧ d.world.started id = c.world.started id ∨
        ∃ t, c.world.subscriber? id = some t ∧ deadline = c.world.deadlineFor t.relay ∧
          d.world.started id = c.world.started id ++ [m] := by
      rcases hstep.partChange hsound id with he | hchange
      · exact .inl ⟨he ▸ hp, congrArg Part.started he⟩
      · exact hchange.handles hp
    have hthere : ∃ t, c.world.subscriber? id = some t := by
      rcases hcase with ⟨⟨l, hl, -⟩ | ⟨t, -, ht, -⟩, -⟩ | ⟨t, ht, -⟩
      · obtain ⟨-, t, ht, -⟩ := (hsound.part id).slice l hl
        exact ⟨t, ht⟩
      · exact ⟨t, ht⟩
      · exact ⟨t, ht⟩
    obtain ⟨t, ht⟩ := hthere
    obtain ⟨u, hu, hr, -⟩ := Transitions.subscriber (.single hstep) hsound ht
    obtain rfl := Option.mem_unique hs hu
    have hlimit : d.world.limitOf s.relay = c.world.limitOf t.relay := by
      rw [hr]
      exact hstep.limitOf hsound (hsound.housed id t ht)
    rcases hcase with ⟨hhandles, hst⟩ | ⟨t', ht', hdue, hst⟩
    · obtain ⟨time, hbegun, hdue, hahead⟩ := ih ht hhandles
      have hnone : d.world.started id = c.world.started id ++ [] :=
        hst.trans (List.append_nil _).symm
      have hstarts := hstep.starts_eq hnone
      refine ⟨time, ?_, hlimit ▸ hdue, fun n hn => ?_⟩
      · rw [hstarts]
        simpa using hbegun
      · rcases hcd.clock with he | ⟨hslice, hq, -, htimer⟩
        · exact he ▸ hahead n hn
        · rcases hhandles with ⟨l, hl, -⟩ | ⟨t', dl, ht', hph, -, hdl⟩
          · obtain ⟨hl, -⟩ := sliceOf_eq_some_iff.mp hl
            cases hslice.symm.trans hl
          · have hdl := hdl.trans hn
            have hlt := World.lt_deadline_of_quiet hq ht' hph hdl
            exact htimer n (World.mem_timers_of_delivery ht' hph hdl) hlt
    · obtain rfl := Option.mem_unique ht ht'
      have hstarts := hstep.starts_eq hst
      refine ⟨c.world.now, ?_, ?_, fun n hn => ?_⟩
      · rw [hstarts]
        simp
      · rw [hlimit, hdue, World.deadlineFor_eq]
      · rw [hdue, World.deadlineFor_eq] at hn
        obtain ⟨limit, -, rfl⟩ := Option.map_eq_some_iff.mp hn
        rw [hcd.walkStep.now_of_started hst, ← World.after_eq]
        exact World.le_after ..

theorem Moment.TimedWalked.times_delivering (ha : a.TimedWalked)
    (hs : a.world.subscriber? id = some s) {d : Delivery} (hd : s.phase = .delivering d) :
    ∃ t, a.world.Times id s d.message d.deadline t :=
  ha.times hs (.inr ⟨s, d, hs, hd, rfl, rfl⟩)

end Fanout
