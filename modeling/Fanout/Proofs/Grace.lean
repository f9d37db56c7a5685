import Fanout.Proofs.Deadlines

/-! # The grace of a shutdown

The call that closes a relay looks at its workers at once. It waits until the last of them has
exited, but no longer than its grace; then it stops those that are left, and they exit at that same
time. It reports at the time at which it finds no worker any more.
-/
namespace Fanout

variable {a b o : Moment} {w : World} {r c t D : Nat} {j k : Call} {kind : EventKind}

/-- Whatever can happen up to time `t` has happened: the clock is past it, or stands there in a
quiet world. -/
def Moment.Beyond (b : Moment) (t : Nat) : Prop :=
  t < b.world.now ∨ b.world.now = t ∧ b.slice = none ∧ b.world.quiet = true

theorem Moment.Beyond.mono (h : b.Beyond D) (ht : t ≤ D) : b.Beyond t := by
  rcases h with hlt | ⟨he, hrest⟩
  · exact .inl (Nat.lt_of_le_of_lt ht hlt)
  · rcases Nat.lt_or_eq_of_le ht with hlt | rfl
    · exact .inl (he ▸ hlt)
    · exact .inr ⟨he, hrest⟩

def World.EndsWith (w : World) (r : Nat) (kind : EventKind) (t : Nat) : Prop :=
  ∃ e, (w.events r).getLast? = some e ∧ e.kind = kind ∧ e.time = t

theorem World.stepCall_drained (hk : w.call? c = some k) (hp : k.phase = .draining D)
    (hl : w.liveWorkers k.relay = 0) :
    w.stepCall c = w.flush c k.relay ⟨.allDrainedWithin, []⟩ none := by
  simp only [stepCall, hk, hp, if_pos hl]

theorem World.stepCall_waits (hk : w.call? c = some k) (hp : k.phase = .draining D)
    (hl : w.liveWorkers k.relay ≠ 0) (hd : w.now < D) : w.stepCall c = w := by
  simp only [stepCall, hk, hp, if_neg hl, if_neg (Nat.not_le.mpr hd)]

theorem WalkStep.reports (h : WalkStep a b) (ha : a.Sound) {d : Event.Draft}
    {result : Option RelayError} (hj : a.world.call? c = some j) (hu : j.phase.unsettled = true)
    (hl : a.world.liveWorkers j.relay = 0)
    (hb : b = { a with world := a.world.flush c j.relay d result })
    (hk : b.world.call? c = some k) (hn : k.phase.unsettled = false) :
    b.world.Settled j.relay ∧ b.world.EndsWith j.relay d.kind a.world.now := by
  obtain ⟨hset, hlast⟩ := h.transition_of.settles ha hj hu hl hb hk hn
  exact ⟨hset, _, hlast, Event.Draft.kind_stamp .., Event.Draft.time_stamp ..⟩

/-- A shutdown call in this phase has nothing to wait for but its turn, in which it reports that
`kind` happened at time `t`; or it has done so, or has been dropped. -/
inductive Moment.Due (b : Moment) (r t : Nat) : EventKind → CallPhase → Prop where
  | emptied {deadline : Nat} : b.world.now = t → b.world.liveWorkers r = 0 →
    Due b r t .allDrainedWithin (.draining deadline)
  | halted {n : Nat} : b.world.now = t → b.world.Halts r → Due b r t .graceExceeded (.cancelling n)
  | reported {e : EventKind} {phase : CallPhase} : b.world.Settled r → b.world.EndsWith r e t →
    Due b r t e phase
  | dropped {e : EventKind} : Due b r t e .dropped

theorem TimedWalkStep.due (h : TimedWalkStep a b) (ha : a.TimedWalked)
    (hj : a.world.call? c = some j) (hk : b.world.call? c = some k) (ht : CallChange a b c j k)
    (hd : a.Due j.relay t kind j.phase) : b.Due j.relay t kind k.phase := by
  have hsound := ha.walked.reached.sound
  generalize hp : j.phase = phase at hd
  cases hd with
  | emptied hnow hl =>
    have hready : a.world.callReady c = true := by
      simp only [World.callReady, hj, hp, hl, beq_self_eq_true, Bool.true_or]
    cases ht with
    | keep =>
      rw [hp]
      refine .emptied ?_ (h.walkStep.transition_of.workerless hsound (hsound.closing c j hj ?_) hl)
      · rcases h.clock with he | ⟨hslice, hq, -⟩
        · exact he.trans hnow
        · cases (hsound.callReady hslice hq hj (by rw [hp]; rfl)).symm.trans hready
      · rw [hp]
        rfl
    | drop => exact .dropped
    | drained _ _ hb =>
      obtain ⟨hset, hend⟩ := h.walkStep.reports hsound hj (by rw [hp]; rfl) hl hb hk rfl
      exact .reported hset (hnow ▸ hend)
    | expired _ _ hlive => exact absurd hl hlive
    | stopped hq | returns hq => cases hp.symm.trans hq
  | halted hnow hh =>
    cases ht with
    | keep =>
      rw [hp]
      refine .halted ?_ (h.walkStep.transition_of.halts hsound (hsound.closing c j hj ?_) hh)
      · rcases h.clock with he | ⟨hslice, hq, -⟩
        · exact he.trans hnow
        · exact absurd hh (hsound.not_halts hslice hq hj hp)
      · rw [hp]
        rfl
    | drop => exact .dropped
    | stopped hq hl hb =>
      obtain ⟨hset, hend⟩ := h.walkStep.reports hsound hj (by rw [hp]; rfl) hl hb hk rfl
      exact .reported hset (hnow ▸ hend)
    | drained hq | expired _ hq | returns hq => cases hp.symm.trans hq
  | reported hset hend =>
    refine .reported (h.walkStep.transition_of.settled hsound hset) ?_
    rw [World.EndsWith, h.walkStep.transition_of.callFree hsound hset]
    exact hend
  | dropped =>
    rw [ht.eq_of_pending (by rw [hp]; rfl), hp]
    exact .dropped

theorem TimedWalk.due (h : TimedWalk a b) (ha : a.TimedWalked) (hj : a.world.call? c = some j)
    (hd : a.Due j.relay t kind j.phase) :
    ∃ k, b.world.call? c = some k ∧ k.relay = j.relay ∧ b.Due j.relay t kind k.phase := by
  induction h with
  | refl => exact ⟨j, hj, rfl, hd⟩
  | tail had hde ih =>
    obtain ⟨i, hi, hr, hdue⟩ := ih
    obtain ⟨k, hk, ht⟩ := hde.walkStep.transition_of.callChange hi
    rw [← hr] at hdue
    exact ⟨k, hk, ht.relay.trans hr, hr ▸ hde.due (ha.trans had) hi hk ht hdue⟩

/-- What is due at a time has been done when that time is over, and no worker is left. -/
theorem Moment.Due.done (h : b.Due j.relay t kind j.phase) (hb : b.Sound)
    (hj : b.world.call? c = some j) (hn : j.phase ≠ .dropped) (ht : b.Beyond t) :
    b.world.Settled j.relay ∧ b.world.EndsWith j.relay kind t := by
  generalize hp : j.phase = phase at h
  have hrest : b.world.now = t → b.slice = none ∧ b.world.quiet = true := by
    intro hnow
    rcases ht with hlt | ⟨-, hrest⟩
    · omega
    · exact hrest
  cases h with
  | emptied hnow hl =>
    obtain ⟨hslice, hq⟩ := hrest hnow
    have hready := hb.callReady hslice hq hj (by rw [hp]; rfl)
    simp [World.callReady, hj, hp, hl] at hready
  | halted hnow hh =>
    obtain ⟨hslice, hq⟩ := hrest hnow
    exact absurd hh (hb.not_halts hslice hq hj hp)
  | reported hset hend => exact ⟨hset, hend⟩
  | dropped => exact absurd hp hn

/-- The last worker of relay `r` exits from `u` to `v`. -/
structure Moment.LastExit (u : Moment) (r : Nat) (v : Moment) : Prop where
  walkStep : TimedWalkStep u v
  staffed : u.world.liveWorkers r ≠ 0
  empty : v.world.liveWorkers r = 0

/-- Shutdown call `c` waits for the workers of relay `r`, and until `D` at the latest. -/
structure Moment.Drains (b : Moment) (c r D : Nat) : Prop where
  call : ∃ k, b.world.call? c = some k ∧ k.relay = r ∧ k.phase = .draining D
  early : b.world.now ≤ D

theorem TimedWalkStep.drains (h : TimedWalkStep a b) (ha : a.TimedWalked) (hd : a.Drains c r D)
    (hl : a.world.liveWorkers r ≠ 0) : b.Drains c r D ∨
      ∃ k, b.world.call? c = some k ∧ k.relay = r ∧
        (b.world.now = D ∧ b.Due r D .graceExceeded k.phase ∨ k.phase = .dropped) := by
  obtain ⟨⟨j, hj, rfl, hp⟩, hle⟩ := hd
  obtain ⟨k, hk, ht⟩ := h.walkStep.transition_of.callChange hj
  cases ht with
  | keep =>
    refine .inl ⟨⟨j, hk, rfl, hp⟩, ?_⟩
    rcases h.clock with he | ⟨hslice, hq, -, htimer⟩
    · omega
    · have hready := ha.walked.reached.sound.callReady hslice hq hj (by rw [hp]; rfl)
      simp only [World.callReady, hj, hp, Bool.or_eq_false_iff, decide_eq_false_iff_not,
        Nat.not_le] at hready
      exact htimer D (World.mem_timers_of_call hj hp) hready.2
  | drop => exact .inr ⟨_, hk, rfl, .inr rfl⟩
  | drained _ hzero => exact absurd hzero hl
  | expired _ hq hlive hdue hb =>
    obtain rfl := CallPhase.draining.inj (hp.symm.trans hq)
    have hstep := World.stepCall_expired hj hp hlive hdue
    have hnow : b.world.now = D := by
      rw [hb, hstep]
      exact Nat.le_antisymm hle hdue
    refine .inr ⟨_, hk, rfl, .inl ⟨hnow, .halted hnow ?_⟩⟩
    rw [hb, hstep]
    exact World.halts_cancelAll a.world j.relay
  | stopped hq | returns hq => cases hp.symm.trans hq

/-- How shutdown call `c`, which waited for workers of relay `r` at `o`, has gone up to `b`. -/
inductive Moment.Progress (o : Moment) (c r D : Nat) (b : Moment) : Prop where
  | waits : b.Drains c r D → b.world.liveWorkers r ≠ 0 → Progress o c r D b
  | emptied {u v : Moment} {k : Call} : TimedWalk o u → u.LastExit r v → v.Drains c r D →
    TimedWalk v b →
    b.world.call? c = some k → k.relay = r → b.Due r v.world.now .allDrainedWithin k.phase →
    Progress o c r D b
  | expired {k : Call} : D ≤ b.world.now → b.world.call? c = some k → k.relay = r →
    b.Due r D .graceExceeded k.phase → Progress o c r D b
  | dropped {k : Call} : b.world.call? c = some k → k.relay = r → k.phase = .dropped →
    Progress o c r D b

theorem Walk.now_le (h : Walk a b) : a.world.now ≤ b.world.now := (h.starts ⟨0⟩).1

theorem TimedWalkStep.progress (h : TimedWalkStep a b) (hoa : TimedWalk o a) (ha : a.TimedWalked)
    (hp : o.Progress c r D a) : o.Progress c r D b := by
  have hle : a.world.now ≤ b.world.now := Walk.now_le (.single h.walkStep)
  cases hp with
  | waits hd hl =>
    rcases h.drains ha hd hl with hd | ⟨k, hk, hkr, ⟨hnow, hdue⟩ | hp⟩
    · by_cases hzero : b.world.liveWorkers r = 0
      · have hexit : a.LastExit r b := ⟨h, hl, hzero⟩
        obtain ⟨k, hk, hkr, hph⟩ := hd.call
        exact .emptied hoa hexit hd .refl hk hkr (by rw [hph]; exact .emptied rfl hzero)
      · exact .waits hd hzero
    · exact .expired (Nat.le_of_eq hnow.symm) hk hkr hdue
    · exact .dropped hk hkr hp
  | emptied hou hexit hd hva hj hr hdue =>
    subst hr
    obtain ⟨k, hk, hkr, hdue⟩ := TimedWalk.due (.single h) ha hj hdue
    exact .emptied hou hexit hd (hva.tail h) hk hkr hdue
  | expired hnow hj hr hdue =>
    subst hr
    obtain ⟨k, hk, hkr, hdue⟩ := TimedWalk.due (.single h) ha hj hdue
    exact .expired (Nat.le_trans hnow hle) hk hkr hdue
  | dropped hj hr hph =>
    obtain ⟨k, hk, ht⟩ := h.walkStep.transition_of.callChange hj
    refine .dropped hk (ht.relay.trans hr) ?_
    rw [ht.eq_of_pending (by rw [hph]; rfl), hph]

theorem TimedWalk.progress (h : TimedWalk o b) (ho : o.TimedWalked) (hd : o.Drains c r D)
    (hl : o.world.liveWorkers r ≠ 0) : o.Progress c r D b := by
  induction h with
  | refl => exact .waits hd hl
  | tail hoa hab ih => exact hab.progress hoa (ho.trans hoa) ih

def Moment.checked (a : Moment) (r : Nat) : Moment := (a.shutdown r).stepCall a.world.calls.size

/-- What the first check shows: no worker, no time to wait, or the wait begins. -/
inductive Moment.FirstCheck (a : Moment) (r D : Nat) (o : Moment) : Prop where
  | empty : a.world.liveWorkers r = 0 → o.world.Settled r →
    o.world.EndsWith r .allDrainedWithin a.world.now → FirstCheck a r D o
  | graceless {k : Call} : a.world.liveWorkers r ≠ 0 → D ≤ a.world.now →
    o.world.call? a.world.calls.size = some k → k.relay = r →
    o.Due r D .graceExceeded k.phase → FirstCheck a r D o
  | waits : a.world.liveWorkers r ≠ 0 → a.world.now < D → o.Drains a.world.calls.size r D →
    o.world.liveWorkers r ≠ 0 → FirstCheck a r D o

theorem drives_shutdown (hr : r < a.world.relays.size) (ho : a.world.closed r = false) :
    (a.shutdown r).Drives a.world.calls.size := by
  have hcall := call?_shutdown hr ho
  cases hslice : a.slice with
  | none =>
    have hnone : (a.shutdown r).slice = none := congrArg (Option.map _) hslice
    rw [hslice, Option.map_none] at hcall
    rw [Moment.Drives, hnone]
    simp only [World.isHosted, hcall, Option.any_some, Option.isNone_none]
  | some l =>
    have hsome : (a.shutdown r).slice = some { l with call := some a.world.calls.size } :=
      congrArg (Option.map _) hslice
    rw [Moment.Drives, hsome]

theorem timedWalkStep_checked (hr : r < a.world.relays.size) (ho : a.world.closed r = false) :
    TimedWalkStep (a.shutdown r) (a.checked r) :=
  .of_clock (.transition (.call _ (drives_shutdown hr ho)) (World.sparesListeners_stepCall ..))
    (World.sparesListeners_stepCall ..).clock

theorem Moment.TimedWalked.shutdown (ha : a.TimedWalked) (hr : a.world.relayExists r = true)
    (hl : ∀ l ∈ a.slice, l.call = none) : (a.shutdown r).TimedWalked :=
  ha.trans (.single (a.timedWalkStep_shutdown hr hl))

theorem Moment.TimedWalked.firstCheck (ha : a.TimedWalked) (hr : a.world.relayExists r = true)
    (ho : a.world.closed r = false) (hl : ∀ l ∈ a.slice, l.call = none) :
    a.FirstCheck r (a.world.after (a.world.graceOf r)) (a.checked r) := by
  have hlt := ha.walked.reached.sound.named r hr
  have hsound := (ha.shutdown hr hl).walked.reached.sound
  have hcall := call?_shutdown hlt ho
  have hwalkStep := timedWalkStep_checked hlt ho
  have hsubs : (a.shutdown r).world.subscribers = a.world.subscribers :=
    World.subscribers_openCall ..
  have hnow : (a.shutdown r).world.now = a.world.now :=
    (World.SparesListeners.records.openCall ..).clock
  have hlive : (a.shutdown r).world.liveWorkers r = a.world.liveWorkers r := by
    rw [World.liveWorkers, hsubs, World.liveWorkers]
  have hset : ∀ (w : World) (p : CallPhase), w.calls = (a.shutdown r).world.calls →
      (w.setPhase a.world.calls.size p).call? a.world.calls.size =
        some ⟨r, a.slice.map (·.id), p⟩ := by
    intro w p hw
    rw [World.call?_setPhase, if_pos rfl, World.call?, hw]
    exact congrArg (Option.map _) hcall
  by_cases hzero : a.world.liveWorkers r = 0
  · have hstep := World.stepCall_drained hcall rfl (hlive.trans hzero)
    have hchecked : (a.checked r).world.call? a.world.calls.size = some _ :=
      (congrArg (World.call? · _) hstep).trans (hset _ _ rfl)
    obtain ⟨hset, hend⟩ := hwalkStep.walkStep.reports hsound hcall rfl (hlive.trans hzero)
      (congrArg (fun w => { a.shutdown r with world := w }) hstep) hchecked rfl
    exact .empty hzero hset (hnow ▸ hend)
  · by_cases hd : a.world.after (a.world.graceOf r) ≤ a.world.now
    · have hstep := World.stepCall_expired hcall rfl (hlive ▸ hzero) (hnow ▸ hd)
      have hchecked : (a.checked r).world.call? a.world.calls.size = some _ :=
        (congrArg (World.call? · _) hstep).trans (hset _ _ rfl)
      refine .graceless hzero hd hchecked rfl (.halted ?_ ?_)
      · have hsame : (a.checked r).world.now = (a.shutdown r).world.now :=
          (World.sparesListeners_stepCall ..).clock
        have hafter := a.world.le_after (a.world.graceOf r)
        omega
      · have hhalts := World.halts_cancelAll (a.shutdown r).world r
        exact (congrArg (World.Halts · r) hstep).mpr hhalts
    · have hd : a.world.now < a.world.after (a.world.graceOf r) := Nat.not_le.mp hd
      have hstep := World.stepCall_waits hcall rfl (hlive ▸ hzero) (hnow ▸ hd)
      have hsame : a.checked r = a.shutdown r :=
        congrArg (fun w => { a.shutdown r with world := w }) hstep
      rw [hsame]
      exact .waits hzero hd ⟨⟨_, hcall, rfl, rfl⟩, hnow ▸ Nat.le_of_lt hd⟩ (hlive ▸ hzero)

/-- What the grace of a call that closes relay `r` at `a`, over at `D`, means for `b`. -/
structure Moment.InGrace (a : Moment) (r D : Nat) (b : Moment) : Prop where
  idle : a.world.liveWorkers r = 0 → b.world.EndsWith r .allDrainedWithin a.world.now
  graceless : a.world.liveWorkers r ≠ 0 → a.world.graceOf r = .zero → b.Beyond a.world.now →
    b.world.EndsWith r .graceExceeded a.world.now
  drained : ∀ u v, TimedWalk (a.checked r) u → u.LastExit r v → TimedWalk v b → v.world.now < D →
    b.Beyond v.world.now → b.world.EndsWith r .allDrainedWithin v.world.now
  exceeded : a.world.liveWorkers r ≠ 0 → b.Beyond D →
    (∀ u v, TimedWalk (a.checked r) u → u.LastExit r v → TimedWalk v b → D ≤ v.world.now) →
    b.world.EndsWith r .graceExceeded D ∨
      b.world.EndsWith r .allDrainedWithin D ∧ ∃ u v, TimedWalk (a.checked r) u ∧ u.LastExit r v ∧
        TimedWalk v b ∧ v.world.now = D ∧ v.Drains a.world.calls.size r D
  empty : b.Beyond D → b.world.liveWorkers r = 0

/-- The last exit in time is reported at that time. -/
theorem TimedWalk.drained_in_time (hoa : TimedWalk o a) (ho : o.TimedWalked) (hd : o.Drains c r D)
    (hl : o.world.liveWorkers r ≠ 0) (hexit : a.LastExit r b) {v : Moment} (hbv : TimedWalk b v)
    (hlt : b.world.now < D) (hv : v.Beyond b.world.now)
    (hn : ∀ k, v.world.call? c = some k → k.phase ≠ .dropped) :
    v.world.EndsWith r .allDrainedWithin b.world.now := by
  have ha := ho.trans hoa
  have hb := ha.trans (.single hexit.walkStep)
  have hvs := (hb.trans hbv).walked.reached.sound
  have hle : a.world.now ≤ b.world.now := Walk.now_le (.single hexit.walkStep.walkStep)
  have hdue : ∃ j, b.world.call? c = some j ∧ j.relay = r ∧
      b.Due r b.world.now .allDrainedWithin j.phase := by
    cases hoa.progress ho hd hl with
    | waits hda =>
      rcases hexit.walkStep.drains ha hda hexit.staffed with ⟨⟨j, hj, hjr, hp⟩, -⟩ |
        ⟨j, hj, hjr, ⟨hnow, -⟩ | hp⟩
      · exact ⟨j, hj, hjr, by rw [hp]; exact .emptied rfl hexit.empty⟩
      · omega
      · exact ⟨j, hj, hjr, by rw [hp]; exact .dropped⟩
    | @emptied u w k hou hfirst hdw hwa =>
      -- No worker comes to a relay that is being drained.
      obtain ⟨j, hj, rfl, hp⟩ := hdw.call
      have hw := (ho.trans hou).trans (.single hfirst.walkStep)
      have hclosed := hw.walked.reached.sound.closing c j hj (by rw [hp]; rfl)
      exact absurd (hwa.walk.transitions.workerless hw.walked.reached.sound hclosed hfirst.empty).2
        hexit.staffed
    | expired hnow => omega
    | @dropped j hj hjr hp =>
      subst hjr
      exact TimedWalk.due (.single hexit.walkStep) ha hj (by rw [hp]; exact .dropped)
  obtain ⟨j, hj, rfl, hdue⟩ := hdue
  obtain ⟨k, hk, hkr, hdue⟩ := hbv.due hb hj hdue
  rw [← hkr] at hdue ⊢
  exact (hdue.done hvs hk (hn k hk) hv).2

theorem Moment.Progress.over (h : o.Progress c r D b) (hb : b.Sound) (ht : b.Beyond D)
    (hn : ∀ k, b.world.call? c = some k → k.phase ≠ .dropped) :
    b.world.Settled r ∧ (b.world.EndsWith r .graceExceeded D ∨ ∃ u v, TimedWalk o u ∧
      u.LastExit r v ∧
      v.Drains c r D ∧ TimedWalk v b ∧ b.world.EndsWith r .allDrainedWithin v.world.now) := by
  cases h with
  | waits hd hl =>
    obtain ⟨⟨k, hk, -, hp⟩, hle⟩ := hd
    rcases ht with hlt | ⟨hnow, hslice, hq⟩
    · omega
    · have hready := hb.callReady hslice hq hk (by rw [hp]; rfl)
      simp only [World.callReady, hk, hp, Bool.or_eq_false_iff, decide_eq_false_iff_not] at hready
      exact absurd (Nat.le_of_eq hnow.symm) hready.2
  | @emptied u v k hou hexit hd hvb hk hkr hdue =>
    subst hkr
    obtain ⟨hset, hend⟩ := hdue.done hb hk (hn k hk) (ht.mono hd.early)
    exact ⟨hset, .inr ⟨u, v, hou, hexit, hd, hvb, hend⟩⟩
  | expired _ hk hkr hdue =>
    subst hkr
    obtain ⟨hset, hend⟩ := hdue.done hb hk (hn _ hk) ht
    exact ⟨hset, .inl hend⟩
  | dropped hk _ hp => exact absurd hp (hn _ hk)

/-- What the first check shows decides how the rest goes. -/
theorem Moment.FirstCheck.inGrace (h : a.FirstCheck r D (a.checked r))
    (ho : (a.checked r).TimedWalked)
    (hnow : a.world.now ≤ (a.checked r).world.now) (hle : a.world.now ≤ D)
    (hzero : a.world.graceOf r = .zero → D ≤ a.world.now) (hab : TimedWalk (a.checked r) b)
    (hn : ∀ k, b.world.call? a.world.calls.size = some k → k.phase ≠ .dropped) :
    a.InGrace r D b := by
  have hb := (ho.trans hab).walked.reached.sound
  have hempty : b.world.Settled r → b.world.liveWorkers r = 0 :=
    fun hset => World.liveWorkers_eq_zero_iff.mpr hset.workers
  cases h with
  | empty hl hset hend =>
    have hsettled : ∀ {m : Moment}, TimedWalk (a.checked r) m → m.world.Settled r :=
      fun hm => Transitions.settled hm.walk.transitions ho.walked.reached.sound hset
    have hfree := Transitions.callFree hab.walk.transitions ho.walked.reached.sound hset
    refine ⟨fun _ => ?_, fun hne => absurd hl hne, fun u v hu hexit => ?_,
      fun hne => absurd hl hne, fun _ => hempty (hsettled hab)⟩
    · rw [World.EndsWith, hfree]
      exact hend
    · exact absurd (World.liveWorkers_eq_zero_iff.mpr (hsettled hu).workers) hexit.staffed
  | graceless hl hd hk hr hdue =>
    obtain rfl := Nat.le_antisymm hle hd
    subst hr
    obtain ⟨j, hj, hjr, hdue⟩ := hab.due ho hk hdue
    rw [← hjr] at hdue
    have hdone := hdue.done hb hj (hn j hj)
    rw [hjr] at hdone
    refine ⟨fun he => absurd he hl, fun _ _ ht => (hdone ht).2, fun u v hu hexit _ hlt => ?_,
      fun _ ht _ => .inl (hdone ht).2, fun ht => hempty (hdone ht).1⟩
    have hlater := Nat.le_trans hnow (Walk.now_le (hu.walk.tail hexit.walkStep.walkStep))
    omega
  | waits hl hlt hd hleft =>
    have hover := (hab.progress ho hd hleft).over hb
    refine ⟨fun he => absurd he hl, fun _ hz => absurd (hzero hz) (Nat.not_le.mpr hlt),
      fun u v hu hexit hvb he ht => hu.drained_in_time ho hd hleft hexit hvb he ht hn,
      fun _ ht hnone => ?_, fun ht => hempty (hover ht hn).1⟩
    obtain ⟨-, hend | ⟨u, v, hu, hexit, hdv, hvb, hend⟩⟩ := hover ht hn
    · exact .inl hend
    · have hv : v.world.now = D := Nat.le_antisymm hdv.early (hnone u v hu hexit hvb)
      exact .inr ⟨hv ▸ hend, u, v, hu, hexit, hvb, hv, hdv⟩

/-- A call that closes a relay reports at once if no worker is left, or if there are some and it
has no grace. Otherwise it reports when the last worker exits, if that is in time. If it is not,
then the workers are stopped when the grace is over, all of them are gone at that time, and the call
reports that, unless the last one has come to its end by itself at that very time. The call itself
is not dropped. -/
theorem grace_bounds_drain (ha : a.TimedWalked) (hr : a.world.relayExists r = true)
    (ho : a.world.closed r = false) (hl : ∀ l ∈ a.slice, l.call = none)
    (hg : (a.world.graceOf r).seconds ≤ World.maxSeconds) (hab : TimedWalk (a.checked r) b)
    (hn : ∀ k, b.world.call? a.world.calls.size = some k → k.phase ≠ .dropped) :
    a.InGrace r (a.world.now + (a.world.graceOf r).millisUp) b := by
  have hafter : a.world.after (a.world.graceOf r) =
      a.world.now + (a.world.graceOf r).millisUp := Duration.over_of_le hg _
  have hstep := timedWalkStep_checked (ha.walked.reached.sound.named r hr) ho
  have hwalked := (ha.shutdown hr hl).trans (.single hstep)
  have hshut : (a.shutdown r).world.now = a.world.now :=
    (World.SparesListeners.records.openCall ..).clock
  have hcheck := ha.firstCheck hr ho hl
  rw [hafter] at hcheck
  refine hcheck.inGrace hwalked (hshut ▸ Walk.now_le (.single hstep.walkStep)) (Nat.le_add_right ..)
    (fun hz => ?_) hab hn
  rw [hz]
  exact Nat.le_refl _

namespace Dozing

def sink : Sink := { key := "sink", name := "sink", script := [[.sleep 30]] }

/-- A message is on its way to the sink. -/
def laden (grace : Nat) : World :=
  ((({} : World).move (.build "relay" { grace := .ofMillis grace } [])).move
    (.register 0 "relay" sink)).move (.publish 0 .empty)

def begun (grace : Nat) : World := (laden grace).move (.step (.worker ⟨0⟩))

theorem timedReachable_begun {grace : Nat}
    (hready : (laden grace).ready (.worker ⟨0⟩) = true) : (begun grace).TimedReachable := by
  have h₁ := World.TimedRun.single (w := {}) (.build "relay" { grace := .ofMillis grace } [])
    trivial trivial
  have h₂ := h₁.tail (.register 0 "relay" sink) rfl trivial
  have h₃ := h₂.tail (.publish 0 .empty) ⟨"relay", rfl⟩ trivial
  exact h₃.tail (.step (.worker ⟨0⟩)) hready trivial

def closing (grace : Nat) : World := ((begun grace).openCall 0 none).stepCall 0

def awake : World := ((closing 50).move (.pass 30)).move (.step (.worker ⟨0⟩))

def drained : World :=
  ((awake.stopWorker ⟨0⟩).move (.step (.call 0))).move (.step (.call 0))

def cut : World :=
  (((((closing 20).move (.pass 20)).move (.step (.call 0))).move (.step (.worker ⟨0⟩))).move
    (.step (.call 0))).move (.step (.call 0))

theorem timedRun_awake : World.TimedRun (closing 50) awake :=
  (World.TimedRun.single (.pass 30) trivial ⟨by decide +kernel, by decide +kernel⟩).tail
    (.step (.worker ⟨0⟩)) (by decide +kernel : World.ready _ _ = true) trivial

theorem timedRun_drained : World.TimedRun (awake.stopWorker ⟨0⟩) drained :=
  (World.TimedRun.single (.step (.call 0)) (by decide +kernel : World.ready _ _ = true)
    trivial).tail (.step (.call 0)) (by decide +kernel : World.ready _ _ = true) trivial

theorem timedRun_cut : World.TimedRun (closing 20) cut :=
  ((((World.TimedRun.single (.pass 20) trivial ⟨by decide +kernel, by decide +kernel⟩).tail
    (.step (.call 0)) (by decide +kernel : World.ready _ _ = true) trivial).tail
    (.step (.worker ⟨0⟩)) (by decide +kernel : World.ready _ _ = true) trivial).tail
    (.step (.call 0)) (by decide +kernel : World.ready _ _ = true) trivial).tail
    (.step (.call 0)) (by decide +kernel : World.ready _ _ = true) trivial

end Dozing

/-- With a grace of fifty milliseconds the worker is done in thirty. With twenty it is gone in
twenty. -/
theorem grace_bounds_drain_dozing : Dozing.drained.EndsWith 0 .allDrainedWithin 30 ∧
    Dozing.cut.now = 20 ∧ Dozing.cut.liveWorkers 0 = 0 := by
  have hl : ∀ l ∈ (none : Option Slice), l.call = none := fun l hl => by cases hl
  have hreturned : ∀ k ∈ Dozing.drained.call? 0, k.phase ≠ .dropped := by decide +kernel
  have hstopped : ∀ k ∈ Dozing.cut.call? 0, k.phase ≠ .dropped := by decide +kernel
  refine ⟨?_, by decide +kernel, ?_⟩
  · have hready : (Dozing.laden 50).ready (.worker ⟨0⟩) = true := by decide +kernel
    have hlong : ((Dozing.begun 50).graceOf 0).seconds ≤ World.maxSeconds := by decide +kernel
    obtain ⟨ps, hwalked⟩ := World.timedWalked_of_timedReachable
      (Dozing.timedReachable_begun hready)
    obtain ⟨qs, hawake⟩ := World.leads_timedRun Dozing.timedRun_awake ps
    obtain ⟨ts, hdrained⟩ := World.leads_timedRun Dozing.timedRun_drained qs
    have hs : Dozing.awake.subscriber? ⟨0⟩ = some _ := rfl
    have hfed : Dozing.awake.isFed ⟨0⟩ = false := by decide +kernel
    have hone : Dozing.awake.liveWorkers 0 ≠ 0 := by decide +kernel
    have hzero : (Dozing.awake.stopWorker ⟨0⟩).liveWorkers 0 = 0 := by decide +kernel
    have hexit : Moment.LastExit ⟨Dozing.awake, none, qs⟩ 0
        ⟨Dozing.awake.stopWorker ⟨0⟩, none, qs⟩ :=
      ⟨.of_clock (.transition (.stop rfl hs rfl (.inr ⟨rfl, hfed⟩))
        ((World.SparesListeners.deliveries _).stopWorker _))
        rfl, hone, hzero⟩
    have hgrace := grace_bounds_drain (r := 0) hwalked rfl rfl hl hlong
      (hawake.trans (.head hexit.walkStep hdrained)) hreturned
    have hearly : (Dozing.awake.stopWorker ⟨0⟩).now < (Dozing.begun 50).now +
        ((Dozing.begun 50).graceOf 0).millisUp := by decide +kernel
    have hquiet : Dozing.drained.quiet = true := by decide +kernel
    exact hgrace.drained _ _ hawake hexit hdrained hearly (.inr ⟨rfl, rfl, hquiet⟩)
  · have hready : (Dozing.laden 20).ready (.worker ⟨0⟩) = true := by decide +kernel
    have hlong : ((Dozing.begun 20).graceOf 0).seconds ≤ World.maxSeconds := by decide +kernel
    obtain ⟨ps, hwalked⟩ := World.timedWalked_of_timedReachable
      (Dozing.timedReachable_begun hready)
    obtain ⟨qs, hcut⟩ := World.leads_timedRun Dozing.timedRun_cut ps
    have hgrace := grace_bounds_drain (r := 0) hwalked rfl rfl hl hlong hcut hstopped
    have hquiet : Dozing.cut.quiet = true := by decide +kernel
    have hnow : Dozing.cut.now =
        (Dozing.begun 20).now + ((Dozing.begun 20).graceOf 0).millisUp := by decide +kernel
    exact hgrace.empty (.inr ⟨hnow, rfl, hquiet⟩)

end Fanout
