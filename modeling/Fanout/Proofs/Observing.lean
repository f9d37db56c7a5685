import Fanout.Proofs.Quiet

/-! # What observers are told

Every observer that a relay is built with is told of each event on the bus, in order, or how many
of them in a row it has missed. Nothing is left out when the relay is shut down.
-/
namespace Fanout

variable {a b : Moment} {w v : World} {r i : Nat} {l k : Listener}

/-- A listener with what it has been told: all that it is past, and when it is leaving or has
stopped, all that will ever come. -/
structure World.Follows (w : World) (r i : Nat) (l : Listener) : Prop where
  listener : w.listener? r i = some l
  told : Bus.Tiles (w.heard r i) ((w.events r).take l.next)
  reach : l.next ≤ (w.events r).length
  done : l.leaving = true ∨ l.phase = .stopped → l.next = (w.events r).length ∧ w.Ended r
  /-- Only a panic where no guard is takes it down. -/
  unharmed : l.observer.Guarded → l.phase ≠ .crashed

namespace Observer

variable {o : Observer}

theorem leaves_ne_stopped (o : Observer) (p : Option Panic) : o.leaves p ≠ .stopped := by
  unfold leaves
  split <;> simp

theorem holds_ne_stopped (o : Observer) (e : Event) (now : Nat) : o.holds e now ≠ .stopped := by
  rw [holds]
  split
  · simp
  · split
    · exact o.leaves_ne_stopped _
    · simp

theorem Guarded.leaves (h : o.Guarded) (p : Option Panic) : o.leaves p = .receiving := by
  obtain ⟨name, hn⟩ := h.named
  unfold Observer.leaves
  rw [hn]
  cases p <;> rfl

theorem Guarded.holds_ne_crashed (h : o.Guarded) (e : Event) (now : Nat) :
    o.holds e now ≠ .crashed := by
  rw [holds, h.polled, h.leaves, if_neg Bool.false_ne_true]
  split <;> simp

end Observer

namespace Listener.Step

theorem observer (h : l.Step w r i v k) : k.observer = l.observer := by
  cases h <;> rfl

theorem live (h : l.Step w r i v k) : l.live = true := by
  rw [Listener.live]
  cases h with
  | hears hp | misses hp | falls hp | skips hp | ends hp | leaves hp | stops hp =>
    rw [hp]
    rfl

theorem unharmed (h : l.Step w r i v k) (hg : l.observer.Guarded) : k.phase ≠ .crashed := by
  cases h with
  | hears => exact hg.holds_ne_crashed _ _
  | misses hp | skips hp | leaves hp =>
    intro hc
    cases hp.symm.trans hc
  | falls _ _ _ hn =>
    obtain ⟨name, hname⟩ := hg.named
    cases hn.symm.trans hname
  | ends =>
    intro hc
    cases (hg.leaves _).symm.trans hc
  | stops => exact nofun

theorem heard_no_lag (h : l.Step w r i v k) (hl : w.unread r l ≤ w.slots r)
    (hn : ∀ n, Bus.Mark.lagged n ∉ w.heard r i) : ∀ n, Bus.Mark.lagged n ∉ v.heard r i := by
  intro n
  cases h with
  | hears _ _ _ hh => simp [hh, hn n]
  | misses _ _ hlag | falls _ _ hlag => omega
  | skips _ _ _ hh | ends _ _ hh | leaves _ _ _ hh | stops _ _ _ hh => simpa [hh] using hn n

theorem reads (h : l.Step w r i v k) (hf : w.Follows r i l) :
    Bus.Tiles (v.heard r i) ((w.events r).take k.next) ∧ k.next ≤ (w.events r).length := by
  obtain ⟨-, htold, hreach, hdone, -⟩ := hf
  cases h with
  | hears _ hget _ hh =>
    have hlt : l.next < (w.events r).length := (List.getElem?_eq_some_iff.mp hget).1
    rw [hh]
    exact ⟨htold.read_event hget, hlt⟩
  | misses _ _ hlag _ hh =>
    rw [hh]
    exact ⟨htold.read_lagged hlag, Nat.sub_le ..⟩
  | skips _ hl hlag =>
    -- Nothing comes on the bus once the listener is leaving, so nothing is lost either.
    have hnext := (hdone (.inl hl)).1
    rw [World.unread] at hlag
    omega
  | falls _ _ _ _ hh | ends _ _ hh | leaves _ _ _ hh | stops _ _ _ hh =>
    rw [hh]
    exact ⟨htold, hreach⟩

/-- When a listener leaves and when it stops, it has read everything that will ever come. -/
theorem finishes (h : l.Step w r i v k) (hf : w.Follows r i l)
    (hend : w.stopping r = true ∨ w.busClosed r = true → w.Ended r)
    (hk : k.leaving = true ∨ k.phase = .stopped) :
    k.next = (w.events r).length ∧ w.Ended r := by
  obtain ⟨-, -, hreach, hdone, -⟩ := hf
  cases h with
  | hears _ hget =>
    have hlt : l.next < (w.events r).length := (List.getElem?_eq_some_iff.mp hget).1
    rcases hk with hl | hs
    · have hnext := (hdone (.inl hl)).1
      omega
    · exact (Observer.holds_ne_stopped _ _ _ hs).elim
  | misses hp hl =>
    rcases hk with hk | hs
    · cases hl.symm.trans hk
    · cases hp.symm.trans hs
  | falls _ hl =>
    rcases hk with hk | hs
    · cases hl.symm.trans hk
    · cases hs
  | skips _ hl hlag =>
    have hnext := (hdone (.inl hl)).1
    rw [World.unread] at hlag
    omega
  | ends =>
    rcases hk with hl | hs
    · exact hdone (.inl hl)
    · exact (Observer.leaves_ne_stopped _ _ hs).elim
  | leaves _ hle hs => exact ⟨Nat.le_antisymm hreach hle, hend (.inl hs)⟩
  | stops _ hle ho =>
    rcases ho with hl | hc
    · exact hdone (.inl hl)
    · exact ⟨Nat.le_antisymm hreach hle, hend (.inr hc)⟩

end Listener.Step

theorem World.Follows.stopped (hf : w.Follows r i l) (hg : l.observer.Guarded)
    (hl : l.live = false) : l.phase = .stopped := by
  rw [Listener.live] at hl
  cases hp : l.phase with
  | stopped => rfl
  | crashed => exact absurd hp (hf.unharmed hg)
  | receiving | calling =>
    rw [hp] at hl
    cases hl

theorem World.Bypasses.follows (h : w.Bypasses r i v) (hf : w.Follows r i l)
    (he : w.events r <+: v.events r)
    (hend : w.Ended r → v.Ended r ∧ v.events r = w.events r) : v.Follows r i l := by
  obtain ⟨hl, htold, hreach, hdone, hunharmed⟩ := hf
  refine ⟨h.listener.trans hl, ?_, Nat.le_trans hreach he.length_le, fun hs => ?_, hunharmed⟩
  · obtain ⟨es, hes⟩ := he
    rw [h.heard, ← hes, List.take_append_of_le_length hreach]
    exact htold
  · obtain ⟨hnext, hended⟩ := hdone hs
    obtain ⟨hv, hev⟩ := hend hended
    exact ⟨by rw [hev, hnext], hv⟩

theorem Moment.Walked.ended (ha : a.Walked) (hr : r < a.world.relays.size)
    (h : a.world.stopping r = true ∨ a.world.busClosed r = true) : a.world.Ended r :=
  h.imp ha.settled fun hc => ⟨hr, hc⟩

theorem WalkStep.follows (h : WalkStep a b) (ha : a.Walked) (hf : a.world.Follows r i l) :
    ∃ k, k.observer = l.observer ∧ b.world.Follows r i k := by
  have hsound := ha.reached.sound
  rcases h.listener hf.listener with hb | ⟨hv, -, k, hk, hstep⟩
  · exact ⟨l, rfl, hb.follows hf (h.events r) fun he => h.transition_of.ended hsound he⟩
  · obtain ⟨q, hq, -⟩ := World.relay?_of_listener? hf.listener
    obtain ⟨htold, hreach⟩ := hstep.reads hf
    rw [← hv.events] at htold hreach
    refine ⟨k, hstep.observer, hk, htold, hreach, fun hs => ?_,
      fun hg => hstep.unharmed (hstep.observer ▸ hg)⟩
    obtain ⟨hnext, hended⟩ := hstep.finishes hf (ha.ended (World.lt_size_of_relay? hq)) hs
    obtain ⟨hstays, hsame⟩ := h.transition_of.ended hsound hended
    exact ⟨by rw [hsame, hnext], hstays⟩

theorem Walk.follows (h : Walk a b) (ha : a.Walked) (hf : a.world.Follows r i l) :
    ∃ k, k.observer = l.observer ∧ b.world.Follows r i k := by
  induction h with
  | refl => exact ⟨l, rfl, hf⟩
  | tail hac hcd ih =>
    obtain ⟨m, hm, hfm⟩ := ih
    obtain ⟨k, hk, hfk⟩ := hcd.follows (ha.trans hac) hfm
    exact ⟨k, hk.trans hm, hfk⟩

theorem Walk.slots (h : Walk a b) (ha : a.Sound) (hr : r < a.world.relays.size) :
    b.world.slots r = a.world.slots r := by
  induction h with
  | refl => rfl
  | tail hac hcd ih =>
    have hlt := Nat.lt_of_lt_of_le hr (Transitions.relays_le (Walk.transitions hac) ha)
    exact (hcd.slots hlt).trans ih

/-- Whether a listener has no more events before it than the ring holds. -/
def World.inReach (w : World) (r i : Nat) : Bool :=
  (w.listener? r i).all fun l => w.unread r l ≤ w.slots r

def Moment.Attends (r i : Nat) (a b : Moment) : Prop := a.world.inReach r i = true ∧ WalkStep a b

theorem Moment.Attends.no_lag (h : Relation.ReflTransGen (Moment.Attends r i) a b)
    (hn : ∀ n, Bus.Mark.lagged n ∉ a.world.heard r i) :
    ∀ n, Bus.Mark.lagged n ∉ b.world.heard r i := by
  induction h with
  | refl => exact hn
  | @tail c d _ hcd ih =>
    obtain ⟨hreach, hwalkStep⟩ := hcd
    cases hl : c.world.listener? r i with
    | none =>
      rcases hwalkStep.bypasses r i with hb | ⟨-, hh, -⟩ | ⟨hr, -⟩
      · rw [hb.heard]
        exact ih
      · rw [hh]
        exact ih
      · simp [World.listenerReady, hl] at hr
    | some l =>
      rcases hwalkStep.listener hl with hb | ⟨-, -, k, -, hstep⟩
      · rw [hb.heard]
        exact ih
      · have hle : c.world.unread r l ≤ c.world.slots r := by
          simpa [World.inReach, hl] using hreach
        exact hstep.heard_no_lag hle ih

theorem World.listenersStopped_iff : w.listenersStopped r = true ↔
    ∀ i l, w.listener? r i = some l → l.live = false := by
  rw [listenersStopped]
  constructor
  · intro h i l hl
    obtain ⟨q, hq, hi⟩ := relay?_of_listener? hl
    rw [hq, Option.map_some, Option.getD_some, List.all_eq_true] at h
    simpa using h l (List.mem_of_getElem? hi)
  · intro h
    cases hq : w.relay? r with
    | none => rfl
    | some q =>
      rw [Option.map_some, Option.getD_some, List.all_eq_true]
      intro l hl
      obtain ⟨i, hi⟩ := List.mem_iff_getElem?.mp hl
      have hs := h i l (Option.bind_eq_some_iff.mpr ⟨q, hq, hi⟩)
      simpa using hs

theorem WalkStep.listenersStopped (h : WalkStep a b) (hr : r < a.world.relays.size)
    (hs : a.world.listenersStopped r = true) : b.world.listenersStopped r = true := by
  rw [World.listenersStopped_iff] at hs ⊢
  intro i l hl
  obtain ⟨k, hk, rfl | ⟨-, -, hstep⟩⟩ := h.listener_cases hr hl
  · exact hs i l hk
  · cases (hs i k hk).symm.trans hstep.live

/-- A shutdown call that was pending once returns only when the listeners have stopped. -/
theorem Walk.stopped_of_returned (h : Walk a b) (ha : a.Sound) {c : Nat} {k : Call}
    (hk : a.world.call? c = some k) (hp : k.phase.pending = true) :
    ∃ j, b.world.call? c = some j ∧ j.relay = k.relay ∧
      ∀ result, j.phase = .returned result → b.world.listenersStopped k.relay = true := by
  induction h with
  | refl =>
    refine ⟨k, hk, rfl, fun result hres => ?_⟩
    rw [hres] at hp
    cases hp
  | @tail d e had hde ih =>
    obtain ⟨j, hj, hjr, hdone⟩ := ih
    obtain ⟨i, hi, ht⟩ := hde.transition_of.callChange hj
    refine ⟨i, hi, ht.relay.trans hjr, fun result hres => ?_⟩
    have hlt : k.relay < d.world.relays.size :=
      Nat.lt_of_lt_of_le (ha.calls c k hk) (Transitions.relays_le (Walk.transitions had) ha)
    apply hde.listenersStopped hlt
    cases ht with
    | keep => exact hdone result hres
    | returns _ hs => exact hjr ▸ hs
    | drop | drained | expired | stopped => cases hres

/-- When the call that closed a relay returns, all listeners have gone, and the last event on the
bus says how it went. -/
theorem Walk.closes (h : Walk (a.shutdown r) b) (ha : a.Sound)
    (hr : a.world.relayExists r = true) (ho : a.world.closed r = false)
    (hl : ∀ l ∈ a.slice, l.call = none) {result : Option RelayError}
    (hres : b.world.result? a.world.calls.size = some result) :
    (∀ i l, b.world.listener? r i = some l → l.live = false) ∧
    ∃ e, (b.world.events r).getLast? = some e ∧
      (result = none ∧ e.kind = .allDrainedWithin ∨
        ∃ n, result = some (.graceExceeded (a.world.graceOf r) n) ∧ e.kind = .graceExceeded) := by
  have hsound := (Transition.shutdown r hr hl).sound ha
  obtain ⟨j, hj, -, hstop⟩ := h.stopped_of_returned hsound (call?_shutdown (ha.named r hr) ho) rfl
  obtain ⟨k, hk, -, hc⟩ := (Walk.transitions h).course ha hr ho hl
  obtain rfl := Option.mem_unique hj hk
  obtain ⟨n, o, phase⟩ := j
  rw [World.result?, hj] at hres
  refine ⟨?_, ?_⟩
  · cases phase with
    | returned => exact World.listenersStopped_iff.mp (hstop _ rfl)
    | draining | cancelling | flushing | dropped => cases hres
  · cases hc with
    | draining | cancelling | flushing | dropped => cases hres
    | returned _ hv =>
      obtain rfl := Option.some.inj hres
      cases hv with
      | drained _ hlast hkind => exact ⟨_, hlast, .inl ⟨rfl, hkind⟩⟩
      | exceeded _ _ _ _ hlast hkind => exact ⟨_, hlast, .inr ⟨_, rfl, hkind⟩⟩

def Moment.build (a : Moment) (name : String) (config : Config) (observers : List Observer) :
    Moment :=
  { a with world := (a.world.build name config observers).1 }

section Build
variable {config : Config} {observers : List Observer}

theorem relay?_build_new (hcap : config.busCapacity ≤ World.maxBusCapacity) (name : String) :
    (a.build name config observers).world.relay? a.world.relays.size =
      some { config := config, bus := .ofCapacity config.busCapacity
             listeners := observers.map fun o => { observer := o } } := by
  rw [Moment.build, World.build, if_neg (Nat.not_lt.mpr hcap)]
  exact Array.getElem?_push_size

theorem heard_build (ha : a.Walked) (name : String) :
    (a.build name config observers).world.heard a.world.relays.size i = [] := by
  have hnone : a.world.listener? a.world.relays.size i = none := by
    have hq : a.world.relay? a.world.relays.size = none :=
      Array.getElem?_eq_none_iff.mpr (Nat.le_refl _)
    rw [World.listener?, hq]
    rfl
  have hj := a.world.journal_build name config observers
  rw [Moment.build, World.heard, hj]
  exact (ha.unheard hnone).1

theorem World.Follows.new {o : Observer} (hl : w.listener? r i = some { observer := o })
    (hh : w.heard r i = []) : w.Follows r i { observer := o } where
  listener := hl
  told := by
    rw [hh, List.take_zero]
    exact .nil
  reach := Nat.zero_le _
  done hs := by rcases hs with hs | hs <;> cases hs
  unharmed := nofun

theorem follows_build (ha : a.Walked) (hcap : config.busCapacity ≤ World.maxBusCapacity)
    (name : String) {o : Observer} (ho : observers[i]? = some o) :
    (a.build name config observers).world.Follows a.world.relays.size i { observer := o } := by
  have hnew : (a.build name config observers).world.relay? a.world.relays.size = some _ :=
    relay?_build_new hcap name
  have hl : (a.build name config observers).world.listener? a.world.relays.size i =
      some { observer := o } := by
    rw [World.listener?, hnew]
    simp [ho]
  exact .new hl (heard_build ha name)

theorem slots_build (hcap : config.busCapacity ≤ World.maxBusCapacity) (name : String) :
    (a.build name config observers).world.slots a.world.relays.size =
      Bus.ringSize (max config.busCapacity 1) := by
  rw [World.slots, relay?_build_new hcap]
  rfl

/-- Each observer of a relay is told of all events on its bus, of those in the ring by a call and
of the others by their number. A panic in the middle of a call makes no difference to that. -/
theorem observers_told_of_all_events (ha : a.Walked) (name : String)
    (hcap : config.busCapacity ≤ World.maxBusCapacity) (hr : r = a.world.relays.size)
    (hab : Walk (a.build name config observers) b) {o : Observer} (ho : observers[i]? = some o) :
    IsLeast {m | m.isPowerOfTwo ∧ max config.busCapacity 1 ≤ m} (b.world.slots r) ∧
    ∃ l, l.observer = o ∧ b.world.Follows r i l ∧
      (∀ c, WalkStep b c → b.world.Bypasses r i c.world ∨
        ∃ k, c.world.listener? r i = some k ∧ l.Step b.world r i c.world k) ∧
      (o.Guarded → b.slice = none → b.world.quiet = true →
        (∃ wake panic, l.phase = .calling wake panic ∧ b.world.now < wake) ∨
          l.next = (b.world.events r).length) ∧
      (Relation.ReflTransGen (Moment.Attends r i) (a.build name config observers) b →
        b.world.heard r i = ((b.world.events r).take l.next).map .event) ∧
      (∀ c result, Walk (a.build name config observers) c → c.world.relayExists r = true →
        c.world.closed r = false → (∀ m ∈ c.slice, m.call = none) → Walk (c.shutdown r) b →
        b.world.result? c.world.calls.size = some result →
        l.live = false ∧
          (o.Guarded → l.phase = .stopped ∧ Bus.Tiles (b.world.heard r i) (b.world.events r)) ∧
          ∃ e, (b.world.events r).getLast? = some e ∧
            (result = none ∧ e.kind = .allDrainedWithin ∨
              ∃ n, result = some (.graceExceeded (c.world.graceOf r) n) ∧
                e.kind = .graceExceeded)) := by
  subst hr
  have hbuild : Walk a (a.build name config observers) := .single (.build name config observers)
  have hborn := follows_build ha hcap name ho
  have hbirth := ha.trans hbuild
  obtain ⟨l, hlo, hf⟩ := hab.follows hbirth hborn
  refine ⟨?_, l, hlo, hf, fun c hbc => ?_, fun hg _ hq => ?_, fun hatt => ?_, ?_⟩
  · obtain ⟨q, hq, -⟩ := World.relay?_of_listener? hborn.listener
    rw [hab.slots hbirth.reached.sound (World.lt_size_of_relay? hq), slots_build hcap]
    exact Bus.isLeast_ringSize _
  · exact (hbc.listener hf.listener).imp_right fun h => h.2.2
  · rcases World.listener_of_quiet hq hf.listener with hc | hs | ⟨-, hle, -⟩
    · exact .inl hc
    · exact .inr (hf.done (.inr (hf.stopped (hlo.symm ▸ hg) hs))).1
    · exact .inr (Nat.le_antisymm hf.reach hle)
  · have hnone : ∀ n, Bus.Mark.lagged n ∉
        (a.build name config observers).world.heard a.world.relays.size i := by
      simp [heard_build ha]
    exact hf.told.eq_of_no_lag (Moment.Attends.no_lag hatt hnone)
  · intro c result hac hex hopen hslice hcb hres
    have hc := (hbirth.trans hac).reached
    obtain ⟨hstopped, e, he, hresult⟩ := hcb.closes hc.sound hex hopen hslice hres
    have hgone := hstopped i l hf.listener
    refine ⟨hgone, fun hg => ?_, e, he, hresult⟩
    have hstop := hf.stopped (hlo.symm ▸ hg) hgone
    refine ⟨hstop, ?_⟩
    have htold := hf.told
    rw [(hf.done (.inr hstop)).1, List.take_length] at htold
    exact htold

end Build

def Moment.listen (a : Moment) (r i : Nat) : Moment :=
  { a with world := a.world.stepListener r i }

theorem Moment.Attends.listen {n j : Nat} (hi : a.world.inReach r i = true) (hl : a.slice = none)
    (hr : a.world.listenerReady n j = true) : Moment.Attends r i a (a.listen n j) :=
  ⟨hi, .listen n j hl hr⟩

theorem WalkStep.stepCall {c : Nat} (hl : a.slice = none) (hc : a.world.isHosted c = true) :
    WalkStep a (a.stepCall c) := by
  refine .transition (.call c ?_) (World.sparesListeners_stepCall ..)
  rw [Moment.Drives, hl]
  exact hc

/-- Two observers, of which the first one panics at every call. -/
def Moment.listeners : List Observer :=
  [{ key := "prompt", name := "prompt", panic := fun _ => some .payload },
   { key := "late", name := "late" }]

def Moment.premiere : Moment :=
  Moment.build ⟨{}, none, []⟩ "relay" { busCapacity := 1 } Moment.listeners

def Moment.halfway : Moment :=
  (((((Moment.premiere.shutdown 0).listen 0 0).stepCall 0).listen 0 0).listen 0 0).listen 0 0

def Moment.finale : Moment :=
  ((((Moment.halfway.listen 0 1).listen 0 1).listen 0 1).listen 0 1).stepCall 0

theorem attends_finale :
    Relation.ReflTransGen (Moment.Attends 0 0) (Moment.premiere.shutdown 0) Moment.finale := by
  have hdrained : Moment.Attends 0 0 ((Moment.premiere.shutdown 0).listen 0 0)
      (((Moment.premiere.shutdown 0).listen 0 0).stepCall 0) :=
    ⟨by decide +kernel, .stepCall rfl (by decide +kernel)⟩
  have hhalfway : Relation.ReflTransGen (Moment.Attends 0 0) (Moment.premiere.shutdown 0)
      Moment.halfway :=
    ((((Relation.ReflTransGen.single (.listen (by decide +kernel) rfl (by decide +kernel))).tail
      hdrained).tail (.listen (by decide +kernel) rfl (by decide +kernel))).tail
        (.listen (by decide +kernel) rfl (by decide +kernel))).tail
          (.listen (by decide +kernel) rfl (by decide +kernel))
  have hreturns : Moment.Attends 0 0
      ((((Moment.halfway.listen 0 1).listen 0 1).listen 0 1).listen 0 1) Moment.finale :=
    ⟨by decide +kernel, .stepCall rfl (by decide +kernel)⟩
  exact ((((hhalfway.tail (.listen (by decide +kernel) rfl (by decide +kernel))).tail
    (.listen (by decide +kernel) rfl (by decide +kernel))).tail
      (.listen (by decide +kernel) rfl (by decide +kernel))).tail
        (.listen (by decide +kernel) rfl (by decide +kernel))).tail hreturns

/-- The observer that panics is called with both events, the other one is told that it has missed
the first. -/
theorem observers_told_of_all_events_finale :
    Moment.finale.world.heard 0 0 = (Moment.finale.world.events 0).map .event ∧
    Moment.finale.world.panics 0 0 = [.payload, .payload] ∧
    Bus.Tiles (Moment.finale.world.heard 0 1) (Moment.finale.world.events 0) ∧
    ∃ e, Moment.finale.world.heard 0 1 = [.lagged 1, .event e] := by
  have hstart : Moment.Walked ⟨{}, none, []⟩ := .refl
  have hstep : WalkStep Moment.premiere (Moment.premiere.shutdown 0) :=
    .transition (.shutdown 0 rfl fun l hl => by cases hl)
      (World.SparesListeners.records.openCall _ 0 none)
  have hwalk : Walk (Moment.premiere.shutdown 0) Moment.finale :=
    Relation.ReflTransGen.mono (fun _ _ h => h.2) _ _ attends_finale
  have hattends : Relation.ReflTransGen (Moment.Attends 0 0) Moment.premiere Moment.finale :=
    .head ⟨by decide +kernel, hstep⟩ attends_finale
  have hres : Moment.finale.world.result? 0 = some none := by decide +kernel
  obtain ⟨-, l, -, hl, -, -, hall, hend⟩ := observers_told_of_all_events (i := 0) hstart "relay"
    (by decide) rfl (.head hstep hwalk) rfl
  have hguarded : ∀ o ∈ Moment.listeners, o.Guarded := by
    intro o ho
    rcases List.mem_pair.mp ho with rfl | rfl
    · exact ⟨⟨_, rfl⟩, fun _ => rfl⟩
    · exact ⟨⟨_, rfl⟩, fun _ => rfl⟩
  obtain ⟨-, hstop, -⟩ := hend Moment.premiere none .refl rfl rfl (fun m hm => by cases hm) hwalk
    hres
  obtain ⟨-, k, -, -, -, -, -, hlate⟩ := observers_told_of_all_events (i := 1) hstart "relay"
    (by decide) rfl (.head hstep hwalk) rfl
  obtain ⟨-, htiles, -⟩ := hlate Moment.premiere none .refl rfl rfl (fun m hm => by cases hm) hwalk
    hres
  refine ⟨?_, by decide +kernel,
    (htiles (hguarded _ (List.mem_cons_of_mem _ (List.mem_cons_self ..)))).2, ?_⟩
  · have hheard := hall hattends
    have hdone := (hl.done (.inr (hstop (hguarded _ (List.mem_cons_self ..))).1)).1
    rw [hdone, List.take_length] at hheard
    exact hheard
  · exact ⟨_, rfl⟩

end Fanout
