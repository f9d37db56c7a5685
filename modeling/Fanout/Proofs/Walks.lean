import Fanout.Proofs.ListenerFrame

/-! # Runs as walks

Every move of a run, the turn of a worker with all that its delivery does in one go included, is a
sequence of transitions. So what holds of all transitions holds of all runs. A walk is a sequence of
transitions that also keeps to what listeners may do, which transitions leave open, and in virtual
time to what the clock may do.
-/
namespace Fanout

/-- A transition, told apart by who takes part: a listener that can go on, the clock, a relay that
is new, or none of them. -/
inductive WalkStep : Moment → Moment → Prop where
  | transition {a b : Moment} : Transition a b → a.world.SparesListeners b.world → WalkStep a b
  | build {a : Moment} (name : String) (config : Config) (observers : List Observer) :
    WalkStep a { a with world := (a.world.build name config observers).1 }
  | listen {a : Moment} (r i : Nat) : a.slice = none → a.world.listenerReady r i = true →
    WalkStep a { a with world := a.world.stepListener r i }
  | pass {a : Moment} (time : Nat) : a.slice = none →
    WalkStep a { a with world := a.world.jump time }

abbrev Walk : Moment → Moment → Prop := Relation.ReflTransGen WalkStep

def Moment.Walked (a : Moment) : Prop := Walk ⟨{}, none, []⟩ a

/-- A step of a walk in virtual time: the clock moves in a quiet world only, and over no timer. -/
structure TimedWalkStep (a b : Moment) : Prop where
  walkStep : WalkStep a b
  onTime : a.world.now < b.world.now → a.world.quiet = true ∧
    ∀ t ∈ a.world.timers, a.world.now < t → b.world.now ≤ t

abbrev TimedWalk : Moment → Moment → Prop := Relation.ReflTransGen TimedWalkStep

def Moment.TimedWalked (a : Moment) : Prop := TimedWalk ⟨{}, none, []⟩ a

theorem TimedWalkStep.of_clock {a b : Moment} (h : WalkStep a b) (hn : b.world.now = a.world.now) :
    TimedWalkStep a b :=
  ⟨h, fun hlt => absurd hn (Nat.ne_of_gt hlt)⟩

theorem TimedWalk.walk {a b : Moment} (h : TimedWalk a b) : Walk a b :=
  Relation.ReflTransGen.mono (fun _ _ => TimedWalkStep.walkStep) _ _ h

theorem Moment.TimedWalked.walked {a : Moment} (ha : a.TimedWalked) : a.Walked := TimedWalk.walk ha

theorem Moment.TimedWalked.trans {a b : Moment} (ha : a.TimedWalked) (hab : TimedWalk a b) :
    b.TimedWalked :=
  Relation.ReflTransGen.trans ha hab

namespace World

variable {u v w : World} {f g h : Option Slice}

/-- Some walk in virtual time leads from one world and slice to another, whatever was published
before. -/
def Leads (u : World) (f : Option Slice) (v : World) (g : Option Slice) : Prop :=
  ∀ ps, ∃ qs, TimedWalk ⟨u, f, ps⟩ ⟨v, g, qs⟩

theorem Leads.refl (w : World) (g : Option Slice) : Leads w g w g := fun ps => ⟨ps, .refl⟩

theorem Leads.trans (hu : Leads u f v g) (hv : Leads v g w h) : Leads u f w h := by
  intro ps
  obtain ⟨qs, hq⟩ := hu ps
  obtain ⟨rs, hr⟩ := hv qs
  exact ⟨rs, Relation.ReflTransGen.trans hq hr⟩

theorem Leads.walkStep (hn : v.now = u.now) (hb : ∀ ps, WalkStep ⟨u, f, ps⟩ ⟨v, g, ps⟩) :
    Leads u f v g :=
  fun ps => ⟨ps, .single (.of_clock (hb ps) hn)⟩

theorem Leads.transition (hw : u.SparesListeners v)
    (hb : ∀ ps, ∃ qs, Transition ⟨u, f, ps⟩ ⟨v, g, qs⟩) : Leads u f v g := by
  intro ps
  obtain ⟨qs, hq⟩ := hb ps
  exact ⟨qs, .single (.of_clock (.transition hq hw) hw.clock)⟩

theorem SameCore.refl (w : World) : w.SameCore w :=
  ⟨rfl, rfl, fun _ => rfl, ⟨[], by simp, by simp⟩, fun _ h => h, Nat.le_refl _, Nat.le_refl _⟩

theorem SameCore.trans (hu : u.SameCore v) (hv : v.SameCore w) : u.SameCore w := by
  obtain ⟨ns, hns, hs⟩ := hu.journal
  obtain ⟨ms, hms, ht⟩ := hv.journal
  refine ⟨hv.subscribers.trans hu.subscribers, hv.calls.trans hu.calls,
    fun r => (hv.relays r).trans (hu.relays r), ⟨ns ++ ms, ?_, ?_⟩,
    fun r h => hu.existence r (hv.existence r h), Nat.le_trans hu.clock hv.clock,
    Nat.le_trans hu.count hv.count⟩
  · rw [hms, hns, List.append_assoc]
  · intro n hn
    rcases List.mem_append.mp hn with hn | hn
    · exact hs n hn
    · exact ht n hn

theorem SameCore.leads (hw : w.SameCore v) (hh : w.SparesListeners v) (g : Option Slice) :
    Leads w g v g :=
  .transition hh fun ps => ⟨ps, .sameCore hw⟩

theorem sameCore_note (w : World) {n : Note} (hn : n.sparesDeliveries = true) :
    w.SameCore (w.note n) :=
  ⟨rfl, rfl, fun _ => rfl, ⟨[n], by simp [note], by simpa using hn⟩, fun _ h => h,
    Nat.le_refl _, Nat.le_refl _⟩

theorem sameCore_make (w : World) (d : Event.Draft) : w.SameCore (w.make d).1 :=
  ⟨rfl, rfl, fun _ => rfl, ⟨[.made (d.stamp w.nextSeq w.now)], by simp [make, note],
    by simp [Note.sparesDeliveries]⟩, fun _ h => h, Nat.le_refl _, Nat.le_succ _⟩

theorem sameCore_jump (w : World) (time : Nat) : w.SameCore (w.jump time) :=
  ⟨rfl, rfl, fun _ => rfl, ⟨[], by simp [jump], by simp⟩, fun _ h => h, Nat.le_max_left ..,
    Nat.le_refl _⟩

theorem sameCore_handles (w : World) (handles : List (String × Handle)) :
    w.SameCore { w with handles := handles } :=
  ⟨rfl, rfl, fun _ => rfl, ⟨[], by simp, by simp⟩, fun _ h => h, Nat.le_refl _, Nat.le_refl _⟩

theorem relayExists_of_relayNamed? {name : String} {r : Nat} (hr : w.relayNamed? name = some r) :
    w.relayExists r = true := by
  obtain ⟨xs, ys, hx, -⟩ := List.lookup_eq_some_iff.mp hr
  exact (w.relayExists_iff r).mpr (.inl ⟨(name, r), by simp [hx], rfl⟩)

theorem sameCore_relayNames {names : List (String × Nat)}
    (hn : ∀ p ∈ names, w.relayExists p.2 = true) : w.SameCore { w with relayNames := names } := by
  refine ⟨rfl, rfl, fun _ => rfl, ⟨[], by simp, by simp⟩, ?_, Nat.le_refl _, Nat.le_refl _⟩
  intro r hr
  rcases (relayExists_iff _ r).mp hr with ⟨p, hp, rfl⟩ | hc
  · exact hn p hp
  · exact (w.relayExists_iff r).mpr (.inr hc)

theorem sameCore_forgetRelay (w : World) (name : String) : w.SameCore (w.forgetRelay name) :=
  sameCore_relayNames fun p hp =>
    (w.relayExists_iff p.2).mpr (.inl ⟨p, (List.mem_filter.mp hp).1, rfl⟩)

theorem sameCore_nameRelay {r : Nat} (hr : w.relayExists r = true) (name : String) :
    w.SameCore (w.nameRelay name r) := by
  apply sameCore_relayNames
  intro p hp
  rcases List.mem_cons.mp hp with rfl | hp
  · exact hr
  · exact (w.relayExists_iff p.2).mpr (.inl ⟨p, (List.mem_filter.mp hp).1, rfl⟩)

theorem sameCore_modifyListener (w : World) (r i : Nat) (f : Listener → Listener) :
    w.SameCore (w.modifyListener r i f) := by
  refine ⟨rfl, rfl, fun n => ?_, ⟨[], by simp [modifyListener, modifyRelay], by simp⟩,
    fun _ h => h, Nat.le_refl _, Nat.le_refl _⟩
  rw [modifyListener, relay?_modifyRelay]
  split
  · cases w.relay? n <;> rfl
  · rfl

theorem sameCore_stepListener (w : World) (r i : Nat) : w.SameCore (w.stepListener r i) := by
  have hlistening : ContainsListening r i SameCore :=
    { refl := .refl
      trans := .trans
      listener := fun w => sameCore_modifyListener w r i
      observed := fun w _ => sameCore_note w rfl
      missed := fun w _ => sameCore_note w rfl
      panicked := fun w _ => sameCore_note w rfl }
  exact hlistening.stepListener w

theorem now_stepListener (w : World) (r i : Nat) : (w.stepListener r i).now = w.now := by
  have hlistening : ContainsListening r i fun w v => v.now = w.now :=
    { refl := fun _ => rfl
      trans := fun hu hv => hv.trans hu
      listener := fun _ _ => rfl
      observed := fun _ _ => rfl
      missed := fun _ _ => rfl
      panicked := fun _ _ => rfl }
  exact hlistening.stepListener w

theorem isHosted_stepCall (w : World) (c n : Nat) : (w.stepCall c).isHosted n = w.isHosted n := by
  have hset : ∀ (v : World) (p : CallPhase), (v.setPhase c p).isHosted n = v.isHosted n := by
    intro v p
    rw [isHosted, isHosted, call?_setPhase]
    split
    · cases v.call? n <;> rfl
    · rfl
  unfold stepCall
  split
  · rfl
  · split
    · dsimp only
      split
      · exact hset _ _
      · split
        · exact hset _ _
        · rfl
    · split
      · exact hset _ _
      · rfl
    · split
      · exact hset _ _
      · rfl
    · rfl
    · rfl

theorem leads_driveCall {c : Nat} {g : Option Slice}
    (hc : g.elim (w.isHosted c = true) (·.call = some c)) : Leads w g (w.driveCall c) g := by
  have hd : ∀ v : World, v.isHosted c = w.isHosted c → ∀ ps, Moment.Drives ⟨v, g, ps⟩ c := by
    intro v hv ps
    cases g with
    | none => exact hv.trans hc
    | some l => exact hc
  have h₁ : Leads w g (w.stepCall c) g :=
    .transition (sparesListeners_stepCall ..) fun ps => ⟨ps, .call c (hd w rfl ps)⟩
  exact h₁.trans (.transition (sparesListeners_stepCall ..) fun ps =>
    ⟨ps, .call c (hd _ (isHosted_stepCall w c c) ps)⟩)

theorem leads_beginShutdown {r : Nat} (hr : w.relayExists r = true) (g : Option Slice)
    (hg : ∀ l ∈ g, l.call = none) :
    Leads w g (w.beginShutdown r (g.map (·.id))).1
      (g.map ({ · with call := some w.calls.size })) := by
  have ho : Leads w g (w.openCall r (g.map (·.id)))
      (g.map ({ · with call := some w.calls.size })) :=
    .transition (SparesListeners.records.openCall ..) fun ps =>
      ⟨ps, .shutdown (a := ⟨w, g, ps⟩) r hr hg⟩
  cases g with
  | some l => exact ho.trans (leads_driveCall (g := some { l with call := some w.calls.size }) rfl)
  | none =>
    cases hq : w.relay? r with
    | none =>
      have hw : w.openCall r none = w := by simp [openCall, hq]
      have hn : w.call? w.calls.size = none := by simp [call?]
      have hs : w.stepCall w.calls.size = w := by simp [stepCall, hn]
      simp only [beginShutdown, Option.map_none, hw, driveCall, hs]
      exact .refl w none
    | some q =>
      refine ho.trans (leads_driveCall ?_)
      simp only [Option.map_none, Option.elim_none, isHosted, openCall, locked?_eq, hq, call?]
      split
      · simp
      · simp [calls_close]

theorem leads_register {r : Nat} (hr : w.relayExists r = true) (name : String) (sink : Sink)
    (g : Option Slice) : Leads w g (w.registerNamed r name sink).1 g := by
  have hw : Leads w g (w.register r name sink).1 g :=
    .transition (SparesListeners.records.register ..) fun ps =>
      ⟨ps, .register (a := ⟨w, g, ps⟩) r name sink hr⟩
  rw [registerNamed]
  split <;> rename_i he <;> rw [he] at hw
  · exact hw
  · exact hw.trans ((sameCore_handles ..).leads (SparesListeners.calls.handles ..) g)

theorem leads_unregister {r : Nat} (hr : w.relayExists r = true) (id : SubscriberId)
    (g : Option Slice) : Leads w g (w.unregister r id).1 g :=
  .transition (SparesListeners.records.unregister ..) fun ps =>
    ⟨ps, .unregister (a := ⟨w, g, ps⟩) r id hr⟩

theorem leads_remove (w : World) (k : Handle) (g : Option Slice) : Leads w g (w.remove k).1 g := by
  rw [remove]
  split
  · split
    · rename_i hr
      exact leads_unregister hr k.id g
    · exact .refl w g
  · exact .refl w g

theorem leads_publish {r : Nat} (hr : w.relayExists r = true) (m : Message) (g : Option Slice) :
    Leads w g (w.publish r m) g :=
  .transition (SparesListeners.records.publish ..) fun ps => ⟨_, .publish (a := ⟨w, g, ps⟩) r m hr⟩

theorem leads_giveUp (w : World) (c : Nat) (g : Option Slice) : Leads w g (w.giveUp c) g :=
  .transition (SparesListeners.records.giveUp ..) fun ps => ⟨ps, .giveUp (a := ⟨w, g, ps⟩) c⟩

variable {l : Slice}

theorem leads_row (w : World) (l : Slice) {x : Row} (hx : x.isPlain = true) :
    Leads w (some l) (w.row l.id x) (some l) :=
  .transition (SparesListeners.records.anyRow ..) fun ps =>
    ⟨ps, .row (a := ⟨w, some l, ps⟩) x rfl hx⟩

theorem leads_back {c : Nat} {result : Option RelayError} (hl : l.call = some c)
    (hr : w.result? c = some result) : Leads w (some l) w (some { l with call := none }) :=
  .transition (.refl w) fun ps => ⟨ps, .back (a := ⟨w, some l, ps⟩) rfl hl (by simp [hr])⟩

theorem relayExists_of_home? {id : SubscriberId} {r : Nat} {name : String}
    (hw : w.home? id = some (r, name)) : w.relayExists r = true := by
  obtain ⟨s, -, hs⟩ := Option.bind_eq_some_iff.mp hw
  obtain ⟨n, hn, he⟩ := Option.map_eq_some_iff.mp hs
  cases he
  exact relayExists_of_relayNamed? hn

theorem leads_callHome (w : World) (l : Slice) (action : String) (f : Nat → World × Reply)
    (hf : ∀ r, w.relayExists r = true → Leads w (some l) (f r).1 (some l)) :
    Leads w (some l) (w.callHome l.id action f).1 (some l) := by
  unfold callHome
  cases hh : w.home? l.id with
  | none => exact leads_row w l rfl
  | some p => exact (hf p.1 (relayExists_of_home? hh)).trans (leads_row _ l rfl)

theorem leads_withHandle (w : World) (name : String) (f : Handle → World × Reply) (g : Option Slice)
    (hf : ∀ k, Leads w g (f k).1 g) : Leads w g (w.withHandle name f).1 g := by
  rw [withHandle]
  split
  · exact hf _
  · exact .refl w g

end World

def Effect.call? : Effect → Option Nat
  | .waits wait => wait.call?
  | _ => none

def Outcome.call? : Outcome → Option Nat
  | .waits wait _ => wait.call?
  | _ => none

namespace World

theorem leads_act_register (w : World) {l : Slice} (hl : l.call = none) (sink : Sink) :
    Leads w (some l) (w.act l.id (.register sink)).1
      (some { l with call := (w.act l.id (.register sink)).2.call? }) := by
  rcases l with ⟨id, home, m, deadline, c⟩
  obtain rfl : c = none := hl
  let l : Slice := ⟨id, home, m, deadline, none⟩
  rw [act]
  split
  · exact leads_row w l rfl
  · rename_i r name hr
    have hw := leads_register (relayExists_of_home? hr) name sink (some l)
    split <;> rename_i he <;> rw [he] at hw
    · exact hw
    · exact hw.trans (leads_row _ l rfl)

/-- A delivery that calls shutdown stays in the call until that is over. -/
theorem leads_act_shutdown (w : World) {l : Slice} (hl : l.call = none) :
    Leads w (some l) (w.act l.id .shutdown).1
      (some { l with call := (w.act l.id .shutdown).2.call? }) := by
  rcases l with ⟨id, home, m, deadline, c⟩
  obtain rfl : c = none := hl
  let l : Slice := ⟨id, home, m, deadline, none⟩
  rw [act]
  split
  · exact leads_row w l rfl
  · rename_i r name hr
    have hw := leads_beginShutdown (relayExists_of_home? hr) (some l) (by simp [l])
    generalize hv : w.beginShutdown r (some id) = v
    rw [Option.map_some, hv] at hw
    have hc : w.calls.size = v.2 := by rw [← hv, beginShutdown]
    rw [hc] at hw
    dsimp only
    cases hres : v.1.result? v.2 with
    | none => exact hw
    | some result =>
      have hb := leads_back (l := { l with call := some v.2 }) rfl hres
      exact (hw.trans hb).trans (leads_row v.1 l rfl)

theorem leads_act (w : World) {l : Slice} (hl : l.call = none) (a : Action) :
    Leads w (some l) (w.act l.id a).1 (some { l with call := (w.act l.id a).2.call? }) := by
  rcases l with ⟨id, home, m, deadline, c⟩
  obtain rfl : c = none := hl
  let l : Slice := ⟨id, home, m, deadline, none⟩
  cases a with
  | ok => exact leads_row w l rfl
  | fail error => exact leads_row w l rfl
  | closed => exact leads_row w l rfl
  | panic p => exact .refl w (some l)
  | panicAtStart => exact .refl w (some l)
  | hang => exact .refl w (some l)
  | yield => exact .refl w (some l)
  | sleep ms =>
    rw [act]
    split <;> exact .refl w (some l)
  | publish m => exact leads_callHome w l _ _ fun r hr => leads_publish hr m _
  | unregister k =>
    exact leads_callHome w l _ _ fun r hr =>
      leads_withHandle w k _ _ fun h => leads_unregister hr h.id _
  | remove k =>
    exact (leads_withHandle w k _ _ fun h => leads_remove w h _).trans (leads_row _ l rfl)
  | isActive k =>
    exact leads_callHome w l _ _ fun r _ => leads_withHandle w k _ _ fun h => .refl w _
  | count => exact leads_callHome w l _ _ fun r _ => .refl w _
  | register sink => exact leads_act_register w (l := l) rfl sink
  | shutdown => exact leads_act_shutdown w (l := l) rfl

theorem isOwn_act (w : World) (id : SubscriberId) (a : Action) {f : SinkFault}
    (hf : (w.act id a).2 = .ends (some f)) : f.isOwn = true := by
  cases a with
  | fail error | closed | panic p | panicAtStart => cases hf; rfl
  | ok | hang | yield | publish m | unregister k | remove k | isActive k | count => cases hf
  | sleep ms =>
    rw [act] at hf
    split at hf <;> cases hf
  | register sink =>
    rw [act] at hf
    split at hf
    · cases hf
    · split at hf <;> cases hf
      rfl
  | shutdown =>
    rw [act] at hf
    split at hf
    · cases hf
    · dsimp only at hf
      split at hf <;> cases hf

theorem leads_actAll (w : World) {l : Slice} (hl : l.call = none) (as : List Action) :
    Leads w (some l) (w.actAll l.id as).1 (some { l with call := (w.actAll l.id as).2.call? }) ∧
    (w.actAll l.id as).2.Fits { l with call := (w.actAll l.id as).2.call? } := by
  induction as generalizing w with
  | nil =>
    have hn : { l with call := none } = l := by rw [← hl]
    exact ⟨hn.symm ▸ leads_row w l rfl, rfl⟩
  | cons a as ih =>
    have ha := leads_act w hl a
    cases he : w.act l.id a with
    | mk v e =>
      rw [he] at ha
      simp only [actAll, he]
      cases e with
      | proceed =>
        have hn : { l with call := none } = l := by rw [← hl]
        have hp : Leads w (some l) v (some { l with call := none }) := ha
        rw [hn] at hp
        obtain ⟨hv, hf⟩ := ih v
        exact ⟨hp.trans hv, hf⟩
      | ends fault =>
        refine ⟨ha, ?_⟩
        cases fault with
        | none => rfl
        | some f => exact ⟨rfl, isOwn_act w l.id a (by rw [he])⟩
      | waits wait => exact ⟨ha, rfl⟩

theorem leads_conclude (w : World) {l : Slice} (hl : l.call = none) (as : List Action) :
    Leads w (some l)
      ((w.actAll l.id as).1.conclude l.id l.relay l.message l.deadline (w.actAll l.id as).2)
      none := by
  obtain ⟨ha, hf⟩ := leads_actAll w hl as
  exact ha.trans (.transition ((SparesListeners.deliveries _).conclude ..) fun ps =>
    ⟨ps, .conclude (l := { l with call := (w.actAll l.id as).2.call? }) _ rfl hf⟩)

theorem leads_waitOn (w : World) (l : Slice) (d : Delivery) (hm : d.message = l.message)
    (hd : d.deadline = l.deadline) (hw : d.wait.call? = l.call) :
    Leads w (some l) (w.waitOn l.id l.relay d) none := by
  rcases d with ⟨m, wait, rest, deadline⟩
  obtain rfl : m = l.message := hm
  obtain rfl : deadline = l.deadline := hd
  exact .transition ((SparesListeners.deliveries _).conclude _ _ _ _ (.waits wait rest)) fun ps =>
    ⟨ps, .conclude (.waits wait rest) rfl hw⟩

section PartChange
variable {id : SubscriberId} {s : Subscriber}

theorem leads_begin (hs : w.subscriber? id = some s) (hp : s.phase = .idle)
    (hc : s.cancelled = false) {m : Message} {queue : List Message} (hq : s.queue = m :: queue) :
    Leads w none (w.begin id s m queue) none := by
  have hb : Leads w none (w.take id m queue)
      (some ⟨id, s.relay, m, w.deadlineFor s.relay, none⟩) :=
    .transition ((SparesListeners.deliveries _).take ..) fun ps =>
      ⟨ps, .begin (a := ⟨w, none, ps⟩) rfl hs hp hc hq⟩
  have ha : ∀ as, Leads w none (((w.take id m queue).actAll id as).1.conclude id s.relay m
      (w.deadlineFor s.relay) ((w.take id m queue).actAll id as).2) none :=
    fun as => hb.trans (leads_conclude _ rfl as)
  unfold begin start
  dsimp only
  split
  · rename_i tail he ha
    exact .transition (((SparesListeners.deliveries _).take ..).trans
      ((SparesListeners.deliveries _).crash ..)) fun ps =>
      ⟨ps, .crash (a := ⟨w, none, ps⟩) rfl hs hp hc hq ⟨he, tail, ha⟩⟩
  · exact ha _

theorem leads_proceed (hs : w.subscriber? id = some s) {d : Delivery}
    (hp : s.phase = .delivering d) (hc : s.cancelled = false) :
    Leads w none (w.proceed id s.relay d) none := by
  have hb : Leads w none w (some ⟨id, s.relay, d.message, d.deadline, d.wait.call?⟩) :=
    .transition (.refl w) fun ps => ⟨ps, .poll (a := ⟨w, none, ps⟩) rfl hs hp hc⟩
  have hw : Leads w none (w.waitOn id s.relay d) none :=
    hb.trans (leads_waitOn w ⟨id, s.relay, d.message, d.deadline, d.wait.call?⟩ d rfl rfl rfl)
  unfold proceed
  split <;> rename_i he <;> rw [he] at hb
  · exact hb.trans (leads_conclude w (l := ⟨id, s.relay, d.message, d.deadline, none⟩) rfl d.rest)
  · split
    · exact hb.trans (leads_conclude w (l := ⟨id, s.relay, d.message, d.deadline, none⟩) rfl d.rest)
    · exact hw
  · exact hw
  · rename_i c
    have hd := hb.trans (leads_driveCall (c := c) rfl)
    dsimp only
    split
    · rename_i result hres
      have hk := leads_back (l := ⟨id, s.relay, d.message, d.deadline, some c⟩) rfl hres
      have hr := leads_row (w.driveCall c) ⟨id, s.relay, d.message, d.deadline, none⟩
        (x := .called "shutdown" (.ofShutdown result)) rfl
      exact ((hd.trans hk).trans hr).trans (leads_conclude _ rfl d.rest)
    · exact hd.trans (leads_waitOn _ ⟨id, s.relay, d.message, d.deadline, some c⟩ d rfl rfl
        (by rw [he]; rfl))

theorem leads_stepWorker (w : World) (id : SubscriberId) : Leads w none (w.stepWorker id) none := by
  unfold stepWorker
  cases hs : w.subscriber? id with
  | none => exact .refl w none
  | some s =>
    dsimp only
    cases hp : s.phase with
    | stopped => exact .refl w none
    | crashed => exact .refl w none
    | delivering d =>
      dsimp only
      by_cases hc : s.cancelled = true
      · rw [if_pos hc]
        exact .transition ((SparesListeners.deliveries _).abort ..) fun ps =>
          ⟨ps, .abort (a := ⟨w, none, ps⟩) rfl hs hp hc⟩
      · rw [if_neg hc]
        exact leads_proceed hs hp (by simpa using hc)
    | idle =>
      dsimp only
      by_cases hc : s.cancelled = true
      · rw [if_pos hc]
        exact .transition ((SparesListeners.deliveries _).stopWorker ..) fun ps =>
          ⟨ps, .stop (a := ⟨w, none, ps⟩) rfl hs hp (.inl hc)⟩
      · rw [if_neg hc]
        cases hq : s.queue with
        | cons m queue => exact leads_begin hs hp (by simpa using hc) hq
        | nil =>
          dsimp only
          by_cases hf : w.isFed id = true
          · rw [if_pos hf]
            exact .refl w none
          · rw [if_neg hf]
            have hc : s.cancelled = true ∨ s.queue = [] ∧ w.isFed id = false :=
              .inr ⟨hq, by simpa using hf⟩
            exact .transition ((SparesListeners.deliveries _).stopWorker ..) fun ps =>
              ⟨ps, .stop (a := ⟨w, none, ps⟩) rfl hs hp hc⟩

end PartChange

theorem leads_move {m : Move} (hm : w.Allows m) (ht : w.OnTime m) :
    Leads w none (w.move m) none := by
  cases m with
  | build name config observers =>
    exact .walkStep (now_build ..) fun ps => .build name config observers
  | nameRelay name r =>
    obtain ⟨n, hn⟩ := hm
    exact (sameCore_nameRelay (relayExists_of_relayNamed? hn) name).leads
      (sparesListeners_relayNames ..) none
  | forgetRelay name =>
    exact (sameCore_forgetRelay w name).leads (sparesListeners_relayNames ..) none
  | register r name sink => exact leads_register (relayExists_of_relayNamed? hm) name sink none
  | unregister r id =>
    obtain ⟨⟨n, hn⟩, -⟩ := hm
    exact leads_unregister (relayExists_of_relayNamed? hn) id none
  | remove k => exact leads_remove w k none
  | forgetHandle name => exact (sameCore_handles w _).leads (SparesListeners.calls.handles ..) none
  | publish r msg =>
    obtain ⟨n, hn⟩ := hm
    exact leads_publish (relayExists_of_relayNamed? hn) msg none
  | beginShutdown r =>
    obtain ⟨n, hn⟩ := hm
    exact leads_beginShutdown (relayExists_of_relayNamed? hn) none (by simp)
  | giveUp c => exact leads_giveUp w c none
  | make d => exact (sameCore_make w d).leads (sparesListeners_make w d) none
  | pass time =>
    refine fun ps => ⟨ps, .single ⟨.pass time rfl, fun hlt => ⟨ht.1, fun t hmem hlate => ?_⟩⟩⟩
    exact Nat.max_le.mpr ⟨Nat.le_of_lt hlate, ht.2 t hmem hlate⟩
  | step t =>
    cases t with
    | call c =>
      have hc : w.isHosted c = true := (Bool.and_eq_true_iff.mp hm).1
      exact .transition (sparesListeners_stepCall ..) fun ps =>
        ⟨ps, .call (a := ⟨w, none, ps⟩) c hc⟩
    | listener r i => exact .walkStep (now_stepListener ..) fun ps => .listen r i rfl hm
    | worker id => exact leads_stepWorker w id

theorem leads_timedRun (hr : TimedRun w v) : Leads w none v none := by
  induction hr with
  | refl => exact .refl w none
  | tail m _ hm ht ih => exact ih.trans (leads_move hm ht)

theorem walk_move {m : Move} (hm : w.Allows m) (ps : List Publication) :
    ∃ qs, Walk ⟨w, none, ps⟩ ⟨w.move m, none, qs⟩ := by
  by_cases ht : w.OnTime m
  · exact (leads_move hm ht ps).imp fun _ => TimedWalk.walk
  · cases m with
    | pass time => exact ⟨ps, .single (.pass time rfl)⟩
    | _ => exact absurd trivial ht

theorem walk_run (hr : Run w v) (ps : List Publication) :
    ∃ qs, Walk ⟨w, none, ps⟩ ⟨v, none, qs⟩ := by
  induction hr with
  | refl => exact ⟨ps, .refl⟩
  | tail m _ hm ih =>
    obtain ⟨qs, hq⟩ := ih
    obtain ⟨rs, hr⟩ := walk_move hm qs
    exact ⟨rs, Relation.ReflTransGen.trans hq hr⟩

end World

theorem WalkStep.transition_of {a b : Moment} (h : WalkStep a b) : Transition a b := by
  cases h with
  | transition h => exact h
  | build name config observers => exact .build name config observers
  | listen r i => exact .sameCore (World.sameCore_stepListener ..)
  | pass time => exact .sameCore (World.sameCore_jump ..)

theorem Walk.transitions {a b : Moment} (h : Walk a b) : Transitions a b :=
  Relation.ReflTransGen.mono (fun _ _ => WalkStep.transition_of) _ _ h

theorem Moment.Walked.reached {a : Moment} (ha : a.Walked) : a.Reached := Walk.transitions ha

theorem Moment.Walked.trans {a b : Moment} (ha : a.Walked) (hab : Walk a b) : b.Walked :=
  Relation.ReflTransGen.trans ha hab

namespace World

/-- Every reachable world is the world of a moment between two moves. -/
theorem walked_of_reachable {w : World} (hw : w.Reachable) :
    ∃ ps, Moment.Walked ⟨w, none, ps⟩ :=
  walk_run hw []

theorem timedWalked_of_timedReachable {w : World} (hw : w.TimedReachable) :
    ∃ ps, Moment.TimedWalked ⟨w, none, ps⟩ :=
  leads_timedRun hw []

theorem reached_of_reachable {w : World} (hw : w.Reachable) :
    ∃ ps, Moment.Reached ⟨w, none, ps⟩ :=
  (walked_of_reachable hw).imp fun _ => Moment.Walked.reached

end World
end Fanout
