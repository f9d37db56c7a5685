import Fanout.Proofs.Ends
import Fanout.Proofs.Ring
import Fanout.Proofs.Walks

/-! # What a listener does

A listener hands its observer one event after the other, is told what it lost, waits for its
observer, and stops when nothing is left to read. It does so in steps of its own; nothing else
touches it.
-/
namespace Fanout

/-- What an observer has been told: the events that it was called with, and the stretches that
its listener was warned about. -/
def Note.markOf? (r i : Nat) : Note → Option Bus.Mark
  | .observed n j e => if n = r ∧ j = i then some (.event e) else none
  | .missed n j count => if n = r ∧ j = i then some (.lagged count) else none
  | _ => none

def Note.panicOf? (r i : Nat) : Note → Option Panic
  | .observerPanicked n j p => if n = r ∧ j = i then some p else none
  | _ => none

namespace Observer

/-- Where the end of a call leaves a listener: gone, if the observer panics again when the warning
of its panic asks for its name. -/
def leaves (o : Observer) (panic : Option Panic) : ListenerPhase :=
  match panic, o.name with
  | some _, .panics _ => .crashed
  | _, _ => .receiving

def warnings (o : Observer) (panic : Option Panic) : List Panic :=
  match o.name with
  | .given _ => panic.toList
  | .panics _ => []

/-- Where a call of an observer with an event leaves its listener. -/
def holds (o : Observer) (e : Event) (now : Nat) : ListenerPhase :=
  if o.panicsAtStart e then .crashed
  else if o.sleep e = 0 then o.leaves (o.panic e)
  else .calling (now + o.sleep e) (o.panic e)

def bursts (o : Observer) (e : Event) : List Panic :=
  if o.panicsAtStart e = false ∧ o.sleep e = 0 then o.warnings (o.panic e) else []

/-- An observer that tells its name and panics only while a call of it is polled. -/
structure Guarded (o : Observer) : Prop where
  named : ∃ name, o.name = .given name
  polled : ∀ e, o.panicsAtStart e = false

end Observer

variable {u v w : World} {r i n j : Nat}

namespace World

def heard (w : World) (r i : Nat) : List Bus.Mark := w.journal.toList.filterMap (Note.markOf? r i)
def panics (w : World) (r i : Nat) : List Panic := w.journal.toList.filterMap (Note.panicOf? r i)
def slots (w : World) (r : Nat) : Nat := ((w.relay? r).map (·.bus.slots)).getD 0

theorem heard_note (w : World) (x : Note) (r i : Nat) :
    (w.note x).heard r i = w.heard r i ++ (x.markOf? r i).toList := by
  cases h : x.markOf? r i <;> simp [heard, note, h]

theorem panics_note (w : World) (x : Note) (r i : Nat) :
    (w.note x).panics r i = w.panics r i ++ (x.panicOf? r i).toList := by
  cases h : x.panicOf? r i <;> simp [panics, note, h]

/-- From one world to another nothing happens to listener `j` of relay `n`. -/
structure Bypasses (w : World) (n j : Nat) (v : World) : Prop where
  listener : v.listener? n j = w.listener? n j
  heard : v.heard n j = w.heard n j
  panics : v.panics n j = w.panics n j

theorem Bypasses.refl (w : World) (n j : Nat) : w.Bypasses n j w := ⟨rfl, rfl, rfl⟩

theorem Bypasses.trans (hu : u.Bypasses n j v) (hv : v.Bypasses n j w) : u.Bypasses n j w :=
  ⟨hv.listener.trans hu.listener, hv.heard.trans hu.heard, hv.panics.trans hu.panics⟩

theorem SparesListeners.bypasses (hv : w.SparesListeners v) (n j : Nat) : w.Bypasses n j v := by
  obtain ⟨ns, hns, hs⟩ := hv.journal
  have hmark : ns.filterMap (Note.markOf? n j) = [] := by
    apply List.filterMap_eq_nil_iff.mpr
    intro x hx
    have := hs x hx
    cases x <;> simp_all [Note.isListening, Note.markOf?]
  have hpanic : ns.filterMap (Note.panicOf? n j) = [] := by
    apply List.filterMap_eq_nil_iff.mpr
    intro x hx
    have := hs x hx
    cases x <;> simp_all [Note.isListening, Note.panicOf?]
  refine ⟨?_, ?_, ?_⟩
  · have he := congrArg (Option.bind · (·.1[j]?)) (hv.listening n)
    simpa [listener?, Option.bind_map, Function.comp_def, Relay.listening] using he
  · rw [World.heard, hns, List.filterMap_append, hmark, List.append_nil, World.heard]
  · rw [World.panics, hns, List.filterMap_append, hpanic, List.append_nil, World.panics]

theorem SparesListeners.slots (hv : w.SparesListeners v) (r : Nat) : v.slots r = w.slots r := by
  have he := congrArg (Option.map Prod.snd) (hv.listening r)
  simp only [Option.map_map] at he
  exact congrArg (Option.getD · 0) he

theorem SameCore.slots (hv : w.SameCore v) (r : Nat) : v.slots r = w.slots r := by
  have hr := congrArg (Option.map fun q => q.bus.slots) (hv.relays r)
  simp only [Option.map_map] at hr
  exact congrArg (Option.getD · 0) hr

theorem SameCore.stopping (hv : w.SameCore v) (r : Nat) : v.stopping r = w.stopping r := by
  have hr := congrArg (Option.map fun q => q.stopping) (hv.relays r)
  simp only [Option.map_map] at hr
  exact congrArg (Option.getD · false) hr

theorem listener?_modifyListener (w : World) (r i : Nat) (f : Listener → Listener) (n j : Nat) :
    (w.modifyListener r i f).listener? n j =
      if r = n ∧ i = j then (w.listener? n j).map f else w.listener? n j := by
  rw [listener?, modifyListener, relay?_modifyRelay, listener?]
  by_cases hr : r = n
  · cases hq : w.relay? n with
    | none => simp
    | some q => by_cases hi : i = j <;> simp [hr, hi]
  · simp [hr]

theorem bypasses_modifyListener (h : ¬ (r = n ∧ i = j)) (w : World) (f : Listener → Listener) :
    w.Bypasses n j (w.modifyListener r i f) :=
  ⟨by rw [listener?_modifyListener, if_neg h], rfl, rfl⟩

theorem bypasses_note {x : Note} (hm : x.markOf? n j = none) (hp : x.panicOf? n j = none)
    (w : World) : w.Bypasses n j (w.note x) :=
  ⟨rfl, by rw [heard_note, hm]; exact List.append_nil _,
    by rw [panics_note, hp]; exact List.append_nil _⟩

theorem bypasses_stepListener (h : ¬ (r = n ∧ i = j)) (w : World) :
    w.Bypasses n j (w.stepListener r i) := by
  have hlistening : ContainsListening r i (Bypasses · n j ·) :=
    { refl := fun w => .refl ..
      trans := .trans
      listener := bypasses_modifyListener h
      observed := fun w e => bypasses_note (x := .observed r i e) (if_neg h) rfl w
      missed := fun w count => bypasses_note (x := .missed r i count) (if_neg h) rfl w
      panicked := fun w p => bypasses_note (x := .observerPanicked r i p) rfl (if_neg h) w }
  exact hlistening.stepListener w

def unread (w : World) (r : Nat) (l : Listener) : Nat := (w.events r).length - l.next

end World

/-- What listener `i` of relay `r` does in one step from `w` to `v`. A call of its observer begins
only when none is underway; a panic that is caught makes no difference to what comes next. -/
inductive Listener.Step (w : World) (r i : Nat) (v : World) : Listener → Listener → Prop where
  | hears {l : Listener} {e : Event} : l.phase = .receiving → (w.events r)[l.next]? = some e →
    w.unread r l ≤ w.slots r → v.heard r i = w.heard r i ++ [.event e] →
    v.panics r i = w.panics r i ++ l.observer.bursts e →
    Step w r i v l { l with next := l.next + 1, phase := l.observer.holds e w.now }
  | misses {l : Listener} {name : String} : l.phase = .receiving → l.leaving = false →
    w.slots r < w.unread r l → l.observer.name = .given name →
    v.heard r i = w.heard r i ++ [.lagged (w.unread r l - w.slots r)] →
    v.panics r i = w.panics r i →
    Step w r i v l { l with next := (w.events r).length - w.slots r }
  /-- It has lost events, and the observer panics when the warning asks for its name. -/
  | falls {l : Listener} {p : Panic} : l.phase = .receiving → l.leaving = false →
    w.slots r < w.unread r l → l.observer.name = .panics p → v.heard r i = w.heard r i →
    v.panics r i = w.panics r i → Step w r i v l { l with phase := .crashed }
  /-- A loss that it meets when leaving it passes over. -/
  | skips {l : Listener} : l.phase = .receiving → l.leaving = true →
    w.slots r < w.unread r l → v.heard r i = w.heard r i → v.panics r i = w.panics r i →
    Step w r i v l { l with next := (w.events r).length - w.slots r }
  | ends {l : Listener} {wake : Nat} {panic : Option Panic} : l.phase = .calling wake panic →
    wake ≤ w.now → v.heard r i = w.heard r i →
    v.panics r i = w.panics r i ++ l.observer.warnings panic →
    Step w r i v l { l with phase := l.observer.leaves panic }
  | leaves {l : Listener} : l.phase = .receiving → (w.events r).length ≤ l.next →
    w.stopping r = true → v.heard r i = w.heard r i → v.panics r i = w.panics r i →
    Step w r i v l { l with leaving := true }
  | stops {l : Listener} : l.phase = .receiving → (w.events r).length ≤ l.next →
    l.leaving = true ∨ w.busClosed r = true → v.heard r i = w.heard r i →
    v.panics r i = w.panics r i → Step w r i v l { l with phase := .stopped }

namespace World

theorem relay?_of_listener? {l : Listener} (hl : w.listener? r i = some l) :
    ∃ q, w.relay? r = some q ∧ q.listeners[i]? = some l := Option.bind_eq_some_iff.mp hl

theorem modifyListener_cases {l : Listener} (hl : w.listener? r i = some l)
    (f : Listener → Listener) : (w.modifyListener r i f).listener? r i = some (f l) ∧
      (w.modifyListener r i f).heard r i = w.heard r i ∧
      (w.modifyListener r i f).panics r i = w.panics r i := by
  refine ⟨?_, rfl, rfl⟩
  rw [listener?_modifyListener, hl]
  simp

theorem enterListener_cases {l : Listener} (hl : w.listener? r i = some l) (p : ListenerPhase) :
    (w.enterListener r i p).listener? r i = some { l with phase := p } ∧
      (w.enterListener r i p).heard r i = w.heard r i ∧
      (w.enterListener r i p).panics r i = w.panics r i :=
  modifyListener_cases hl _

theorem finishCall_cases {l : Listener} (hl : w.listener? r i = some l) (o : Observer)
    (p : Option Panic) :
    (w.finishCall r i o.name p).listener? r i = some { l with phase := o.leaves p } ∧
    (w.finishCall r i o.name p).heard r i = w.heard r i ∧
    (w.finishCall r i o.name p).panics r i = w.panics r i ++ o.warnings p := by
  obtain ⟨hk, hh, hx⟩ := enterListener_cases hl .receiving
  unfold finishCall Observer.leaves Observer.warnings
  cases p with
  | none =>
    refine ⟨hk, hh, hx.trans ?_⟩
    cases o.name <;> exact (List.append_nil _).symm
  | some p =>
    cases o.name with
    | given name =>
      refine ⟨hk, ?_, ?_⟩
      · rw [heard_note, hh]
        simp [Note.markOf?]
      · rw [panics_note, hx]
        simp [Note.panicOf?]
    | panics q =>
      obtain ⟨hk, hh, hx⟩ := enterListener_cases hl .crashed
      exact ⟨hk, hh, hx.trans (List.append_nil _).symm⟩

theorem callObserver_cases {l : Listener} (hl : w.listener? r i = some l) (o : Observer)
    (e : Event) :
    (w.callObserver r i o e).listener? r i = some { l with phase := o.holds e w.now } ∧
    (w.callObserver r i o e).heard r i = w.heard r i ++ [.event e] ∧
    (w.callObserver r i o e).panics r i = w.panics r i ++ o.bursts e := by
  let u := w.note (.observed r i e)
  have hu : u.listener? r i = some l := hl
  have hheard : u.heard r i = w.heard r i ++ [.event e] := by
    simp [u, heard_note, Note.markOf?]
  have hpanics : u.panics r i = w.panics r i := by simp [u, panics_note, Note.panicOf?]
  have henter : ∀ p, (u.enterListener r i p).listener? r i = some { l with phase := p } ∧
      (u.enterListener r i p).heard r i = w.heard r i ++ [.event e] ∧
      (u.enterListener r i p).panics r i = w.panics r i ++ [] := by
    intro p
    obtain ⟨hk, hh, hx⟩ := enterListener_cases hu p
    exact ⟨hk, hh.trans hheard, hx.trans (hpanics.trans (List.append_nil _).symm)⟩
  cases hstart : o.panicsAtStart e with
  | true =>
    have hc : w.callObserver r i o e = u.enterListener r i .crashed := if_pos hstart
    have hphase : o.holds e w.now = .crashed := if_pos hstart
    have hburst : o.bursts e = [] := by simp [Observer.bursts, hstart]
    rw [hc, hphase, hburst]
    exact henter .crashed
  | false =>
    by_cases hs : o.sleep e = 0
    · have hc : w.callObserver r i o e = u.finishCall r i o.name (o.panic e) := by
        simp [callObserver, hstart, hs, u]
      have hphase : o.holds e w.now = o.leaves (o.panic e) := by
        simp [Observer.holds, hstart, hs]
      have hburst : o.bursts e = o.warnings (o.panic e) := by simp [Observer.bursts, hstart, hs]
      obtain ⟨hk, hh, hx⟩ := finishCall_cases hu o (o.panic e)
      rw [hc, hphase, hburst]
      exact ⟨hk, hh.trans hheard, by rw [hx, hpanics]⟩
    · have hc : w.callObserver r i o e =
          u.enterListener r i (.calling (w.now + o.sleep e) (o.panic e)) := by
        simp only [callObserver, hstart, hs, u]
        rfl
      have hphase : o.holds e w.now = .calling (w.now + o.sleep e) (o.panic e) := by
        simp [Observer.holds, hstart, hs]
      have hburst : o.bursts e = [] := by simp [Observer.bursts, hs]
      rw [hc, hphase, hburst]
      exact henter _

theorem skipTo_cases {l : Listener} (hl : w.listener? r i = some l) (hp : l.phase = .receiving)
    (hlag : w.slots r < w.unread r l) :
    ∃ k, (w.skipTo r i l (w.unread r l - w.slots r) ((w.events r).length - w.slots r)).listener?
        r i = some k ∧
      l.Step w r i (w.skipTo r i l (w.unread r l - w.slots r) ((w.events r).length - w.slots r))
        k := by
  obtain ⟨hk, hh, hx⟩ := modifyListener_cases hl
    fun l => { l with next := (w.events r).length - w.slots r }
  unfold skipTo
  dsimp only
  by_cases hleave : l.leaving = true
  · rw [if_pos hleave]
    exact ⟨_, hk, .skips hp hleave hlag hh hx⟩
  · rw [if_neg hleave]
    have hstays : l.leaving = false := by simpa using hleave
    cases hname : l.observer.name with
    | given name =>
      refine ⟨_, hk, .misses hp hstays hlag hname ?_ ?_⟩
      · rw [heard_note, hh]
        simp [Note.markOf?]
      · rw [panics_note, hx]
        simp [Note.panicOf?]
    | panics p =>
      obtain ⟨hk, hh, hx⟩ := modifyListener_cases hl fun l => { l with phase := .crashed }
      exact ⟨_, hk, .falls hp hstays hlag hname hh hx⟩

theorem stepListener_cases {l : Listener} (hl : w.listener? r i = some l)
    (hr : w.listenerReady r i = true) : ∃ k, (w.stepListener r i).listener? r i = some k ∧
      l.Step w r i (w.stepListener r i) k := by
  obtain ⟨q, hq, -⟩ := relay?_of_listener? hl
  have hev : w.events r = q.bus.events.toList := by simp [events, hq]
  have hsize : q.bus.size = (w.events r).length := by simp [Bus.size, hev]
  have hslots : q.bus.slots = w.slots r := by simp [slots, hq]
  have hun : q.bus.unread l.next = w.unread r l := by rw [Bus.unread, hsize, unread]
  have hstop : q.stopping = w.stopping r := by simp [stopping, hq]
  simp only [listenerReady, hq, hl] at hr
  simp only [stepListener, hq, hl]
  cases hp : l.phase with
  | stopped | crashed => simp [hp] at hr
  | calling wake panic =>
    have hw : wake ≤ w.now := by simpa [hp] using hr
    obtain ⟨hk, hh, hx⟩ := finishCall_cases hl l.observer panic
    simp only [if_pos hw]
    exact ⟨_, hk, .ends hp hw hh hx⟩
  | receiving =>
    dsimp only
    rcases q.bus.read_cases l.next with ⟨hlag, he⟩ | ⟨e, hget, hle, he⟩ | ⟨hle, he⟩
    · rw [he, hun, hslots, hsize]
      rw [hun, hslots] at hlag
      exact skipTo_cases hl hp hlag
    · rw [he]
      rw [hun, hslots] at hle
      obtain ⟨hk, hh, hx⟩ := modifyListener_cases hl fun k => { k with next := l.next + 1 }
      obtain ⟨hk', hh', hx'⟩ := callObserver_cases hk l.observer e
      have hfind : (w.events r)[l.next]? = some e := by simpa [hev] using hget
      exact ⟨_, hk', .hears hp hfind hle (by rw [hh', hh]) (by rw [hx', hx])⟩
    · rw [he]
      rw [hsize] at hle
      dsimp only
      by_cases hend : (l.leaving || w.busClosed r) = true
      · rw [if_pos hend]
        obtain ⟨hk, hh, hx⟩ := modifyListener_cases hl fun l => { l with phase := .stopped }
        exact ⟨_, hk, .stops hp hle (by simpa using hend) hh hx⟩
      · have hs : q.stopping = true := by
          rw [hp, hsize] at hr
          have hnot : ¬ l.next < (w.events r).length := by omega
          simp only [Bool.or_eq_true, decide_eq_true_eq] at hr hend
          tauto
        rw [if_neg hend, if_pos hs]
        obtain ⟨hk, hh, hx⟩ := modifyListener_cases hl fun l => { l with leaving := true }
        exact ⟨_, hk, .leaves hp hle (hstop ▸ hs) hh hx⟩

end World

variable {a b : Moment}

/-- Only its own steps touch a listener, once it is there. -/
theorem WalkStep.bypasses (h : WalkStep a b) (r i : Nat) :
    a.world.Bypasses r i b.world ∨
    (a.world.relay? r = none ∧ b.world.heard r i = a.world.heard r i ∧
      b.world.panics r i = a.world.panics r i) ∨
    (a.world.listenerReady r i = true ∧ b = { a with world := a.world.stepListener r i }) := by
  cases h with
  | transition _ hw => exact .inl (hw.bypasses r i)
  | build name config observers =>
    have hj := a.world.journal_build name config observers
    have hh : (a.world.build name config observers).1.heard r i = a.world.heard r i := by
      rw [World.heard, hj, World.heard]
    have hx : (a.world.build name config observers).1.panics r i = a.world.panics r i := by
      rw [World.panics, hj, World.panics]
    rcases a.world.relay?_build name config observers r with he | ⟨hn, -⟩
    · refine .inl ⟨?_, hh, hx⟩
      rw [World.listener?, he, World.listener?]
    · exact .inr (.inl ⟨hn, hh, hx⟩)
  | listen n j _ hr =>
    by_cases hj : n = r ∧ j = i
    · obtain ⟨rfl, rfl⟩ := hj
      exact .inr (.inr ⟨hr, rfl⟩)
    · exact .inl (World.bypasses_stepListener hj a.world)
  | pass => exact .inl ⟨rfl, rfl, rfl⟩

theorem WalkStep.listener (h : WalkStep a b) {l : Listener} (hl : a.world.listener? r i = some l) :
    a.world.Bypasses r i b.world ∨ a.world.SameCore b.world ∧ b.world.now = a.world.now ∧
      ∃ k, b.world.listener? r i = some k ∧ l.Step a.world r i b.world k := by
  rcases h.bypasses r i with hb | ⟨hn, -⟩ | ⟨hr, rfl⟩
  · exact .inl hb
  · obtain ⟨q, hq, -⟩ := World.relay?_of_listener? hl
    cases hn.symm.trans hq
  · exact .inr ⟨World.sameCore_stepListener .., World.now_stepListener ..,
      World.stepListener_cases hl hr⟩

theorem WalkStep.listener_new (h : WalkStep a b) (hn : a.world.listener? r i = none) {l : Listener}
    (hl : b.world.listener? r i = some l) :
    a.world.relay? r = none ∧ ∃ o, l = { observer := o } := by
  cases h with
  | transition _ hw => cases hn.symm.trans ((hw.bypasses r i).listener.symm.trans hl)
  | build name config observers =>
    rcases a.world.relay?_build name config observers r with he | ⟨hr, he⟩
    · rw [World.listener?, he] at hl
      cases hn.symm.trans hl
    · rw [World.listener?, he, Option.bind_some, List.getElem?_map] at hl
      obtain ⟨o, -, rfl⟩ := Option.map_eq_some_iff.mp hl
      exact ⟨hr, o, rfl⟩
  | listen n j _ hr =>
    by_cases hj : n = r ∧ j = i
    · obtain ⟨rfl, rfl⟩ := hj
      simp [World.listenerReady, hn] at hr
    · cases hn.symm.trans ((World.bypasses_stepListener hj a.world).listener.symm.trans hl)
  | pass => cases hn.symm.trans hl

theorem WalkStep.listener_cases (h : WalkStep a b) (hr : r < a.world.relays.size) {l : Listener}
    (hl : b.world.listener? r i = some l) : ∃ k, a.world.listener? r i = some k ∧
      (l = k ∨ a.world.SameCore b.world ∧ b.world.now = a.world.now ∧
        k.Step a.world r i b.world l) := by
  cases hk : a.world.listener? r i with
  | none =>
    have hn := (h.listener_new hk hl).1
    cases hn.symm.trans (World.relay?_of_lt_size hr)
  | some k =>
    refine ⟨k, rfl, ?_⟩
    rcases h.listener hk with hb | ⟨hv, hnow, m, hm, hstep⟩
    · exact .inl (Option.mem_unique (hb.listener.symm.trans hl) hk)
    · obtain rfl := Option.mem_unique hm hl
      exact .inr ⟨hv, hnow, hstep⟩

theorem WalkStep.events (h : WalkStep a b) (r : Nat) : a.world.events r <+: b.world.events r := by
  cases h with
  | transition _ hw => exact hw.events r
  | build name config observers =>
    exact (World.events_build a.world name config observers r).symm ▸ List.prefix_rfl
  | listen n j => exact ((World.sameCore_stepListener a.world n j).events r).symm ▸ List.prefix_rfl
  | pass time => exact List.prefix_rfl

theorem WalkStep.slots (h : WalkStep a b) (hr : r < a.world.relays.size) :
    b.world.slots r = a.world.slots r := by
  cases h with
  | transition _ hw => exact hw.slots r
  | build name config observers =>
    rcases a.world.relay?_build name config observers r with he | ⟨hn, -⟩
    · rw [World.slots, he, World.slots]
    · cases hn.symm.trans (World.relay?_of_lt_size hr)
  | listen n j => exact (World.sameCore_stepListener _ n j).slots r
  | pass time => rfl

theorem WalkStep.stopping (h : WalkStep a b) (hs : b.world.stopping r = true) :
    a.world.stopping r = true ∨ ∃ e ∈ b.world.events r, e.isFinal = true := by
  cases h with
  | transition _ hw => exact hw.last r hs
  | build name config observers =>
    rcases a.world.relay?_build name config observers r with he | ⟨-, he⟩
    · rw [World.stopping, he] at hs
      exact .inl hs
    · rw [World.stopping, he] at hs
      cases hs
  | listen n j => exact .inl (((World.sameCore_stepListener _ n j).stopping r).symm.trans hs)
  | pass time => exact .inl hs

theorem WalkStep.ordered (h : WalkStep a b) (hs : a.world.stopping r = true) :
    b.world.stopping r = true := by
  cases h with
  | transition _ hw => exact hw.order r hs
  | build name config observers =>
    rcases a.world.relay?_build name config observers r with he | ⟨hn, -⟩
    · rw [World.stopping, he]
      exact hs
    · rw [World.stopping, hn] at hs
      cases hs
  | listen n j => exact ((World.sameCore_stepListener _ n j).stopping r).trans hs
  | pass time => exact hs

/-- The order to stop is given when the relay is settled. -/
theorem Moment.Walked.settled (ha : a.Walked) (hs : a.world.stopping r = true) :
    a.world.Settled r := by
  have hfinal : ∃ e ∈ a.world.events r, e.isFinal = true := by
    induction ha with
    | refl => cases hs
    | tail _ hcd ih =>
      rcases hcd.stopping hs with hc | hf
      · obtain ⟨e, he, hf⟩ := ih hc
        exact ⟨e, (hcd.events r).subset he, hf⟩
      · exact hf
  obtain ⟨e, he, hf⟩ := hfinal
  exact ha.reached.settled_of_final he hf

theorem Moment.Walked.unheard (ha : a.Walked) (hl : a.world.listener? r i = none) :
    a.world.heard r i = [] ∧ a.world.panics r i = [] := by
  induction ha with
  | refl => exact ⟨rfl, rfl⟩
  | @tail c d _ hcd ih =>
    have hc : c.world.listener? r i = none := by
      cases hk : c.world.listener? r i with
      | none => rfl
      | some k =>
        rcases hcd.listener hk with hb | ⟨-, -, m, hm, -⟩
        · cases hl.symm.trans (hb.listener.trans hk)
        · cases hl.symm.trans hm
    obtain ⟨hh, hx⟩ := ih hc
    rcases hcd.bypasses r i with hb | ⟨-, hbh, hbx⟩ | ⟨hr, -⟩
    · exact ⟨hb.heard.trans hh, hb.panics.trans hx⟩
    · exact ⟨hbh.trans hh, hbx.trans hx⟩
    · simp [World.listenerReady, hc] at hr

end Fanout
