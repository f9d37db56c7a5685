import Fanout.Proofs.Observing
import Fanout.Proofs.Steps

/-! # What an observer is told, told again

When a listener looks at its bus makes all the difference to what its observer is told, and nothing
else does: from the events in the end, and from how many of them there were at each look, all of it
can be told again.
-/
namespace Fanout

namespace Bus

def before (b : Bus) (n : Nat) : Bus := { b with events := b.events.take n }

/-- What an observer is told of that its listener finds. It is warned of lost events only by its
name. -/
def Found.mark? (named : Bool) : Found → Option Mark
  | .event e _ => some (.event e)
  | .lagged count _ => if named then some (.lagged count) else none
  | .nothing => none

def Found.position (next : Nat) : Found → Nat
  | .event _ n | .lagged _ n => n
  | .nothing => next

/-- What an observer is told whose listener looks at the bus each time there are so many events on
it. -/
def retell (b : Bus) (named : Bool) (next : Nat) : List Nat → List Mark
  | [] => []
  | n :: looks =>
    let found := (b.before n).read next
    (found.mark? named).toList ++ b.retell named (found.position next) looks

theorem before_of_prefix {b c : Bus} (hs : c.slots = b.slots)
    (he : b.events.toList <+: c.events.toList) : c.before b.size = b := by
  obtain ⟨slots, events⟩ := b
  have htake : c.events.take events.size = events := by
    apply Array.toList_inj.mp
    have hlist := List.prefix_iff_eq_take.mp he
    simpa using hlist.symm
  rw [before, size, htake, hs]

end Bus

/-- Whether a warning can name the observer. -/
def Observer.isNamed (o : Observer) : Bool := o.name.given?.isSome

variable {a b : Moment} {u v w : World} {r i : Nat} {q p : Relay}

namespace World

def play (w : World) : List Move → World
  | [] => w
  | m :: ms => (w.move m).play ms

def Permits (w : World) : List Move → Prop
  | [] => True
  | m :: ms => w.Allows m ∧ (w.move m).Permits ms

theorem run_play {ms : List Move} (h : w.Permits ms) : Run w (w.play ms) := by
  induction ms generalizing w with
  | nil => exact .refl
  | cons m ms ih => exact (Run.single m h.1).trans (ih h.2)

/-- What the moves show, each in the world in which it is made. -/
def gather {α : Type} (f : World → Move → Option α) (w : World) : List Move → List α
  | [] => []
  | m :: ms => (f w m).toList ++ (w.move m).gather f ms

theorem gather_cons_none {α : Type} {f : World → Move → Option α} {m : Move} (ms : List Move)
    (h : f w m = none) : w.gather f (m :: ms) = (w.move m).gather f ms := by
  rw [gather, h]
  rfl

theorem gather_cons_some {α : Type} {f : World → Move → Option α} {m : Move} (ms : List Move)
    {x : α} (h : f w m = some x) : w.gather f (m :: ms) = x :: (w.move m).gather f ms := by
  rw [gather, h]
  rfl

/-- How many events are on the bus when a listener looks at it, if it does so in a move. -/
def look? (w : World) (r i : Nat) : Move → Option Nat
  | .step (.listener n j) =>
    if n = r ∧ j = i ∧ (w.listener? r i).any (·.phase = .receiving) then
      some (w.events r).length
    else none
  | _ => none

def looks (w : World) (r i : Nat) : List Move → List Nat := w.gather fun w => w.look? r i

def position (w : World) (r i : Nat) : Nat := ((w.listener? r i).map (·.next)).getD 0

end World

theorem Walk.events (h : Walk a b) (r : Nat) : a.world.events r <+: b.world.events r := by
  induction h with
  | refl => exact List.prefix_rfl
  | tail _ hcd ih => exact ih.trans (hcd.events r)

theorem Walk.observer? (h : Walk a b) {o : Observer} (ho : a.world.observer? r i = some o) :
    b.world.observer? r i = some o := by
  induction h with
  | refl => exact ho
  | tail _ hcd ih =>
    obtain ⟨l, hl, rfl⟩ := Option.map_eq_some_iff.mp ih
    rw [World.observer?]
    rcases hcd.listener hl with hb | ⟨-, -, k, hk, hstep⟩
    · rw [hb.listener, hl]
      rfl
    · rw [hk, Option.map_some, hstep.observer]

theorem Moment.Walked.follows (ha : a.Walked) {l : Listener}
    (hl : a.world.listener? r i = some l) : a.world.Follows r i l := by
  induction ha generalizing l with
  | refl => cases hl
  | @tail c d hc hcd ih =>
    have hc : c.Walked := hc
    cases hk : c.world.listener? r i with
    | some k =>
      obtain ⟨m, -, hm⟩ := hcd.follows hc (ih hk)
      obtain rfl := Option.mem_unique hm.listener hl
      exact hm
    | none =>
      obtain ⟨hr, o, rfl⟩ := hcd.listener_new hk hl
      have hheard : d.world.heard r i = [] := by
        have hnone := (hc.unheard hk).1
        rcases hcd.bypasses r i with hb | ⟨-, hh, -⟩ | ⟨hready, -⟩
        · exact hb.heard.trans hnone
        · exact hh.trans hnone
        · simp [World.listenerReady, hk] at hready
      exact .new hl hheard

/-- A listener that looks at its bus reports what is there, and goes on behind it, unless it falls
over the name of its observer. -/
theorem Listener.Step.finds {l k : Listener} (h : l.Step w r i v k) (hp : l.phase = .receiving)
    (hf : w.Follows r i l) (hq : w.relay? r = some q) :
    v.heard r i = w.heard r i ++ ((q.bus.read l.next).mark? l.observer.isNamed).toList ∧
      (k.live = false ∨ k.next = (q.bus.read l.next).position l.next) := by
  have hev : w.events r = q.bus.events.toList := by simp [World.events, hq]
  have hsize : (w.events r).length = q.bus.size := by simp [Bus.size, hev]
  have hslots : w.slots r = q.bus.slots := by simp [World.slots, hq]
  have hun : w.unread r l = q.bus.unread l.next := by rw [World.unread, hsize, Bus.unread]
  cases h with
  | hears _ hget hle hheard =>
    have hlt : l.next < q.bus.size := hsize ▸ (List.getElem?_eq_some_iff.mp hget).1
    rcases q.bus.read_cases l.next with ⟨hlag, -⟩ | ⟨e, he, -, hread⟩ | ⟨hend, -⟩
    · omega
    · rw [hev, Array.getElem?_toList, he] at hget
      obtain rfl := Option.some.inj hget
      rw [hread]
      exact ⟨hheard, .inr rfl⟩
    · omega
  | misses _ _ hlag hname hheard =>
    rw [q.bus.read_of_lost (hun ▸ hslots ▸ hlag), hheard, hun, hslots, hsize, Observer.isNamed,
      hname]
    exact ⟨rfl, .inr rfl⟩
  | falls _ _ hlag hname hheard =>
    rw [q.bus.read_of_lost (hun ▸ hslots ▸ hlag), hheard, Observer.isNamed, hname]
    exact ⟨(List.append_nil _).symm, .inl rfl⟩
  | skips _ hl hlag =>
    have hnext := (hf.done (.inl hl)).1
    rw [World.unread] at hlag
    omega
  | ends hc => cases hp.symm.trans hc
  | leaves _ hle _ hheard | stops _ hle _ hheard =>
    rcases q.bus.read_cases l.next with ⟨hlag, -⟩ | ⟨e, he, -⟩ | ⟨-, hread⟩
    · rw [Bus.unread] at hlag
      omega
    · have hlt : l.next < q.bus.size := (Array.getElem?_eq_some_iff.mp he).1
      omega
    · rw [hread, hheard]
      exact ⟨(List.append_nil _).symm, .inr rfl⟩

namespace World

theorem Reachable.follows (hw : w.Reachable) {l : Listener} (hl : w.listener? r i = some l) :
    w.Follows r i l := by
  obtain ⟨ps, hwalked⟩ := walked_of_reachable hw
  exact hwalked.follows hl

theorem Run.before (hw : w.Reachable) (h : Run w v) (hq : w.relay? r = some q)
    (hp : v.relay? r = some p) : p.bus.before q.bus.size = q.bus := by
  obtain ⟨ps, hwalked⟩ := walked_of_reachable hw
  obtain ⟨qs, hwalk⟩ := walk_run h ps
  have hslots := hwalk.slots hwalked.reached.sound (lt_size_of_relay? hq)
  have hevents := hwalk.events r
  simp only [slots, hq, hp, Option.map_some, Option.getD_some] at hslots
  simp only [events, hq, hp, Option.map_some, Option.getD_some] at hevents
  exact Bus.before_of_prefix hslots hevents

theorem bypasses_move {m : Move} (hm : w.Allows m) : w.Bypasses r i (w.move m) ∨
    (w.relay? r = none ∧ (w.move m).heard r i = w.heard r i ∧
      (w.move m).position r i = w.position r i) ∨
    (m = .step (.listener r i) ∧ w.listenerReady r i = true) := by
  cases hh : m.sparesListeners with
  | true => exact .inl ((sparesListeners_move hh).bypasses r i)
  | false =>
    cases m with
    | pass time => exact .inl ⟨rfl, rfl, rfl⟩
    | build name config observers =>
      have hheard : (w.build name config observers).1.heard r i = w.heard r i := by
        rw [heard, w.journal_build, heard]
      rcases w.relay?_build name config observers r with he | ⟨hn, he⟩
      · refine .inl ⟨?_, hheard, ?_⟩
        · rw [listener?, move, he, listener?]
        · rw [panics, move, w.journal_build, panics]
      · refine .inr (.inl ⟨hn, hheard, ?_⟩)
        rw [move, position, position, listener?, he, listener?, hn, Option.bind_some,
          List.getElem?_map]
        cases observers[i]? <;> rfl
    | step t =>
      cases t with
      | call | worker => cases hh
      | listener n j =>
        by_cases hj : n = r ∧ j = i
        · obtain ⟨rfl, rfl⟩ := hj
          exact .inr (.inr ⟨rfl, hm⟩)
        · exact .inl (bypasses_stepListener hj w)
    | nameRelay | forgetRelay | register | unregister | remove | forgetHandle | publish
    | beginShutdown | giveUp | make => cases hh

theorem told_nothing {m : Move} (hm : w.Allows m) (hl : w.look? r i m = none) :
    (w.move m).heard r i = w.heard r i ∧ (w.move m).position r i = w.position r i := by
  rcases bypasses_move (r := r) (i := i) hm with hb | ⟨-, hb⟩ | ⟨rfl, hready⟩
  · refine ⟨hb.heard, ?_⟩
    rw [position, hb.listener, position]
  · exact hb
  · cases hk : w.listener? r i with
    | none => simp [listenerReady, hk] at hready
    | some l =>
      have hp : l.phase ≠ .receiving := by simpa [look?, hk] using hl
      obtain ⟨k, hk', hstep⟩ := stepListener_cases hk hready
      cases hstep with
      | ends _ _ hheard =>
        exact ⟨hheard, by rw [position, move, step, hk', position, hk]; rfl⟩
      | hears h | misses h | falls h | skips h | leaves h | stops h => exact absurd h hp

theorem looks_of_gone {ms : List Move} (hms : w.Permits ms) {l : Listener}
    (hl : w.listener? r i = some l) (hgone : l.live = false) : w.looks r i ms = [] := by
  induction ms generalizing w with
  | nil => rfl
  | cons m ms ih =>
    obtain ⟨hm, hms⟩ := hms
    have hkeeps : (w.move m).listener? r i = some l ∧ m ≠ .step (.listener r i) := by
      rcases bypasses_move (r := r) (i := i) hm with hb | ⟨hn, -⟩ | ⟨-, hready⟩
      · refine ⟨hb.listener.trans hl, ?_⟩
        rintro rfl
        obtain ⟨k, -, hstep⟩ := stepListener_cases hl hm
        cases hgone.symm.trans hstep.live
      · obtain ⟨q, hq, -⟩ := relay?_of_listener? hl
        cases hn.symm.trans hq
      · obtain ⟨k, -, hstep⟩ := stepListener_cases hl hready
        cases hgone.symm.trans hstep.live
    have hlook : w.look? r i m = none := by
      cases m with
      | step t =>
        cases t with
        | call | worker => rfl
        | listener n j =>
          refine if_neg fun hj => hkeeps.2 ?_
          rw [hj.1, hj.2.1]
      | _ => rfl
    rw [looks, gather_cons_none ms hlook]
    exact ih hms hkeeps.1

/-- With a look it is told what is found on the bus. -/
theorem told_found (hw : w.Reachable) {m : Move} (hm : w.Allows m) {n : Nat}
    (hl : w.look? r i m = some n) : ∃ q l k, w.relay? r = some q ∧ n = q.bus.size ∧
      w.listener? r i = some l ∧ (w.move m).heard r i = w.heard r i ++
        ((q.bus.read (w.position r i)).mark? l.observer.isNamed).toList ∧
      (w.move m).listener? r i = some k ∧ (k.live = false ∨
        (w.move m).position r i = (q.bus.read (w.position r i)).position (w.position r i)) := by
  cases m with
  | step t =>
    cases t with
    | call | worker => cases hl
    | listener k j =>
      rw [look?] at hl
      split at hl
      · rename_i hlooks
        obtain ⟨rfl, rfl, hreceiving⟩ := hlooks
        cases hlis : w.listener? k j with
        | none => simp [hlis] at hreceiving
        | some l =>
          have hp : l.phase = .receiving := by simpa [hlis] using hreceiving
          obtain ⟨q, hq, -⟩ := relay?_of_listener? hlis
          obtain ⟨k', hk', hstep⟩ := stepListener_cases hlis hm
          obtain ⟨hheard, hnext⟩ := hstep.finds hp (hw.follows hlis) hq
          have hposition : w.position k j = l.next := by
            rw [position, hlis]
            rfl
          have hafter : (w.move (.step (.listener k j))).position k j = k'.next := by
            rw [position, move, step, hk']
            rfl
          rw [hposition, hafter]
          refine ⟨q, l, k', hq, ?_, rfl, hheard, hk', hnext⟩
          rw [← Option.some.inj hl, events, hq]
          rfl
      · cases hl
  | build | nameRelay | forgetRelay | register | unregister | remove | forgetHandle | publish
  | beginShutdown | giveUp | make | pass => cases hl

theorem heard_play (hw : w.Reachable) {ms : List Move} (hms : w.Permits ms)
    (hq : (w.play ms).relay? r = some q) {named : Bool}
    (hn : ∀ o, (w.play ms).observer? r i = some o → o.isNamed = named) : (w.play ms).heard r i =
      w.heard r i ++ q.bus.retell named (w.position r i) (w.looks r i ms) := by
  induction ms generalizing w with
  | nil => exact (List.append_nil _).symm
  | cons m ms ih =>
    obtain ⟨hm, hms⟩ := hms
    have hnext : (w.move m).Reachable := hw.tail m hm
    have hrest := ih hnext hms hq hn
    have hrun : Run w (w.play (m :: ms)) := (Run.single m hm).trans (run_play hms)
    rw [play, hrest, looks, looks]
    cases hl : w.look? r i m with
    | none =>
      obtain ⟨hheard, hposition⟩ := told_nothing hm hl
      rw [gather_cons_none ms hl, hheard, hposition]
    | some n =>
      obtain ⟨p, l, k, hp, rfl, hlis, hheard, hk, hend⟩ := told_found hw hm hl
      have hnamed : l.observer.isNamed = named := by
        obtain ⟨ps, hwalked⟩ := walked_of_reachable hw
        obtain ⟨qs, hwalk⟩ := walk_run hrun ps
        have ho : w.observer? r i = some l.observer := by rw [observer?, hlis]; rfl
        exact hn _ (hwalk.observer? ho)
      rw [gather_cons_some ms hl, hheard, hnamed, List.append_assoc, Bus.retell,
        Run.before hw hrun hp hq]
      rcases hend with hgone | hposition
      · have hnone : (w.move m).gather (look? · r i) ms = [] := looks_of_gone hms hk hgone
        rw [hnone, Bus.retell, Bus.retell]
      · rw [hposition]

end World
end Fanout
