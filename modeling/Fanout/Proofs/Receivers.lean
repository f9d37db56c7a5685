import Fanout.Console
import Fanout.Proofs.Listeners
import Fanout.Proofs.Readers

/-! # Receivers

A host makes receivers of a relay at any time and reads them as it likes. Whatever the relay does
meanwhile, its bus with these receivers is a ring with readers: each report of the relay is one
event that comes on the bus, and the bus is closed when the relay and all its workers are gone.
-/
namespace Fanout

variable {a b : Moment} {w : World} {r : Nat} {p q : Relay}

theorem World.busClosed_iff_gone : w.busClosed r = true ↔
    w.relayExists r = false ∧ ∀ id s, w.subscriber? id = some s → s.relay = r → s.live = false :=
  busClosed_iff.trans (and_congr_right fun _ => liveWorkers_eq_zero_iff)

theorem WalkStep.relay_cases (h : WalkStep a b) (hq : b.world.relay? r = some q) :
    (∃ p, a.world.relay? r = some p) ∨
      a.world.relay? r = none ∧ q.bus = .ofCapacity q.config.busCapacity := by
  cases h with
  | transition _ hw =>
    have hlistening := hw.listening r
    rw [hq, Option.map_some] at hlistening
    obtain ⟨p, hp, -⟩ := Option.map_eq_some_iff.mp hlistening.symm
    exact .inl ⟨p, hp⟩
  | build name config observers =>
    rcases a.world.relay?_build name config observers r with he | ⟨hn, he⟩
    · exact .inl ⟨q, he.symm.trans hq⟩
    · obtain rfl := Option.some.inj (he.symm.trans hq)
      exact .inr ⟨hn, rfl⟩
  | listen n j =>
    have hcore := (World.sameCore_stepListener a.world n j).relays r
    rw [hq, Option.map_some] at hcore
    obtain ⟨p, hp, -⟩ := Option.map_eq_some_iff.mp hcore.symm
    exact .inl ⟨p, hp⟩
  | pass time => exact .inl ⟨q, hq⟩

theorem WalkStep.config (h : WalkStep a b) (ha : a.Walked) (hp : a.world.relay? r = some p)
    (hq : b.world.relay? r = some q) : q.config = p.config := by
  obtain ⟨k, hk, hconfig⟩ := (h.transition_of.relayChange ha.reached.sound).config hp
  obtain rfl := Option.mem_unique hk hq
  exact hconfig

theorem WalkStep.bus (h : WalkStep a b) (hp : a.world.relay? r = some p)
    (hq : b.world.relay? r = some q) : ∃ es,
    b.world.events r = a.world.events r ++ es ∧
      q.bus = { p.bus with events := p.bus.events ++ es.toArray } := by
  obtain ⟨es, hes⟩ := h.events r
  have hslots := h.slots (World.lt_size_of_relay? hp)
  have hevents : q.bus.events.toList = p.bus.events.toList ++ es := by
    simpa [World.events, hp, hq] using hes.symm
  have hsame : q.bus.slots = p.bus.slots := by simpa [World.slots, hp, hq] using hslots
  refine ⟨es, hes.symm, ?_⟩
  cases hb : q.bus with
  | mk slots events =>
    rw [hb] at hevents hsame
    have happend : events = p.bus.events ++ es.toArray := by
      rw [← Array.toList_inj, hevents, Array.toList_append]
    rw [Bus.mk.injEq]
    exact ⟨hsame, happend⟩

/-- What a relay does is a run of its bus, whoever reads it. -/
theorem WalkStep.run (h : WalkStep a b) (ha : a.Walked) (hp : a.world.relay? r = some p)
    (hq : b.world.relay? r = some q) (xs : List Broadcast.Reader) :
    Broadcast.WithReaders.Run ⟨p.bus, a.world.busClosed r, xs⟩
      ⟨q.bus, b.world.busClosed r, xs⟩ := by
  have hsound := ha.reached.sound
  obtain ⟨es, hes, hbus⟩ := h.bus hp hq
  cases hc : a.world.busClosed r with
  | true =>
    have hmute := h.transition_of.mute hsound hc
    have hnil : es = [] := by simpa [hes] using hmute
    have hsame : q.bus = p.bus := by simp [hbus, hnil]
    rw [h.transition_of.busClosed hsound (World.lt_size_of_relay? hp) hc, hsame]
  | false =>
    have hrun := Broadcast.WithReaders.run_publish p.bus xs es
    have hsent : es.foldl Broadcast.send p.bus = q.bus := (p.bus.foldl_push es).trans hbus.symm
    rw [hsent] at hrun
    cases b.world.busClosed r with
    | false => exact hrun
    | true => exact hrun.tail .close

/-- A moment, and all receivers of one relay that were made before it. -/
structure WithReceivers where
  moment : Moment
  receivers : List Broadcast.Reader := []

namespace WithReceivers

inductive Step (r : Nat) : WithReceivers → WithReceivers → Prop where
  | walkStep {a b : Moment} {xs : List Broadcast.Reader} : WalkStep a b → Step r ⟨a, xs⟩ ⟨b, xs⟩
  | events {a : Moment} {xs : List Broadcast.Reader} : a.world.relayExists r = true →
    Step r ⟨a, xs⟩ ⟨a, xs ++ [.at (Console.receiverAt a.world r).next]⟩
  | receive {a : Moment} {xs : List Broadcast.Reader} {q : Relay} {i : Nat} {x : Broadcast.Reader} :
    a.world.relay? r = some q → xs[i]? = some x →
    Step r ⟨a, xs⟩ ⟨a, xs.set i (x.ask q.bus (a.world.busClosed r))⟩

/-- The moments of all runs from the empty world on, with the receivers made by then. -/
def Reached (r : Nat) (h : WithReceivers) : Prop :=
  Relation.ReflTransGen (Step r) ⟨⟨{}, none, []⟩, []⟩ h

variable {h : WithReceivers}

theorem Reached.walked (hh : h.Reached r) : h.moment.Walked := by
  induction hh with
  | refl => exact .refl
  | tail _ hs ih =>
    cases hs with
    | walkStep hp => exact ih.tail hp
    | events | receive => exact ih

theorem Reached.empty (hh : h.Reached r) (hq : h.moment.world.relay? r = none) :
    h.receivers = [] := by
  induction hh with
  | refl => rfl
  | @tail c d hc hs ih =>
    have hsound := (Reached.walked hc).reached.sound
    cases hs with
    | @walkStep a b xs hp =>
      have hnone : a.world.relay? r = none := by
        rw [World.relay?, Array.getElem?_eq_none_iff] at hq ⊢
        exact Nat.le_trans (hp.transition_of.relayChange hsound).relays_le hq
      exact ih hnone
    | events he => cases hq.symm.trans (World.relay?_of_lt_size (hsound.named r he))
    | receive hp => cases hq.symm.trans hp

/-- The bus of a relay with its receivers is a ring with readers. -/
theorem Reached.withReaders (hh : h.Reached r) (hq : h.moment.world.relay? r = some q) :
    (⟨q.bus, h.moment.world.busClosed r, h.receivers⟩ : Broadcast.WithReaders Bus).Reached
      q.config.busCapacity := by
  induction hh generalizing q with
  | refl => cases hq
  | @tail c d hc hs ih =>
    cases hs with
    | @walkStep a b xs hp =>
      rcases hp.relay_cases hq with ⟨p, hpr⟩ | ⟨hnone, hnew⟩
      · rw [hp.config (Reached.walked hc) hpr hq]
        exact (ih hpr).trans (hp.run (Reached.walked hc) hpr hq xs)
      · have hempty : xs = [] := Reached.empty hc hnone
        rw [hempty, hnew]
        cases b.world.busClosed r with
        | false => exact .refl
        | true => exact .single .close
    | @events a xs he =>
      have hnext : (Console.receiverAt a.world r).next = q.bus.size := by
        simp [Console.receiverAt, hq]
      rw [hnext]
      exact (ih hq).tail .subscribe
    | receive hp hx =>
      obtain rfl := Option.mem_unique hp hq
      exact (ih hq).tail (.receive hx)

end WithReceivers

theorem World.receive_eq (w : World) (x : Receiver) (hq : w.relay? x.relay = some q)
    (start : Nat) (told : List Bus.Mark) :
    (Broadcast.Reader.ask · q.bus (w.busClosed x.relay))^[(w.receive x).1.length]
      ⟨start, x.next, told⟩ =
      ⟨start, (w.receive x).2.next, told ++ (w.receive x).1⟩ ∧
    q.bus.unread (w.receive x).2.next = 0 := by
  have hasks := Bus.asks_drain q.bus (w.busClosed x.relay) start (q.bus.size - x.next + 1) x.next
    told
  have hunread : q.bus.unread (q.bus.drain x.next (q.bus.size - x.next + 1)).2 = 0 :=
    q.bus.unread_drain _ x.next (Nat.lt_succ_self _)
  simp only [receive, hq]
  generalize q.bus.drain x.next (q.bus.size - x.next + 1) = found at hasks hunread ⊢
  by_cases hend : (w.busClosed x.relay && !x.finished) = true
  · have hclosed : w.busClosed x.relay = true := (Bool.and_eq_true_iff.mp hend).1
    have hlast : (Broadcast.Reader.mk start found.2 (told ++ found.1)).ask q.bus true =
        ⟨start, found.2, told ++ found.1 ++ [.closed]⟩ := by
      rw [Broadcast.Reader.ask, Broadcast.ask_of_none (b := q.bus) hunread]
      rfl
    rw [if_pos hend, List.length_append, List.length_singleton, Function.iterate_succ_apply',
      hasks, hclosed, hlast, List.append_assoc]
    exact ⟨rfl, hunread⟩
  · rw [if_neg hend]
    exact ⟨hasks, hunread⟩

/-- Receivers lose nothing silently. Whatever is published on a bus and asked by its readers, one
after the other in any order, a reader is told of the oldest event that it has not read, or, if the
ring has lost that, of how many are gone; only when nothing is left, of the end. Of the bus this
takes no more than the ring. So all that a reader has been told tiles what came on the bus since it
was made. Other readers make no difference. And the bus of a relay with all receivers made of it is
such a ring with readers, whatever is done with the relay. -/
theorem receivers_lose_nothing :
    (∀ (n : Nat) (A : Broadcast.WithReaders Bus), A.Reached n → ∀ i x, A.readers[i]? = some x →
      ∃ C, IsLeast {m | m.isPowerOfTwo ∧ max n 1 ≤ m} C ∧
        (0 < A.bus.unread x.next → A.bus.unread x.next ≤ C → ∃ e, A.bus.events[x.next]? = some e ∧
          Broadcast.ask A.bus A.closed x.next = (some (.event e), x.next + 1)) ∧
        (C < A.bus.unread x.next → Broadcast.ask A.bus A.closed x.next =
          (some (.lagged (A.bus.unread x.next - C)), A.bus.size - C)) ∧
        (A.bus.unread x.next = 0 →
          Broadcast.ask A.bus A.closed x.next =
            (if A.closed then some .closed else none, x.next)) ∧
        (∀ c : Bus, c.slots = C → c.size = A.bus.size →
          (∀ i, A.bus.size ≤ i + C → c.events[i]? = A.bus.events[i]?) →
          Broadcast.ask c A.closed x.next = Broadcast.ask A.bus A.closed x.next) ∧
        x.start ≤ x.next ∧ x.next ≤ A.bus.size ∧
        (∃ ms k, x.told = ms ++ List.replicate k .closed ∧
          Bus.Tiles ms ((A.bus.events.toList.drop x.start).take (x.next - x.start)) ∧
          (0 < k → A.closed = true ∧ x.next = A.bus.size)) ∧
        (A.only i).Reached n ∧ ∀ B, A.Run B → (A.only i).Run (B.only i)) ∧
    (∀ (r : Nat) (h : WithReceivers) (q : Relay), h.Reached r → h.moment.world.relay? r = some q →
      (⟨q.bus, h.moment.world.busClosed r, h.receivers⟩ : Broadcast.WithReaders Bus).Reached
        q.config.busCapacity ∧
      (h.moment.world.busClosed r = true ↔ h.moment.world.relayExists r = false ∧
        ∀ id s, h.moment.world.subscriber? id = some s → s.relay = r → s.live = false)) ∧
    ∀ (w : World) (x : Receiver) (q : Relay), w.relay? x.relay = some q → ∀ start told,
      (Broadcast.Reader.ask · q.bus (w.busClosed x.relay))^[(w.receive x).1.length]
          ⟨start, x.next, told⟩ =
        ⟨start, (w.receive x).2.next, told ++ (w.receive x).1⟩ ∧
      q.bus.unread (w.receive x).2.next = 0 := by
  refine ⟨fun n A hA i x hx => ?_, fun r h q hh hq => ⟨hh.withReaders hq, World.busClosed_iff_gone⟩,
    fun w x q hq => w.receive_eq x hq⟩
  obtain ⟨hstart, hle, htold⟩ := hA.follows x (List.mem_of_getElem? hx)
  refine ⟨A.bus.slots, hA.isLeast_slots, fun hpos hle => ?_,
    Broadcast.ask_of_lost (b := A.bus), Broadcast.ask_of_none (b := A.bus),
    fun c hslots hsize hkept => ?_, hstart, hle, htold, hA.only i,
    fun B hB => hB.only i⟩
  · simp only [← Array.getElem?_toList]
    exact Broadcast.ask_of_kept (b := A.bus) hpos hle A.closed
  · simp only [← Array.getElem?_toList] at hkept
    exact Broadcast.ask_eq_of_kept (b := A.bus) (c := c) hslots hsize hkept

/-- Five events come on a ring of four before a receiver asks. -/
def WithReceivers.late : WithReceivers where
  moment := (Moment.publish · 0 .empty)^[5]
    { world := (({} : World).build "relay" { busCapacity := 3 } []).1 }
  receivers := [.at 0]

theorem WithReceivers.reached_late : WithReceivers.late.Reached 0 := by
  let a : Moment := { world := (({} : World).build "relay" { busCapacity := 3 } []).1 }
  have hbuilt : Reached 0 ⟨a, []⟩ := .single (.walkStep (.build "relay" { busCapacity := 3 } []))
  have hmade : Reached 0 ⟨a, [.at 0]⟩ := Relation.ReflTransGen.tail hbuilt (.events rfl)
  have hpublished : ∀ k, Reached 0 ⟨(Moment.publish · 0 .empty)^[k] a, [.at 0]⟩ ∧
      ((Moment.publish · 0 .empty)^[k] a).world.relayNames = [("relay", 0)] := by
    intro k
    induction k with
    | zero => exact ⟨hmade, rfl⟩
    | succ k ih =>
      obtain ⟨hreached, hnames⟩ := ih
      rw [Function.iterate_succ_apply']
      have hexists := relayExists_of_name (hnames ▸ List.mem_singleton_self ("relay", 0))
      refine ⟨Relation.ReflTransGen.tail hreached
        (.walkStep (.transition (.publish 0 .empty hexists) ?_)),
        (World.relayNames_publish ..).trans hnames⟩
      exact World.SparesListeners.records.publish ..
  exact (hpublished 5).1

/-- It is told that one of them is lost, and then of the second. -/
theorem receivers_lose_nothing_late : ∃ q e, WithReceivers.late.moment.world.relay? 0 = some q ∧
    q.bus.events[1]? = some e ∧ Broadcast.ask q.bus false 0 = (some (.lagged 1), 1) ∧
    Broadcast.ask q.bus false 1 = (some (.event e), 2) := by
  obtain ⟨hreaders, hrelays, -⟩ := receivers_lose_nothing
  obtain ⟨q, hq⟩ : ∃ q, WithReceivers.late.moment.world.relay? 0 = some q := ⟨_, rfl⟩
  have hfacts : (WithReceivers.late.moment.world.relay? 0).map
      (fun q => (q.config.busCapacity, q.bus.size)) = some (3, 5) := rfl
  obtain ⟨hcap, hsize⟩ : q.config.busCapacity = 3 ∧ q.bus.size = 5 := by
    rw [hq] at hfacts
    simpa using hfacts
  have hopen : WithReceivers.late.moment.world.busClosed 0 = false := rfl
  have hbefore := (hrelays 0 WithReceivers.late q WithReceivers.reached_late hq).1
  rw [hcap, hopen] at hbefore
  have hfour : IsLeast {m | m.isPowerOfTwo ∧ max 3 1 ≤ m} 4 := Bus.isLeast_ringSize 3
  obtain ⟨C, hC, -, hlost, -⟩ := hreaders 3 _ hbefore 0 (.at 0) rfl
  obtain rfl := hC.unique hfour
  have hlag : Broadcast.ask q.bus false 0 = (some (.lagged 1), 1) := by
    simpa [Bus.unread, hsize, Broadcast.Reader.at] using hlost
  have hafter := hbefore.tail (.receive (i := 0) (x := .at 0) rfl)
  obtain ⟨C, hC, hkept, -⟩ := hreaders 3 _ hafter 0 _ rfl
  obtain rfl := hC.unique hfour
  obtain ⟨e, he, hask⟩ : ∃ e, q.bus.events[1]? = some e ∧
      Broadcast.ask q.bus false 1 = (some (.event e), 2) := by
    simpa [Bus.unread, hsize, Broadcast.Reader.at, Broadcast.Reader.ask, hlag] using hkept
  exact ⟨q, e, hq, he, hlag, hask⟩

end Fanout
