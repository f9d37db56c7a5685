import Fanout.Proofs.Receivers
import Fanout.Proofs.Replay

/-! # Numbers follow the order of the bus

Events are numbered by one counter, whoever makes them, and each of them is on its bus before the
next one is made. So all events there ever were form one ledger in the order of their numbers, and a
bus, like the events that the host made for itself, is what the ledger has for its place.
-/
namespace Fanout

/-- Where an event is put: on the bus of a relay, or with the host that made it. -/
inductive Place where
  | bus (r : Nat)
  | host
deriving DecidableEq

def Event.number (e : Event) : UInt64 := UInt64.ofNat e.seq

def Note.made? : Note → Option Event
  | .made e => some e
  | _ => none

/-- Events one after the other, each with its place. -/
abbrev Ledger := List (Place × Event)

namespace Ledger

def column (l : Ledger) (p : Place) : List Event := (l.filter (·.1 = p)).map Prod.snd

/-- The numbers of the events rise, from one value of the counter to another. -/
structure Spans (l : Ledger) (m n : Nat) : Prop where
  le : m ≤ n
  rising : l.Pairwise (·.2.seq < ·.2.seq)
  within : ∀ x ∈ l, m ≤ x.2.seq ∧ x.2.seq < n

variable {l : Ledger} {m n k : Nat} {p q : Place} {e f : Event}

theorem column_append (l l' : Ledger) (p : Place) :
    column (l ++ l') p = l.column p ++ column l' p := by
  simp [column]

theorem mem_column : e ∈ l.column p ↔ (p, e) ∈ l := by
  simp [column]

theorem Spans.nil (h : m ≤ n) : Spans [] m n := ⟨h, .nil, by simp⟩

theorem Spans.single (p : Place) (he : e.seq = n) : Spans [(p, e)] n (n + 1) := by
  refine ⟨Nat.le_succ n, List.pairwise_singleton .., fun x hx => ?_⟩
  obtain rfl := List.mem_singleton.mp hx
  simp [he]

theorem Spans.append {l l' : Ledger} (h : l.Spans m n) (h' : l'.Spans n k) :
    Spans (l ++ l') m k := by
  refine ⟨Nat.le_trans h.le h'.le, ?_, fun x hx => ?_⟩
  · refine List.pairwise_append.mpr ⟨h.rising, h'.rising, fun x hx y hy => ?_⟩
    exact Nat.lt_of_lt_of_le (h.within x hx).2 (h'.within y hy).1
  · have hle := h.le
    have hle' := h'.le
    rcases List.mem_append.mp hx with hx | hx
    · have hbounds := h.within x hx
      omega
    · have hbounds := h'.within x hx
      omega

theorem Spans.column (h : l.Spans m n) (p : Place) : (l.column p).Pairwise (·.seq < ·.seq) :=
  (h.rising.filter _).map _ fun _ _ hlt => hlt

/-- No number is given twice. -/
theorem Spans.unique (h : l.Spans m n) {i j : Nat} (he : (l.column p)[i]? = some e)
    (hf : (l.column q)[j]? = some f) (hef : e.seq = f.seq) : p = q ∧ i = j := by
  have hnodup : (l.map (·.2.seq)).Nodup :=
    List.pairwise_map.mpr (h.rising.imp Nat.ne_of_lt)
  have hpair : (p, e) = (q, f) := List.inj_on_of_nodup_map hnodup
    (mem_column.mp (List.mem_of_getElem? he)) (mem_column.mp (List.mem_of_getElem? hf)) hef
  obtain ⟨rfl, rfl⟩ := Prod.mk.inj hpair
  refine ⟨rfl, ?_⟩
  have honce : (l.column p).Nodup := (h.column p).imp fun hlt he => by simp [he] at hlt
  have hi : i < (l.column p).length := (List.getElem?_eq_some_iff.mp he).1
  exact (List.getElem?_inj hi honce).mp (he.trans hf.symm)

end Ledger

namespace World

variable {u v w : World}

def made (w : World) : List Event := w.journal.toList.filterMap Note.made?

def kept (w : World) : Place → List Event
  | .bus r => w.events r
  | .host => w.made

/-- What is put anywhere from one world to another takes the numbers between them, in order. -/
def Issues (w v : World) : Prop :=
  ∃ l : Ledger, l.Spans w.nextSeq v.nextSeq ∧ ∀ p, v.kept p = w.kept p ++ l.column p

namespace Issues

theorem of_kept (hk : ∀ p, v.kept p = w.kept p) (hn : w.nextSeq ≤ v.nextSeq) : w.Issues v :=
  ⟨[], .nil hn, fun p => (hk p).trans (List.append_nil _).symm⟩

theorem refl (w : World) : w.Issues w := of_kept (fun _ => rfl) (Nat.le_refl _)

theorem trans (hu : u.Issues v) (hv : v.Issues w) : u.Issues w := by
  obtain ⟨l, hl, hkl⟩ := hu
  obtain ⟨l', hl', hkl'⟩ := hv
  refine ⟨l ++ l', hl.append hl', fun p => ?_⟩
  rw [hkl', hkl, Ledger.column_append, List.append_assoc]

theorem of_same (hr : v.relays = w.relays) (hj : v.journal = w.journal)
    (hn : v.nextSeq = w.nextSeq) : w.Issues v := by
  refine of_kept (fun p => ?_) (Nat.le_of_eq hn.symm)
  cases p with
  | bus r => exact events_of_relays hr r
  | host => rw [kept, made, hj, kept, made]

end Issues

theorem issues_note (w : World) {n : Note} (hn : n.made? = none) : w.Issues (w.note n) := by
  refine .of_kept (fun p => ?_) (Nat.le_refl _)
  cases p with
  | bus r => rfl
  | host => simp [kept, made, note, hn]

theorem events_modifyRelay_of_bus (w : World) (r n : Nat) {f : Relay → Relay}
    (hf : ∀ q, (f q).bus = q.bus) : (w.modifyRelay r f).events n = w.events n := by
  rw [events, relay?_modifyRelay, events]
  split
  · cases w.relay? n with
    | none => rfl
    | some q => simp [hf]
  · rfl

theorem issues_modifyRelay (w : World) (r : Nat) {f : Relay → Relay}
    (hf : ∀ q, (f q).bus = q.bus) : w.Issues (w.modifyRelay r f) := by
  refine .of_kept (fun p => ?_) (Nat.le_refl _)
  cases p with
  | bus n => exact events_modifyRelay_of_bus w r n hf
  | host => rfl

theorem issues_emit (w : World) (r : Nat) (d : Event.Draft) : w.Issues (w.emit r d) := by
  cases hq : w.relay? r with
  | none =>
    -- Without a relay the number is used up all the same.
    refine .of_kept (fun p => ?_) (Nat.le_succ _)
    cases p with
    | bus n =>
      rw [kept, events, relay?_emit, kept, events]
      split
      · rename_i hn
        rw [← hn, hq]
        rfl
      · rfl
    | host => rfl
  | some q =>
    refine ⟨[(.bus r, d.stamp w.nextSeq w.now)], .single _ (Event.Draft.seq_stamp ..), fun p => ?_⟩
    cases p with
    | bus n =>
      rw [kept, events, relay?_emit, kept, events]
      by_cases hn : r = n
      · subst hn
        simp [hq, Bus.push, Ledger.column]
      · simp [hn, Ledger.column]
    | host => simp [kept, made, emit, modifyRelay, Ledger.column]

theorem issues_make (w : World) (d : Event.Draft) : w.Issues (w.make d).1 := by
  refine ⟨[(.host, d.stamp w.nextSeq w.now)], .single _ (Event.Draft.seq_stamp ..), fun p => ?_⟩
  cases p with
  | bus n =>
    rw [Ledger.column]
    simp
    rfl
  | host => simp [kept, made, make, note, Note.made?, Ledger.column]

theorem Issues.records : ContainsRecords Issues where
  trans := .trans
  same hr hj _ hn := .of_same hr hj hn
  relay w r _ hf := issues_modifyRelay w r fun q => (hf q).1
  trace w _ := issues_note w rfl
  accepted w _ _ := issues_note w rfl
  row w _ _ _ := issues_note w rfl
  emit := issues_emit
  anyRow w _ _ := issues_note w rfl
  concluded w _ _ := issues_note w rfl

theorem Issues.deliveries (id : SubscriberId) : ContainsDeliveries id Issues :=
  Issues.records.deliveries id

theorem issues_flush (w : World) (c r : Nat) (d : Event.Draft) (result : Option RelayError) :
    w.Issues (w.flush c r d result) := by
  have hreport : w.Issues (w.emit r d) := issues_emit ..
  have horder : (w.emit r d).Issues
      ((w.emit r d).modifyRelay r fun q => { q with stopping := true }) :=
    issues_modifyRelay _ r fun _ => rfl
  have hphase := Issues.records.modifyCall
    ((w.emit r d).modifyRelay r fun q => { q with stopping := true }) c
    fun k => { k with phase := .flushing result }
  exact (hreport.trans horder).trans hphase

theorem issues_stepCall (w : World) (c : Nat) : w.Issues (w.stepCall c) := by
  have hstep := w.callStep c
  generalize w.stepCall c = v at hstep
  cases hstep with
  | stays => exact .refl w
  | drained | stopped => exact issues_flush ..
  | expired | returns => exact .of_same rfl rfl rfl

theorem issues_build (w : World) (name : String) (config : Config) (observers : List Observer) :
    w.Issues (w.build name config observers).1 := by
  refine .of_kept (fun p => ?_) ?_
  · cases p with
    | bus r => exact events_build ..
    | host => rw [kept, made, journal_build, kept, made]
  · rw [build]
    split <;> exact Nat.le_refl _

theorem Issues.calls : ContainsCalls Issues := Issues.records.calls issues_stepCall

theorem Issues.listening (r i : Nat) : ContainsListening r i Issues where
  refl := .refl
  trans := .trans
  listener w _ := issues_modifyRelay w r fun _ => rfl
  observed w _ := issues_note w rfl
  missed w _ := issues_note w rfl
  panicked w _ := issues_note w rfl

theorem issues_move (w : World) (m : Move) : w.Issues (w.move m) := by
  cases m with
  | build name config observers => exact issues_build ..
  | nameRelay | forgetRelay | forgetHandle | pass => exact .of_same rfl rfl rfl
  | register r name sink => exact Issues.calls.registerNamed ..
  | unregister r id => exact Issues.records.unregister ..
  | remove h => exact Issues.calls.remove ..
  | publish r m => exact Issues.records.publish ..
  | beginShutdown r => exact Issues.calls.beginShutdown ..
  | giveUp c => exact Issues.records.giveUp ..
  | make d => exact issues_make ..
  | step t =>
    cases t with
    | call c => exact issues_stepCall ..
    | listener r i => exact (Issues.listening r i).stepListener _
    | worker id => exact (Issues.deliveries id).stepWorker Issues.calls w

theorem Run.issues (h : Run w v) : w.Issues v := by
  induction h with
  | refl => exact .refl w
  | tail m _ _ ih => exact ih.trans (issues_move _ m)

/-- All events of a run form one ledger. -/
theorem Reachable.ledger (hw : w.Reachable) :
    ∃ l : Ledger, l.Spans 0 w.nextSeq ∧ ∀ p, w.kept p = l.column p := by
  obtain ⟨l, hl, hk⟩ := Run.issues hw
  refine ⟨l, hl, fun p => (hk p).trans ?_⟩
  cases p <;> rfl

end World

/-- On every bus the numbers rise, up to the counter. -/
def World.Rising (w : World) : Prop :=
  ∀ r, (w.events r).Pairwise (·.seq < ·.seq) ∧ ∀ e ∈ w.events r, e.seq < w.nextSeq

theorem World.Issues.rising {w v : World} (h : w.Issues v) (hw : w.Rising) : v.Rising := by
  obtain ⟨l, hl, hk⟩ := h
  intro r
  obtain ⟨hrising, hbelow⟩ := hw r
  have he : v.events r = w.events r ++ l.column (.bus r) := hk (.bus r)
  rw [he]
  refine ⟨List.pairwise_append.mpr ⟨hrising, hl.column _, fun e he f hf => ?_⟩, fun e he => ?_⟩
  · exact Nat.lt_of_lt_of_le (hbelow e he) (hl.within _ (Ledger.mem_column.mp hf)).1
  · rcases List.mem_append.mp he with he | he
    · exact Nat.lt_of_lt_of_le (hbelow e he) hl.le
    · exact (hl.within _ (Ledger.mem_column.mp he)).2

theorem World.SameCore.rising {w v : World} (h : w.SameCore v) (hw : w.Rising) : v.Rising := by
  intro r
  rw [h.events r]
  exact ⟨(hw r).1, fun e he => Nat.lt_of_lt_of_le ((hw r).2 e he) h.count⟩

variable {a b : Moment} {r i : Nat}

theorem Transition.rising (h : Transition a b) (ha : a.world.Rising) : b.world.Rising := by
  cases h with
  | sameCore hv => exact hv.rising ha
  | build => exact (World.issues_build ..).rising ha
  | register => exact (World.Issues.records.register ..).rising ha
  | unregister => exact (World.Issues.records.unregister ..).rising ha
  | publish => exact (World.Issues.records.publish ..).rising ha
  | shutdown => exact (World.Issues.records.openCall ..).rising ha
  | call => exact (World.issues_stepCall ..).rising ha
  | giveUp => exact (World.Issues.records.giveUp ..).rising ha
  | begin => exact ((World.Issues.deliveries _).take ..).rising ha
  | @crash id _ m queue =>
    have htake := ((World.Issues.deliveries id).take a.world m queue).rising ha
    exact ((World.Issues.deliveries id).crash _).rising htake
  | poll | back => exact ha
  | row => exact (World.Issues.records.anyRow ..).rising ha
  | conclude => exact ((World.Issues.deliveries _).conclude ..).rising ha
  | abort => exact ((World.Issues.deliveries _).abort ..).rising ha
  | stop => exact ((World.Issues.deliveries _).stopWorker ..).rising ha

theorem Moment.Reached.rising (ha : a.Reached) : a.world.Rising := by
  induction ha with
  | refl =>
    intro r
    have hnone : World.events {} r = [] := rfl
    simp [hnone]
  | tail _ hb ih => exact hb.rising ih

namespace Event

variable {e f : Event}

theorem toNat_number (he : e.seq < UInt64.size) : e.number.toNat = e.seq :=
  UInt64.toNat_ofNat_of_lt he

theorem number_lt (hef : e.seq < f.seq) (hf : f.seq < UInt64.size) : e.number < f.number := by
  rw [UInt64.lt_iff_toNat_lt, toNat_number hf, toNat_number (Nat.lt_trans hef hf)]
  exact hef

theorem seq_eq_of_number (he : e.seq < UInt64.size) (hf : f.seq < UInt64.size)
    (hef : e.number = f.number) : e.seq = f.seq := by
  rw [← toNat_number he, ← toNat_number hf, hef]

end Event

theorem World.Rising.numbers {w : World} (hw : w.Rising) (hfew : w.nextSeq < UInt64.size)
    (r : Nat) : (w.events r).Pairwise (·.number < ·.number) := by
  obtain ⟨hrising, hbelow⟩ := hw r
  refine hrising.imp_of_mem fun {e f} _ hf hlt => ?_
  exact Event.number_lt hlt (Nat.lt_trans (hbelow f hf) hfew)

/-- What a reader has been told of events is in the order of the bus. -/
theorem Broadcast.Reader.Follows.sublist {b : Bus} {closed : Bool} {x : Broadcast.Reader}
    (h : x.Follows b closed) : (x.told.filterMap Bus.Mark.event?).Sublist b.events.toList := by
  obtain ⟨ms, k, htold, htiles, -⟩ := h.told
  have hclosed : (List.replicate k Bus.Mark.closed).filterMap Bus.Mark.event? = [] := by
    rw [List.filterMap_replicate_of_none rfl]
  rw [htold, List.filterMap_append, hclosed, List.append_nil]
  exact htiles.sublist.trans ((List.take_sublist ..).trans (List.drop_sublist ..))

theorem World.Reachable.sublist_heard {w : World} (hw : w.Reachable) (r i : Nat) :
    ((w.heard r i).filterMap Bus.Mark.event?).Sublist (w.events r) := by
  cases hl : w.listener? r i with
  | none =>
    obtain ⟨ps, hwalked⟩ := World.walked_of_reachable hw
    have hnone : w.heard r i = [] := (hwalked.unheard hl).1
    rw [hnone]
    exact List.nil_sublist _
  | some l => exact (hw.follows hl).told.sublist.trans (List.take_sublist ..)

theorem WithReceivers.Reached.sublist_told {h : WithReceivers} (hh : h.Reached r)
    {x : Broadcast.Reader} (hx : x ∈ h.receivers) :
    (x.told.filterMap Bus.Mark.event?).Sublist (h.moment.world.events r) := by
  cases hq : h.moment.world.relay? r with
  | none =>
    rw [hh.empty hq] at hx
    cases hx
  | some q =>
    have hbus : h.moment.world.events r = q.bus.events.toList := by simp [World.events, hq]
    rw [hbus]
    exact ((hh.withReaders hq).follows x hx).sublist

/-- Nothing that is attached to an event changes its number. In a run of any number of relays, in
which fewer events have been made than 64 bits can number, no two of them have the same number,
wherever they are; and on every bus the numbers rise. So they do in what each observer and each
receiver is told, with gaps where it has missed some. -/
theorem numbers_follow_bus_order :
    (∀ (e : Event) (ds : List Event.Detail), (ds.foldl Event.attach e).number = e.number) ∧
    (∀ w : World, w.Reachable → w.nextSeq < UInt64.size →
      (∀ (p q : Place) (i j : Nat) (e f : Event), (w.kept p)[i]? = some e →
        (w.kept q)[j]? = some f → e.number = f.number → p = q ∧ i = j) ∧
      (∀ r, (w.kept (.bus r)).Pairwise (·.number < ·.number)) ∧
      ∀ r i, ((w.heard r i).filterMap Bus.Mark.event?).Pairwise (·.number < ·.number)) ∧
    ∀ (r : Nat) (h : WithReceivers), h.Reached r → h.moment.world.nextSeq < UInt64.size →
      ∀ x ∈ h.receivers,
        (x.told.filterMap Bus.Mark.event?).Pairwise (·.number < ·.number) := by
  refine ⟨fun e ds => ?_, fun w hw hfew => ?_, fun r h hh hfew x hx => ?_⟩
  · rw [Event.number, Event.seq_attachAll, Event.number]
  · obtain ⟨ps, hwalked⟩ := World.walked_of_reachable hw
    have hrising : w.Rising := hwalked.reached.rising
    refine ⟨?_, hrising.numbers hfew, fun r i => ?_⟩
    · intro p q i j e f he hf hef
      obtain ⟨l, hl, hkept⟩ := hw.ledger
      rw [hkept] at he hf
      -- No number has wrapped around, so equal words are equal places in the ledger.
      have hbelow : ∀ {p : Place} {i : Nat} {e : Event}, (l.column p)[i]? = some e →
          e.seq < UInt64.size := by
        intro p i e he
        have hmem := Ledger.mem_column.mp (List.mem_of_getElem? he)
        exact Nat.lt_trans (hl.within _ hmem).2 hfew
      exact hl.unique he hf (Event.seq_eq_of_number (hbelow he) (hbelow hf) hef)
    · exact (hrising.numbers hfew r).sublist (hw.sublist_heard r i)
  · exact (hh.walked.reached.rising.numbers hfew r).sublist (hh.sublist_told hx)

/-- Two relays and the host make events in turn. -/
def World.mixed : World :=
  ({} : World).play [.build "left" {} [], .build "right" {} [], .publish 0 .empty,
    .make ⟨.messagePublished, []⟩, .publish 1 .empty, .publish 0 .empty]

theorem World.reachable_mixed : World.mixed.Reachable :=
  World.run_play ⟨trivial, trivial, ⟨"left", rfl⟩, trivial, ⟨"right", rfl⟩, ⟨"left", rfl⟩, trivial⟩

def WithReceivers.latecomer (b : Bus) : WithReceivers :=
  { WithReceivers.late with receivers := [(Broadcast.Reader.ask · b false)^[3] (.at 0)] }

theorem WithReceivers.reached_latecomer {q : Relay}
    (hq : WithReceivers.late.moment.world.relay? 0 = some q) :
    (WithReceivers.latecomer q.bus).Reached 0 := by
  have hopen : WithReceivers.late.moment.world.busClosed 0 = false := rfl
  have hasked : ∀ k, Reached 0
      { WithReceivers.late with receivers :=
        [(Broadcast.Reader.ask · q.bus false)^[k] (.at 0)] } := by
    intro k
    induction k with
    | zero => exact WithReceivers.reached_late
    | succ k ih =>
      rw [Function.iterate_succ_apply', ← hopen]
      rw [← hopen] at ih
      exact Relation.ReflTransGen.tail ih (.receive (i := 0) hq rfl)
  exact hasked 3

/-- The events of two relays and of the host, and what is told to a receiver that comes late. -/
theorem numbers_follow_bus_order_mixed :
    ((World.mixed.kept (.bus 0)).map Event.number = [0, 3] ∧
      (World.mixed.kept (.bus 1)).map Event.number = [2] ∧
      (World.mixed.kept .host).map Event.number = [1] ∧
      ∀ r, (World.mixed.kept (.bus r)).Pairwise (·.number < ·.number)) ∧
    ∃ q, WithReceivers.late.moment.world.relay? 0 = some q ∧
      ∀ x ∈ (WithReceivers.latecomer q.bus).receivers,
      (x.told.filterMap Bus.Mark.event?).map Event.number = [1, 2] ∧
        (x.told.filterMap Bus.Mark.event?).Pairwise (·.number < ·.number) := by
  obtain ⟨-, hworlds, hreceivers⟩ := numbers_follow_bus_order
  obtain ⟨-, hrising, -⟩ := hworlds World.mixed World.reachable_mixed (by decide)
  refine ⟨⟨rfl, rfl, rfl, hrising⟩, ?_⟩
  obtain ⟨q, hq, htold⟩ : ∃ q, WithReceivers.late.moment.world.relay? 0 = some q ∧
      ∀ x ∈ (WithReceivers.latecomer q.bus).receivers,
        (x.told.filterMap Bus.Mark.event?).map Event.number = [1, 2] :=
    ⟨_, rfl, List.forall_mem_singleton.mpr rfl⟩
  have hfew : WithReceivers.late.moment.world.nextSeq < UInt64.size := by decide
  exact ⟨q, hq, fun x hx =>
    ⟨htold x hx, hreceivers 0 _ (WithReceivers.reached_latecomer hq) hfew x hx⟩⟩

end Fanout
