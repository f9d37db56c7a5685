import Fanout.Proofs.ClosedRelations
import Fanout.Proofs.Parts

/-! # What a subscriber sees

The view of a subscriber is all of a world that its own deliveries and the calls of the host can
make out: the relays with their active subscribers and the events that are about it, its own state,
and what the journal has of it. Other subscribers are in it by their numbers only, and neither the
clock nor the sequence numbers are. Here is what each change does to it.
-/
namespace Fanout

/-- An event without its number, which all reports of all relays share. -/
def Event.unnumbered (e : Event) : Event := { e with seq := 0 }

theorem Event.unnumbered_attach (e : Event) (d : Detail) :
    (e.attach d).unnumbered = e.unnumbered.attach d := by
  cases d <;> rfl

theorem Event.unnumbered_attachAll (e : Event) (ds : List Detail) :
    (ds.foldl attach e).unnumbered = ds.foldl attach e.unnumbered := by
  induction ds generalizing e with
  | nil => rfl
  | cons d ds ih => exact (ih _).trans (congrArg (ds.foldl attach) (unnumbered_attach e d))

theorem Event.unnumbered_stamp (d : Draft) (seq time : Nat) :
    (d.stamp seq time).unnumbered = d.stamp 0 time :=
  unnumbered_attachAll _ _

theorem Event.id_stamp (d : Draft) (seq time : Nat) :
    (d.stamp seq time).id = (d.stamp 0 time).id := by
  rw [← unnumbered_stamp d seq time]
  rfl

def Note.concerns (id : SubscriberId) : Note → Bool
  | .accepted i _ | .row i _ _ | .concluded i _ => i = id
  | .traced _ | .made _ | .observed .. | .missed .. | .observerPanicked .. => false

def Bus.mentions (b : Bus) (id : SubscriberId) : List Event :=
  (b.events.toList.filter (·.id = some id)).map Event.unnumbered

/-- A relay as a subscriber sees it. -/
structure Outline where
  config : Config
  closed : Bool
  active : List SubscriberId
  mentions : List Event

def Relay.outline (q : Relay) (id : SubscriberId) : Outline :=
  ⟨q.config, q.closed, q.active, q.bus.mentions id⟩

def Outline.hear (o : Outline) (id : SubscriberId) (e : Event) : Outline :=
  { o with mentions := o.mentions ++ [e].filter (·.id = some id) }

structure View where
  relays : Nat → Option Outline
  size : Nat
  names : List (String × Nat)
  count : Nat
  sub : Option Subscriber
  notesOf : List Note

def View.change (x : View) (r : Nat) (f : Outline → Outline) : View :=
  { x with relays := fun n => if r = n then (x.relays n).map f else x.relays n }

theorem View.change_id (x : View) (r : Nat) {f : Outline → Outline} (hf : ∀ o, f o = o) :
    x.change r f = x := by
  have hid : f = fun o => o := funext hf
  simp [View.change, hid]

namespace World

/-- What the journal has of a subscriber: the messages that came into its queue, and the rows
and conclusions of its deliveries with their times. -/
def notesOf (w : World) (id : SubscriberId) : List Note := w.journal.toList.filter (·.concerns id)

def mentions (w : World) (r : Nat) (id : SubscriberId) : List Event :=
  ((w.relay? r).map (·.bus.mentions id)).getD []

def view (w : World) (id : SubscriberId) : View where
  relays := fun r => (w.relay? r).map (·.outline id)
  size := w.relays.size
  names := w.relayNames
  count := w.subscribers.size
  sub := w.subscriber? id
  notesOf := w.notesOf id

variable {u v w : World} {id i : SubscriberId} {r : Nat}

/-- What depends on the outline of a relay alone is the same in worlds of one view. -/
theorem map_relay?_of_view (h : u.view id = v.view id) {α : Type} {f : Relay → α}
    {g : Outline → α} (hf : ∀ q, f q = g (q.outline id)) (r : Nat) :
    (u.relay? r).map f = (v.relay? r).map f := by
  have ho : (u.relay? r).map (·.outline id) = (v.relay? r).map (·.outline id) :=
    congrFun (congrArg View.relays h) r
  have hg : f = g ∘ (·.outline id) := funext hf
  rw [hg, ← Option.map_map, ← Option.map_map, ho]

theorem active_of_view (h : u.view id = v.view id) (r : Nat) : u.active r = v.active r :=
  congrArg (Option.getD · []) (map_relay?_of_view h (g := Outline.active) (fun _ => rfl) r)

theorem mentions_of_view (h : u.view id = v.view id) (r : Nat) :
    u.mentions r id = v.mentions r id :=
  congrArg (Option.getD · []) (map_relay?_of_view h (g := Outline.mentions) (fun _ => rfl) r)

theorem view_note (w : World) (n : Note) (id : SubscriberId) : (w.note n).view id =
    { w.view id with notesOf := w.notesOf id ++ [n].filter (·.concerns id) } := by
  simp [view, notesOf, note, relay?, subscriber?, List.filter_append]

theorem view_note_of_not {n : Note} (hn : n.concerns id = false) :
    (w.note n).view id = w.view id := by
  rw [view_note]
  simp [hn, view]

theorem view_trace (w : World) (t : Trace) (id : SubscriberId) :
    (w.trace t).view id = w.view id :=
  view_note_of_not rfl

theorem view_modifySubscriber (w : World) (i : SubscriberId) (f : Subscriber → Subscriber)
    (id : SubscriberId) : (w.modifySubscriber i f).view id = { w.view id with
      sub := if i = id then (w.subscriber? id).map f else w.subscriber? id } := by
  have hs := subscriber?_modifySubscriber w i id f
  simp only [view, hs]
  simp [modifySubscriber, relay?, notesOf]

theorem view_modifyRelay (w : World) (r : Nat) {f : Relay → Relay} {g : Outline → Outline}
    (hf : ∀ q, (f q).outline id = g (q.outline id)) :
    (w.modifyRelay r f).view id = (w.view id).change r g := by
  have hrel : ∀ n, ((w.modifyRelay r f).relay? n).map (·.outline id) =
      if r = n then ((w.relay? n).map (·.outline id)).map g
      else (w.relay? n).map (·.outline id) := by
    intro n
    rw [relay?_modifyRelay]
    split
    · cases w.relay? n <;> simp [hf]
    · rfl
  simp only [view, hrel]
  simp [View.change, modifyRelay, subscriber?, notesOf]

theorem view_modifyRelay_of_eq {f : Relay → Relay} (hf : ∀ q, (f q).outline id = q.outline id) :
    (w.modifyRelay r f).view id = w.view id :=
  (view_modifyRelay w r (g := fun o => o) hf).trans (View.change_id _ r fun _ => rfl)

theorem mentions_push (b : Bus) (d : Event.Draft) (seq time : Nat) (id : SubscriberId) :
    (b.push (d.stamp seq time)).mentions id =
      b.mentions id ++ [d.stamp 0 time].filter (·.id = some id) := by
  have hid := Event.id_stamp d seq time
  by_cases he : (d.stamp 0 time).id = some id
  · simp [Bus.mentions, Bus.push, List.filter_append, hid, he, Event.unnumbered_stamp]
  · simp [Bus.mentions, Bus.push, List.filter_append, hid, he]

theorem view_emit (w : World) (r : Nat) (d : Event.Draft) (id : SubscriberId) :
    (w.emit r d).view id = (w.view id).change r (·.hear id (d.stamp 0 w.now)) := by
  refine Eq.trans ?_ (view_modifyRelay w r
    (f := fun q => { q with bus := q.bus.push (d.stamp w.nextSeq w.now) }) fun q => ?_)
  · rfl
  · simp [Relay.outline, Outline.hear, mentions_push]

theorem view_emit_of_ne {d : Event.Draft} (hd : (d.stamp 0 w.now).id ≠ some id) :
    (w.emit r d).view id = w.view id := by
  rw [view_emit]
  exact View.change_id _ r fun o => by simp [Outline.hear, hd]

theorem view_push (w : World) (s : Subscriber) (id : SubscriberId) :
    ({ w with subscribers := w.subscribers.push s } : World).view id = { w.view id with
      count := w.subscribers.size + 1
      sub := if id.serial = w.subscribers.size then some s else w.subscriber? id } := by
  have hs := subscriber?_push w s id
  simp only [view, hs]
  simp [relay?, notesOf]

theorem view_pushRelay (w : World) (q : Relay) (id : SubscriberId) :
    ({ w with relays := w.relays.push q } : World).view id = { w.view id with
      relays := fun n => if n = w.relays.size then some (q.outline id) else (w.view id).relays n
      size := w.relays.size + 1 } := by
  have hrel : ∀ n, ((w.relays.push q)[n]?).map (·.outline id) =
      if n = w.relays.size then some (q.outline id) else (w.relays[n]?).map (·.outline id) := by
    intro n
    rw [Array.getElem?_push]
    split <;> rfl
  simp [view, relay?, hrel, subscriber?, notesOf]

theorem view_relayNames (w : World) (names : List (String × Nat)) (id : SubscriberId) :
    ({ w with relayNames := names } : World).view id = { w.view id with names := names } :=
  rfl

theorem view_calls (w : World) (calls : Array Call) (id : SubscriberId) :
    ({ w with calls := calls } : World).view id = w.view id :=
  rfl

theorem view_handles (w : World) (handles : List (String × Handle)) (id : SubscriberId) :
    ({ w with handles := handles } : World).view id = w.view id :=
  rfl

theorem view_row_of_ne (hi : i ≠ id) (x : Row) : (w.row i x).view id = w.view id :=
  view_note_of_not (by simp [Note.concerns, hi])

theorem view_concluded_of_ne (hi : i ≠ id) (how : Conclusion) :
    (w.note (.concluded i how)).view id = w.view id :=
  view_note_of_not (by simp [Note.concerns, hi])

theorem view_modifySubscriber_of_ne (hi : i ≠ id) (f : Subscriber → Subscriber) :
    (w.modifySubscriber i f).view id = w.view id := by
  rw [view_modifySubscriber, if_neg hi]
  rfl

theorem view_accept_of_ne (hi : i ≠ id) (m : Message) : (w.accept m i).view id = w.view id :=
  (view_note_of_not (by simp [Note.concerns, hi])).trans (view_modifySubscriber_of_ne hi _)

theorem view_reportDrop_of_ne {d : SubscriberId × SinkFault} (hd : d.1 ≠ id) :
    (reportDrop r w d).view id = w.view id := by
  refine (view_emit_of_ne ?_).trans (view_trace ..)
  rw [id_fault]
  simpa using hd

theorem containsDeliveries_view (hi : i ≠ id) :
    ContainsDeliveries i fun w v => v.view id = w.view id where
  refl _ := rfl
  trans hu hv := hv.trans hu
  subscriber _ f := view_modifySubscriber_of_ne hi f
  row _ x := view_row_of_ne hi x
  concluded _ how := view_concluded_of_ne hi how
  trace w t := view_trace w t id
  fault w r name f := by
    apply view_emit_of_ne
    rw [id_fault]
    simpa using hi
  dropCall w _ := view_calls w _ id

theorem view_modifyListener (w : World) (r i : Nat) (f : Listener → Listener)
    (id : SubscriberId) : (w.modifyListener r i f).view id = w.view id := by
  rw [modifyListener]
  exact view_modifyRelay_of_eq fun _ => rfl

theorem view_stepListener (w : World) (r i : Nat) (id : SubscriberId) :
    (w.stepListener r i).view id = w.view id := by
  have hlistening : ContainsListening r i fun w v => v.view id = w.view id :=
    { refl := fun _ => rfl
      trans := fun hu hv => hv.trans hu
      listener := fun w f => view_modifyListener w r i f id
      observed := fun w _ => view_note_of_not rfl
      missed := fun w _ => view_note_of_not rfl
      panicked := fun w _ => view_note_of_not rfl }
  exact hlistening.stepListener w

theorem view_setPhase (w : World) (c : Nat) (p : CallPhase) (id : SubscriberId) :
    (w.setPhase c p).view id = w.view id :=
  rfl

theorem view_flush (w : World) (c r : Nat) {d : Event.Draft} (hd : (d.stamp 0 w.now).id = none)
    (result : Option RelayError) (id : SubscriberId) :
    (w.flush c r d result).view id = w.view id := by
  have he : (w.emit r d).view id = w.view id := view_emit_of_ne (by simp [hd])
  rw [flush, view_setPhase, view_modifyRelay_of_eq, he]
  exact fun _ => rfl

/-- A call goes on unseen, unless its grace runs out. -/
theorem view_stepCall {c : Nat}
    (hx : ∀ k n, (w.stepCall c).call? c = some k → k.phase ≠ .cancelling n)
    (id : SubscriberId) : (w.stepCall c).view id = w.view id := by
  have hstep := w.callStep c
  generalize w.stepCall c = v at hstep hx
  cases hstep with
  | stays => rfl
  | drained => exact view_flush _ _ _ (d := ⟨.allDrainedWithin, []⟩) rfl _ id
  | @stopped k n => exact view_flush _ _ _ (d := .graceExceeded n) rfl _ id
  | returns => exact view_setPhase ..
  | @expired k _ hk =>
    have hc := (call?_setPhase (w.cancelAll k.relay) c c
      (.cancelling (w.liveWorkers k.relay))).trans (if_pos rfl)
    have hk : (w.cancelAll k.relay).call? c = some k := hk
    rw [hk] at hc
    exact absurd rfl (hx _ _ hc)

end World
end Fanout
