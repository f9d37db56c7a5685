import Fanout.World.Tasks

/-! # Looking after changing

What the look-ups of a world find after each of its elementary changes.
-/
namespace Fanout.World

variable (w : World)

theorem relay?_modifyRelay (r n : Nat) (f : Relay → Relay) :
    (w.modifyRelay r f).relay? n = if r = n then (w.relay? n).map f else w.relay? n := by
  simp [relay?, modifyRelay, Array.getElem?_modify]

theorem subscriber?_modifySubscriber (id i : SubscriberId) (f : Subscriber → Subscriber) :
    (w.modifySubscriber id f).subscriber? i =
      if id = i then (w.subscriber? i).map f else w.subscriber? i := by
  have he : id = i ↔ id.serial = i.serial := by
    rcases id with ⟨m⟩
    rcases i with ⟨n⟩
    simp
  simp only [subscriber?, modifySubscriber, Array.getElem?_modify, he]

theorem call?_modifyCall (c n : Nat) (f : Call → Call) :
    (w.modifyCall c f).call? n = if c = n then (w.call? n).map f else w.call? n := by
  simp [call?, modifyCall, Array.getElem?_modify]

theorem relay?_emit (r n : Nat) (d : Event.Draft) :
    (w.emit r d).relay? n = if r = n then
      (w.relay? n).map fun q => { q with bus := q.bus.push (d.stamp w.nextSeq w.now) }
    else w.relay? n :=
  relay?_modifyRelay ..

theorem call?_setPhase (c n : Nat) (p : CallPhase) :
    (w.setPhase c p).call? n =
      if c = n then (w.call? n).map ({ · with phase := p }) else w.call? n :=
  call?_modifyCall ..

theorem call?_dropCall (c n : Nat) :
    (w.dropCall c).call? n = if c = n then
      (w.call? n).map fun k => if k.phase.pending then { k with phase := .dropped } else k
    else w.call? n :=
  call?_modifyCall ..

theorem subscriber?_cancelAll (r : Nat) (id : SubscriberId) :
    (w.cancelAll r).subscriber? id = (w.subscriber? id).map fun s =>
      if s.relay == r then { s with cancelled := true } else s := by
  simp [subscriber?, cancelAll]

theorem relayExists_iff (w : World) (r : Nat) : w.relayExists r = true ↔
    (∃ p ∈ w.relayNames, p.2 = r) ∨ ∃ k ∈ w.calls, k.relay = r ∧ k.phase.pending = true := by
  rw [relayExists, Bool.or_eq_true, List.any_eq_true, Array.any_eq_true']
  simp

theorem foldl_keeps {α β : Type} (p : World → β) (f : World → α → World)
    (hf : ∀ w x, p (f w x) = p w) (xs : List α) : p (xs.foldl f w) = p w :=
  List.foldlRecOn xs f (motive := fun v => p v = p w) rfl fun v hv x _ => (hf v x).trans hv

theorem calls_close (r : Nat) (q : Relay) : (w.close r q).calls = w.calls := by
  refine (foldl_keeps _ (·.calls) _ ?_ _).trans rfl
  intro v id
  rfl

theorem subscribers_close (r : Nat) (q : Relay) : (w.close r q).subscribers = w.subscribers := by
  refine (foldl_keeps _ (·.subscribers) _ ?_ _).trans rfl
  intro v id
  rfl

theorem relayNames_close (r : Nat) (q : Relay) : (w.close r q).relayNames = w.relayNames := by
  refine (foldl_keeps _ (·.relayNames) _ ?_ _).trans rfl
  intro v id
  rfl

theorem journal_close (r : Nat) (q : Relay) : (w.close r q).journal = w.journal := by
  refine (foldl_keeps _ (·.journal) _ ?_ _).trans rfl
  intro v id
  rfl

end Fanout.World
