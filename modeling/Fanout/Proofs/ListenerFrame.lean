import Fanout.Proofs.ClosedRelations
import Fanout.Proofs.Log

/-! # What no listener takes part in

Every operation of a relay but building one leaves the listeners as they are and records nothing
of them. All that they can notice of it is more events on their bus, and the order to stop, which
comes with the last of them.
-/
namespace Fanout

def Note.isListening : Note → Bool
  | .observed .. | .missed .. | .observerPanicked .. => true
  | .accepted .. | .row .. | .concluded .. | .traced _ | .made _ => false

def Relay.listening (q : Relay) : List Listener × Nat := (q.listeners, q.bus.slots)

namespace World

def stopping (w : World) (r : Nat) : Bool := ((w.relay? r).map (·.stopping)).getD false

/-- From one world to another no listener does anything, and no event is taken back. -/
structure SparesListeners (w v : World) : Prop where
  listening : ∀ r, (v.relay? r).map Relay.listening = (w.relay? r).map Relay.listening
  events : ∀ r, w.events r <+: v.events r
  /-- The order to stop stands, and it is given only after the last report. -/
  order : ∀ r, w.stopping r = true → v.stopping r = true
  last : ∀ r, v.stopping r = true → w.stopping r = true ∨ ∃ e ∈ v.events r, e.isFinal = true
  journal : ∃ ns, v.journal.toList = w.journal.toList ++ ns ∧ ∀ n ∈ ns, n.isListening = false
  clock : v.now = w.now

namespace SparesListeners

variable {u v w : World}

theorem of_same (hr : v.relays = w.relays) (hj : v.journal = w.journal) (hn : v.now = w.now) :
    w.SparesListeners v := by
  have hw : ∀ r, v.relay? r = w.relay? r := fun r => by rw [relay?, hr, relay?]
  refine ⟨fun r => by rw [hw], fun r => ?_, fun r => ?_, fun r => ?_,
    ⟨[], by simp [hj], by simp⟩, hn⟩
  · have he : v.events r = w.events r := by rw [World.events, World.events, hw]
    exact he ▸ List.prefix_rfl
  · rw [stopping, stopping, hw]
    exact fun h => h
  · rw [stopping, stopping, hw]
    exact .inl

theorem refl (w : World) : w.SparesListeners w := of_same rfl rfl rfl

theorem trans (hu : u.SparesListeners v) (hv : v.SparesListeners w) : u.SparesListeners w := by
  obtain ⟨ns, hns, hs⟩ := hu.journal
  obtain ⟨ms, hms, ht⟩ := hv.journal
  refine ⟨fun r => (hv.listening r).trans (hu.listening r),
    fun r => (hu.events r).trans (hv.events r),
    fun r h => hv.order r (hu.order r h), fun r h => ?_, ⟨ns ++ ms, ?_, fun n hn => ?_⟩,
    hv.clock.trans hu.clock⟩
  · rcases hv.last r h with h | h
    · rcases hu.last r h with h | ⟨e, he, hf⟩
      · exact .inl h
      · exact .inr ⟨e, (hv.events r).subset he, hf⟩
    · exact .inr h
  · rw [hms, hns, List.append_assoc]
  · exact (List.mem_append.mp hn).elim (hs n) (ht n)

end SparesListeners

theorem sparesListeners_note (w : World) {n : Note} (hn : n.isListening = false) :
    w.SparesListeners (w.note n) :=
  ⟨fun _ => rfl, fun _ => List.prefix_rfl, fun _ h => h, fun _ => .inl,
    ⟨[n], by simp [note], by simpa using hn⟩, rfl⟩

theorem stopping_modifyRelay (w : World) (r n : Nat) {f : Relay → Relay}
    (hs : ∀ q, (f q).stopping = q.stopping) : (w.modifyRelay r f).stopping n = w.stopping n := by
  rw [stopping, relay?_modifyRelay, stopping]
  split
  · cases w.relay? n with
    | none => rfl
    | some q => exact hs q
  · rfl

theorem sparesListeners_modifyRelay (w : World) (r : Nat) {f : Relay → Relay}
    (he : ∀ q, (f q).listening = q.listening) (hs : ∀ q, (f q).stopping = q.stopping)
    (hf : ∀ q, q.bus.events.toList <+: (f q).bus.events.toList) :
    w.SparesListeners (w.modifyRelay r f) := by
  refine ⟨fun n => ?_, fun n => ?_, fun n h => (w.stopping_modifyRelay r n hs).trans h,
    fun n h => .inl ((w.stopping_modifyRelay r n hs).symm.trans h),
    ⟨[], by simp [modifyRelay], by simp⟩, rfl⟩
  · rw [relay?_modifyRelay]
    split
    · cases w.relay? n with
      | none => rfl
      | some q => exact congrArg some (he q)
    · rfl
  · rw [events, events, relay?_modifyRelay]
    split
    · cases w.relay? n with
      | none => exact List.prefix_rfl
      | some q => exact hf q
    · exact List.prefix_rfl

theorem sparesListeners_emit (w : World) (r : Nat) (d : Event.Draft) :
    w.SparesListeners (w.emit r d) := by
  have hpush : w.SparesListeners (w.modifyRelay r fun q =>
      { q with bus := q.bus.push (d.stamp w.nextSeq w.now) }) := by
    refine sparesListeners_modifyRelay w r (fun _ => rfl) (fun _ => rfl) fun q => ?_
    rw [Bus.push, Array.toList_push]
    exact List.prefix_append _ _
  exact hpush.trans (.of_same rfl rfl rfl)

theorem SparesListeners.records : ContainsRecords SparesListeners where
  trans := .trans
  same hr hj hn _ := .of_same hr hj hn
  relay w r _ hf := by
    refine sparesListeners_modifyRelay w r (fun q => ?_) (fun q => (hf q).2.2) fun q => ?_
    · rw [Relay.listening, (hf q).1, (hf q).2.1, Relay.listening]
    · simp only [(hf q).1, List.prefix_rfl]
  trace w _ := sparesListeners_note w rfl
  accepted w _ _ := sparesListeners_note w rfl
  row w _ _ _ := sparesListeners_note w rfl
  emit := sparesListeners_emit
  anyRow w _ _ := sparesListeners_note w rfl
  concluded w _ _ := sparesListeners_note w rfl

theorem SparesListeners.deliveries (id : SubscriberId) : ContainsDeliveries id SparesListeners :=
  SparesListeners.records.deliveries id

theorem relay?_flush (w : World) (c r n : Nat) (d : Event.Draft) (result : Option RelayError) :
    (w.flush c r d result).relay? n = if r = n then (w.relay? n).map fun q =>
      { q with bus := q.bus.push (d.stamp w.nextSeq w.now), stopping := true }
    else w.relay? n := by
  refine (relay?_modifyRelay (w.emit r d) r n _).trans ?_
  rw [relay?_emit]
  split
  · cases w.relay? n <;> rfl
  · rfl

/-- The order to stop comes with the last report. -/
theorem sparesListeners_flush (w : World) (c r : Nat) {d : Event.Draft} (result : Option RelayError)
    (hd : d.kind = .allDrainedWithin ∨ d.kind = .graceExceeded) :
    w.SparesListeners (w.flush c r d result) := by
  have hfinal : (d.stamp w.nextSeq w.now).isFinal = true := by
    simpa [Event.isFinal, Event.Draft.kind_stamp] using hd
  refine ⟨fun n => ?_, fun n => ?_, fun n h => ?_, fun n h => ?_,
    ⟨[], by simp [flush, emit, setPhase, modifyCall, modifyRelay], by simp⟩, rfl⟩
  · rw [relay?_flush]
    split
    · cases w.relay? n <;> rfl
    · rfl
  · rw [events, events, relay?_flush]
    split
    · cases w.relay? n with
      | none => exact List.prefix_rfl
      | some q => simp [Bus.push]
    · exact List.prefix_rfl
  · rw [stopping, relay?_flush]
    rw [stopping] at h
    split
    · cases hn : w.relay? n with
      | none =>
        rw [hn] at h
        cases h
      | some q => rfl
    · exact h
  · rw [stopping, relay?_flush] at h
    split at h
    · rename_i hn
      cases hq : w.relay? n with
      | none =>
        rw [hq] at h
        cases h
      | some q =>
        refine .inr ⟨d.stamp w.nextSeq w.now, ?_, hfinal⟩
        rw [events, relay?_flush, if_pos hn, hq]
        simp [Bus.push]
    · exact .inl h

theorem sparesListeners_stepCall (w : World) (c : Nat) : w.SparesListeners (w.stepCall c) := by
  have hstep := w.callStep c
  generalize w.stepCall c = v at hstep
  cases hstep with
  | stays => exact .refl w
  | drained => exact sparesListeners_flush _ _ _ _ (.inl rfl)
  | stopped => exact sparesListeners_flush _ _ _ _ (.inr rfl)
  | expired | returns => exact .of_same rfl rfl rfl

theorem SparesListeners.calls : ContainsCalls SparesListeners :=
  SparesListeners.records.calls sparesListeners_stepCall

theorem sparesListeners_relayNames (w : World) (names : List (String × Nat)) :
    w.SparesListeners { w with relayNames := names } := .of_same rfl rfl rfl

theorem sparesListeners_make (w : World) (d : Event.Draft) : w.SparesListeners (w.make d).1 := by
  have hcount : w.SparesListeners { w with nextSeq := w.nextSeq + 1 } := .of_same rfl rfl rfl
  exact hcount.trans (sparesListeners_note _ (n := .made (d.stamp w.nextSeq w.now)) rfl)

end World
end Fanout
