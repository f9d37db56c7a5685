import Fanout.Proofs.Feeding
import Fanout.Proofs.Returning

/-! # The end of a bus

Only a relay that exists or has workers reports anything. When neither is left, or when a shutdown
has given the order to stop, no event comes any more.
-/
namespace Fanout

variable {a b : Moment} {r : Nat}

theorem World.busClosed_iff {w : World} :
    w.busClosed r = true ↔ w.relayExists r = false ∧ w.liveWorkers r = 0 := by
  simp [busClosed]

theorem Transition.busClosed (h : Transition a b) (ha : a.Sound) (hr : r < a.world.relays.size)
    (hc : a.world.busClosed r = true) : b.world.busClosed r = true := by
  obtain ⟨hex, hl⟩ := World.busClosed_iff.mp hc
  refine World.busClosed_iff.mpr ⟨?_, ?_⟩
  · rw [Bool.eq_false_iff] at hex ⊢
    exact fun hb => hex (h.existence ha hr hb)
  · rw [World.liveWorkers_eq_zero_iff] at hl ⊢
    intro id t ht htr
    rcases h.subscriber_cases ha ht with ⟨s, hs, hsr, -, hlive⟩ | ⟨hborn, -⟩
    · cases hv : t.live with
      | false => rfl
      | true => exact (hlive hv).symm.trans (hl id s hs (hsr.symm.trans htr))
    · rw [htr, hex] at hborn
      cases hborn

theorem Transition.mute (h : Transition a b) (ha : a.Sound) (hc : a.world.busClosed r = true) :
    b.world.events r = a.world.events r := by
  obtain ⟨hex, hl⟩ := World.busClosed_iff.mp hc
  have hsays : ∀ {n ds}, a.world.Reports n ds b.world → n ≠ r →
      b.world.events r = a.world.events r := by
    intro n ds hv hn
    rw [hv.events, if_neg hn, List.append_nil]
  have hexists : ∀ {n}, a.world.relayExists n = true → n ≠ r := by
    rintro n he rfl
    cases hex.symm.trans he
  cases h.relayChange ha with
  | still _ _ hev => exact hev r
  | enrolled n _ _ hv _ _ he | withdrawn n _ _ hv _ _ he | ignored n _ _ hv _ _ he
  | published n _ _ hv _ _ he | shut n _ hv _ _ he => exact hsays hv (hexists he)
  | faulted n id s f hs hsr hlive _ hv =>
    refine hsays hv ?_
    rintro rfl
    cases hlive.symm.trans (World.liveWorkers_eq_zero_iff.mp hl id s hs hsr)
  | ended c k _ _ hk hu _ _ hv =>
    refine hsays hv (hexists ((World.relayExists_iff _ _).mpr (.inr ⟨k, ?_, rfl, ?_⟩)))
    · exact Array.mem_of_getElem? hk
    · cases hp : k.phase with
      | draining | cancelling => rfl
      | flushing | returned | dropped =>
        rw [hp] at hu
        cases hu

/-- No event comes on the bus of a relay any more: a shutdown has seen to that, or nobody is left
who could report. -/
def World.Ended (w : World) (r : Nat) : Prop :=
  w.Settled r ∨ r < w.relays.size ∧ w.busClosed r = true

theorem Transition.ended (h : Transition a b) (ha : a.Sound) (hr : a.world.Ended r) :
    b.world.Ended r ∧ b.world.events r = a.world.events r := by
  rcases hr with hset | ⟨hlt, hc⟩
  · exact ⟨.inl (h.settled ha hset), h.callFree ha hset⟩
  · have hle := (h.relayChange ha).relays_le
    exact ⟨.inr ⟨Nat.lt_of_lt_of_le hlt hle, h.busClosed ha hlt hc⟩, h.mute ha hc⟩

end Fanout
