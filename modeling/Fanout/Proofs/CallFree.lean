import Fanout.Proofs.SameView

/-! # Deliveries that call nothing

A step of a worker makes no call when its code comes to an action that ends the delivery or waits
before any that calls a relay. Such a step is not seen by other subscribers, and its own one sees
the same of it in worlds that it cannot tell apart.
-/
namespace Fanout

def Action.isCall : Action → Bool
  | .publish _ | .unregister _ | .remove _ | .isActive _ | .count | .register _ | .shutdown => true
  | .ok | .fail _ | .closed | .panic _ | .panicAtStart | .hang | .yield | .sleep _ => false

/-- Whether a delivery with these actions to do comes to a call of a relay in one go. -/
def Action.reachesCall : List Action → Bool
  | [] => false
  | .sleep ms :: rest => ms = 0 && reachesCall rest
  | a :: _ => a.isCall

namespace World

/-- Whether the worker of a subscriber would now go on with a call of a relay or come to one. -/
def isCalling (w : World) (i : SubscriberId) : Bool :=
  (w.subscriber? i).any fun s =>
    !s.cancelled && match s.phase with
      | .idle => !s.queue.isEmpty && Action.reachesCall (s.sink.actions s.begun)
      | .delivering d => d.wait.call?.isSome || w.waitOver d.wait && Action.reachesCall d.rest
      | .stopped | .crashed => false

variable {u v w : World} {id i : SubscriberId} {a : Action} {as : List Action}

theorem reachesCall_cons (ha : Action.reachesCall (a :: as) = false) :
    a.isCall = false ∧ ((w.act i a).2 = .proceed → Action.reachesCall as = false) := by
  cases a with
  | ok | fail error | closed | panic p | panicAtStart | hang | yield =>
    refine ⟨rfl, fun he => ?_⟩
    cases he
  | sleep ms =>
    refine ⟨rfl, fun he => ?_⟩
    by_cases hms : ms = 0
    · simpa [Action.reachesCall, hms] using ha
    · simp [act, hms] at he
  | publish | unregister | remove | isActive | count | register | shutdown => cases ha

namespace Parallel

variable {S : World → World → Prop}

theorem act_callFree (h : Parallel id S) (huv : S u v) (ha : a.isCall = false) :
    Both S (u.act id a) (v.act id a) := by
  cases a with
  | ok | fail | closed => exact ⟨h.row _ huv, rfl⟩
  | panic | panicAtStart | hang | yield => exact ⟨huv, rfl⟩
  | sleep ms =>
    refine ⟨huv, ?_⟩
    rw [World.act, World.act, h.now huv]
  | publish | unregister | remove | isActive | count | register | shutdown => cases ha

theorem actAll_callFree (h : Parallel id S) (huv : S u v) (ha : Action.reachesCall as = false) :
    Both S (u.actAll id as) (v.actAll id as) := by
  refine h.actAll (Q := fun _ _ as => Action.reachesCall as = false) ?_ huv ha
  intro u v a as huv ha
  obtain ⟨hcall, hrest⟩ := reachesCall_cons (w := u) (i := id) ha
  exact ⟨h.act_callFree huv hcall, fun hu _ => hrest hu⟩

/-- In a step without a call a worker asks nothing but who it is, what time it is and whether it is
still fed. -/
theorem stepWorker_callFree (h : Parallel id S) (huv : S u v)
    (hsub : u.subscriber? id = v.subscriber? id) (hfed : u.isFed id = v.isFed id)
    (hdeadline : ∀ r, u.deadlineFor r = v.deadlineFor r) (hc : u.isCalling id = false) :
    S (u.stepWorker id) (v.stepWorker id) := by
  refine h.stepWorker huv hsub hfed ?_ ?_
  · intro s m queue hs hk hp hq
    have ha : Action.reachesCall (s.sink.actions s.begun) = false := by
      simpa [isCalling, hsub, hs, hp, hk, hq] using hc
    have htake := h.take m queue huv
    exact h.begin (hdeadline s.relay) (start htake _ (h.actAll_callFree htake ha))
  · intro s d hs hk hp
    obtain ⟨hcall, ha⟩ : d.wait.call? = none ∧
        (u.waitOver d.wait = true → Action.reachesCall d.rest = false) := by
      simpa [isCalling, hsub, hs, hp, hk] using hc
    exact h.proceed (h.poll huv hcall fun hover => h.actAll_callFree huv (ha hover))

end Parallel

theorem view_stepWorker_of_ne (hi : i ≠ id) (hc : w.isCalling i = false) :
    (w.stepWorker i).view id = w.view id :=
  (((containsDeliveries_view hi).parallel w).stepWorker_callFree ⟨rfl, rfl⟩ rfl rfl
    (fun _ => rfl) hc).2

theorem SameView.stepWorker (h : SameView id u v) (hc : u.isCalling id = false)
    (hf : u.isFed id = v.isFed id) : SameView id (u.stepWorker id) (v.stepWorker id) :=
  (SameView.parallel id).stepWorker_callFree h h.subscriber? hf h.deadlineFor hc

end World
end Fanout
