import Fanout.Proofs.Faults
import Fanout.Proofs.Listeners

/-! # The step of a worker

In a step a worker stops, lets go of its delivery, or runs the code of a delivery as far as it gets
and draws the conclusion. The code itself leaves the clock alone. Whatever it records, no delivery
begins by it and none is concluded, so only the step of its own worker does that. Like every move of
a run but building a relay, the step of a listener and the passing of time, it spares the listeners.
-/
namespace Fanout

/-- Moves that leave all listeners and the clock alone. -/
def Move.sparesListeners : Move → Bool
  | .build .. | .step (.listener ..) | .pass _ => false
  | .nameRelay .. | .forgetRelay _ | .register .. | .unregister .. | .remove _ | .forgetHandle _
  | .publish .. | .beginShutdown _ | .giveUp _ | .make _ | .step (.call _)
  | .step (.worker _) => true

/-- When a delivery to a subscriber began, and of which message. -/
def Note.startOf? (id : SubscriberId) : Note → Option (Nat × Message)
  | .row i t (.started m) => if i = id then some (t, m) else none
  | _ => none

namespace World

variable {u v w : World} {id i : SubscriberId} {r : Nat}

def starts (w : World) (id : SubscriberId) : List (Nat × Message) :=
  w.journal.toList.filterMap (Note.startOf? id)

theorem started_eq (w : World) (id : SubscriberId) :
    w.started id = (w.starts id).map Prod.snd := by
  rw [started, rows, starts, List.filterMap_filterMap, List.map_filterMap]
  refine List.filterMap_congr fun n _ => ?_
  cases n with
  | row i t x =>
    by_cases hi : i = id
    · cases x <;> simp [Note.rowOf?, Note.startOf?, Row.message?, hi]
    · cases x <;> simp [Note.rowOf?, Note.startOf?, hi]
  | accepted | concluded | traced | made | observed | missed | observerPanicked => rfl

theorem starts_note (w : World) (n : Note) (id : SubscriberId) :
    (w.note n).starts id = w.starts id ++ (n.startOf? id).toList := by
  cases h : n.startOf? id <;> simp [starts, note, h]

theorem Plain.starts (h : w.Plain v) (id : SubscriberId) : v.starts id = w.starts id := by
  refine h.filterMap_eq fun n hn => ?_
  cases n with
  | row i t x => cases x <;> first | rfl | cases hn
  | accepted | concluded | traced | made | observed | missed | observerPanicked => rfl

theorem isOwn_actAll (w : World) (id : SubscriberId) (as : List Action) {f : SinkFault}
    (hf : (w.actAll id as).2 = .ended (some f)) : f.isOwn = true := by
  have hfits := (leads_actAll w (l := ⟨id, 0, .empty, none, none⟩) rfl as).2
  rw [hf] at hfits
  exact hfits.2

theorem isOwn_poll (w : World) (id : SubscriberId) (d : Delivery) {f : SinkFault}
    (hf : (w.poll id d).2 = .ended (some f)) : f.isOwn = true := by
  unfold poll at hf
  split at hf
  · exact isOwn_actAll _ _ _ hf
  · split at hf
    · exact isOwn_actAll _ _ _ hf
    · cases hf
  · cases hf
  · dsimp only at hf
    split at hf
    · exact isOwn_actAll _ _ _ hf
    · cases hf

inductive WorkerStep (w : World) (id : SubscriberId) : World → Prop where
  | stays : WorkerStep w id w
  | stops {s : Subscriber} : w.subscriber? id = some s → s.phase = .idle →
    (s.cancelled = true ∨ s.queue = [] ∧ w.isFed id = false) →
    WorkerStep w id (w.stopWorker id)
  | aborts {s : Subscriber} {d : Delivery} : w.subscriber? id = some s →
    s.phase = .delivering d → s.cancelled = true →
    WorkerStep w id (((w.abandon id d.wait).note (.concluded id .cancelled)).stopWorker id)
  | crashes {s : Subscriber} {m : Message} {queue : List Message} : w.subscriber? id = some s →
    s.phase = .idle → s.cancelled = false → s.queue = m :: queue → s.sink.BringsDown s.begun →
    WorkerStep w id ((w.take id m queue).crash id)
  | begins {s : Subscriber} {m : Message} {queue : List Message} {x : World × Outcome} :
    w.subscriber? id = some s → s.phase = .idle → s.cancelled = false → s.queue = m :: queue →
    (w.take id m queue).actAll id (s.sink.actions s.begun) = x →
    WorkerStep w id (x.1.conclude id s.relay m (w.deadlineFor s.relay) x.2)
  | polls {s : Subscriber} {d : Delivery} {x : World × Outcome} : w.subscriber? id = some s →
    s.phase = .delivering d → s.cancelled = false → w.poll id d = x →
    WorkerStep w id (x.1.conclude id s.relay d.message d.deadline x.2)

theorem workerStep (w : World) (id : SubscriberId) : WorkerStep w id (w.stepWorker id) := by
  unfold stepWorker
  cases hs : w.subscriber? id with
  | none => exact .stays
  | some s =>
    dsimp only
    cases hp : s.phase with
    | stopped | crashed => exact .stays
    | delivering d =>
      dsimp only
      split
      · rename_i hc
        exact .aborts hs hp hc
      · rename_i hc
        rw [proceed_eq]
        exact .polls hs hp (by simpa using hc) rfl
    | idle =>
      dsimp only
      split
      · rename_i hc
        exact .stops hs hp (.inl hc)
      · rename_i hc
        have hc : s.cancelled = false := by simpa using hc
        cases hq : s.queue with
        | nil =>
          dsimp only
          split
          · exact .stays
          · rename_i hf
            exact .stops hs hp (.inr ⟨hq, by simpa using hf⟩)
        | cons m queue =>
          unfold begin start
          dsimp only
          split
          · rename_i rest hb ha
            exact .crashes hs hp hc hq ⟨hb, rest, ha⟩
          · exact .begins hs hp hc hq rfl

theorem sparesListeners_stepWorker (w : World) (id : SubscriberId) :
    w.SparesListeners (w.stepWorker id) :=
  (SparesListeners.deliveries id).stepWorker SparesListeners.calls w

theorem conclusions_conclude (w : World) (id : SubscriberId) (r : Nat) (m : Message)
    (deadline : Option Nat) (o : Outcome) :
    (w.conclude id r m deadline o).conclusions id =
      w.conclusions id ++ (o.conclusion? w ⟨id, r, m, deadline, none⟩).toList := by
  cases o with
  | ended f =>
    cases f with
    | none => exact conclusions_finish ..
    | some f => exact conclusions_contain ..
  | crashed =>
    refine (conclusions_concluded ..).trans ?_
    rw [if_pos rfl]
    rfl
  | waits wait rest =>
    rw [conclude, waitOn, Outcome.conclusion?]
    split
    · rw [conclusions_contain, conclusions_abandon]
      rfl
    · exact (List.append_nil _).symm

theorem conclusions_stepWorker_of_ne (hi : i ≠ id) :
    (w.stepWorker i).conclusions id = w.conclusions id := by
  let R : World → World → Prop := fun w v => v.conclusions id = w.conclusions id
  have hdeliveries : ContainsDeliveries i R :=
    (Spares.deliveries hi).imp (fun _ => rfl) (fun hu hv => hv.trans hu) fun hs => hs.conclusions
  have hcode : ContainsCalls R :=
    Plain.calls.imp (fun _ => rfl) (fun hu hv => hv.trans hu) fun hp => hp.conclusions id
  exact hdeliveries.stepWorker hcode w

theorem conclusions_build (w : World) (name : String) (config : Config)
    (observers : List Observer) (id : SubscriberId) :
    (w.build name config observers).1.conclusions id = w.conclusions id :=
  conclusions_of_journal (journal_build ..) id

/-- A delivery is concluded in a step of its worker and by nothing else. -/
theorem conclusions_move {m : Move} (hm : m ≠ .step (.worker id)) :
    (w.move m).conclusions id = w.conclusions id := by
  cases m with
  | build name config observers => exact conclusions_build ..
  | nameRelay | forgetRelay | forgetHandle | pass => rfl
  | register r name sink => exact (Plain.calls.registerNamed ..).conclusions id
  | unregister r i => exact (Plain.edits.unregister ..).conclusions id
  | remove h => exact (Plain.calls.remove ..).conclusions id
  | publish r m => exact (Plain.edits.publish ..).conclusions id
  | beginShutdown r => exact (Plain.calls.beginShutdown ..).conclusions id
  | giveUp c => exact (Plain.edits.giveUp ..).conclusions id
  | make d => exact (sameCore_make w d).conclusions id
  | step t =>
    cases t with
    | call c => exact (plain_stepCall ..).conclusions id
    | listener r i => exact (sameCore_stepListener ..).conclusions id
    | worker i =>
      have hi : i ≠ id := by
        rintro rfl
        exact hm rfl
      exact conclusions_stepWorker_of_ne hi

theorem sparesListeners_move {m : Move} (hm : m.sparesListeners = true) :
    w.SparesListeners (w.move m) := by
  cases m with
  | build | pass => cases hm
  | nameRelay | forgetRelay => exact sparesListeners_relayNames ..
  | register r name sink => exact SparesListeners.calls.registerNamed ..
  | unregister r id => exact SparesListeners.records.unregister ..
  | remove h => exact SparesListeners.calls.remove ..
  | forgetHandle => exact SparesListeners.calls.handles ..
  | publish r m => exact SparesListeners.records.publish ..
  | beginShutdown r => exact SparesListeners.calls.beginShutdown ..
  | giveUp c => exact SparesListeners.records.giveUp ..
  | make d => exact sparesListeners_make ..
  | step t =>
    cases t with
    | call c => exact sparesListeners_stepCall ..
    | listener => cases hm
    | worker id => exact sparesListeners_stepWorker ..

theorem now_move {m : Move} (hm : ∀ time, m ≠ .pass time) : (w.move m).now = w.now := by
  cases m with
  | build name config observers =>
    rw [move, build]
    split <;> rfl
  | pass time => exact absurd rfl (hm time)
  | step t =>
    cases t with
    | listener r i => exact now_stepListener ..
    | call | worker => exact (sparesListeners_move rfl).clock
  | nameRelay | forgetRelay | register | unregister | remove | forgetHandle | publish
  | beginShutdown | giveUp | make => exact (sparesListeners_move rfl).clock

end World
end Fanout
