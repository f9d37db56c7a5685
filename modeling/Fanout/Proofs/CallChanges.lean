import Fanout.Proofs.PartChanges

/-! # How a transition changes a call of shutdown

A call is opened once, goes on through its phases in one direction, and may be dropped until it has
returned. Its relay and its owner never change.
-/
namespace Fanout

inductive CallChange (a b : Moment) (c : Nat) : Call → Call → Prop where
  | keep {k : Call} : CallChange a b c k k
  | drop {k : Call} : k.phase.pending = true → CallChange a b c k { k with phase := .dropped }
  | drained {k : Call} {deadline : Nat} : k.phase = .draining deadline →
    a.world.liveWorkers k.relay = 0 →
    b = { a with world := a.world.flush c k.relay ⟨.allDrainedWithin, []⟩ none } →
    CallChange a b c k { k with phase := .flushing none }
  | expired {k : Call} {deadline : Nat} : a.Drives c → k.phase = .draining deadline →
    a.world.liveWorkers k.relay ≠ 0 → deadline ≤ a.world.now →
    b = { a with world := a.world.stepCall c } →
    CallChange a b c k { k with phase := .cancelling (a.world.liveWorkers k.relay) }
  | stopped {k : Call} {pending : Nat} : k.phase = .cancelling pending →
    a.world.liveWorkers k.relay = 0 →
    b = { a with
      world := a.world.flush c k.relay (.graceExceeded pending)
        (some (.graceExceeded (a.world.graceOf k.relay) pending)) } →
    CallChange a b c k { k with
      phase := .flushing (some (.graceExceeded (a.world.graceOf k.relay) pending)) }
  | returns {k : Call} {result : Option RelayError} : k.phase = .flushing result →
    a.world.listenersStopped k.relay = true →
    CallChange a b c k { k with phase := .returned result }

namespace CallChange

variable {a b : Moment} {c : Nat} {k j : Call}

theorem relay (h : CallChange a b c k j) : j.relay = k.relay := by
  cases h <;> rfl

theorem owner (h : CallChange a b c k j) : j.owner = k.owner := by
  cases h <;> rfl

theorem eq_of_pending (h : CallChange a b c k j) (hp : k.phase.pending = false) : j = k := by
  cases h with
  | keep => rfl
  | drop hd =>
    rw [hp] at hd
    cases hd
  | drained hd | expired _ hd | stopped hd | returns hd =>
    rw [hd] at hp
    cases hp

theorem pending (h : CallChange a b c k j) (hj : j.phase.pending = true) :
    k.phase.pending = true := by
  cases hk : k.phase.pending with
  | true => rfl
  | false =>
    rw [h.eq_of_pending hk, hk] at hj
    cases hj

theorem unsettled (h : CallChange a b c k j) (hj : j.phase.unsettled = true) :
    k.phase.unsettled = true := by
  cases h with
  | keep => exact hj
  | drop | drained | stopped | returns => cases hj
  | expired _ hp =>
    rw [hp]
    rfl

end CallChange

namespace World

variable {w : World}

theorem calls_register (w : World) (r : Nat) (name : String) (sink : Sink) :
    (w.register r name sink).1.calls = w.calls := by
  have hstep := w.registerStep r name sink
  generalize (w.register r name sink).1 = v at hstep
  cases hstep with
  | panics | ignored | enrolls => rfl

theorem calls_unregister (w : World) (r : Nat) (id : SubscriberId) :
    (w.unregister r id).1.calls = w.calls := by
  rw [unregister]
  split <;> rfl

theorem calls_fanOut (w : World) (r : Nat) (ids : List SubscriberId) (m : Message) :
    (w.fanOut r ids m).calls = w.calls :=
  (foldl_keeps _ (·.calls) (reportDrop r) (fun _ _ => rfl) _).trans
    (foldl_keeps _ (·.calls) (accept · m) (fun _ _ => rfl) _)

theorem calls_publish (w : World) (r : Nat) (m : Message) :
    (w.publish r m).calls = w.calls := by
  have hstep := w.publishStep r m
  generalize w.publish r m = v at hstep
  cases hstep with
  | missing | ignored | unheard => rfl
  | fansOut => exact calls_fanOut ..

theorem calls_abandon (w : World) (id : SubscriberId) (wait : Wait) :
    (w.abandon id wait).calls = w.calls ∨
      ∃ n, (w.abandon id wait).calls = (w.dropCall n).calls := by
  cases wait with
  | turn | «until» time | forever => exact .inl rfl
  | call n => exact .inr ⟨n, rfl⟩

end World

/-- What a transition may do to the record of calls. -/
inductive CallsChange (a b : Moment) : Prop where
  | keep : b.world.calls = a.world.calls → CallsChange a b
  | drop (n : Nat) : b.world.calls = (a.world.dropCall n).calls → CallsChange a b
  | step (n : Nat) : a.Drives n → b = { a with world := a.world.stepCall n } → CallsChange a b
  | opened (r : Nat) : a.world.relayExists r = true → b = a.shutdown r → CallsChange a b

variable {a b : Moment}

theorem callsChange_abandon {id : SubscriberId} {wait : Wait}
    (he : b.world.calls = (a.world.abandon id wait).calls) : CallsChange a b := by
  rcases World.calls_abandon a.world id wait with hw | ⟨n, hw⟩
  · exact .keep (he.trans hw)
  · exact .drop n (he.trans hw)

theorem Transition.callsChange (h : Transition a b) : CallsChange a b := by
  cases h with
  | sameCore hv => exact .keep hv.calls
  | build => exact .keep (World.calls_build ..)
  | register => exact .keep (World.calls_register ..)
  | unregister => exact .keep (World.calls_unregister ..)
  | publish => exact .keep (World.calls_publish ..)
  | shutdown r hr => exact .opened r hr rfl
  | call n hn => exact .step n hn rfl
  | giveUp n =>
    by_cases hh : a.world.isHosted n = true
    · exact .drop n (congrArg World.calls (if_pos hh))
    · exact .keep (congrArg World.calls (if_neg hh))
  | begin | crash | poll | row | back | stop => exact .keep rfl
  | @conclude l o hl ho =>
    cases o with
    | ended f => cases f <;> exact .keep rfl
    | crashed => exact ho.elim
    | waits wait rest =>
      by_cases hd : a.world.overdue l.deadline = true
      · have he : a.world.conclude l.id l.relay l.message l.deadline (.waits wait rest) = _ :=
          if_pos hd
        exact callsChange_abandon ((congrArg World.calls he).trans rfl)
      · have he : a.world.conclude l.id l.relay l.message l.deadline (.waits wait rest) = _ :=
          if_neg hd
        exact .keep ((congrArg World.calls he).trans rfl)
  | abort => exact callsChange_abandon rfl

theorem callChange_dropCall {c n : Nat} {k : Call} (he : b.world.calls = (a.world.dropCall n).calls)
    (hk : a.world.call? c = some k) : ∃ j, b.world.call? c = some j ∧ CallChange a b c k j := by
  have hc : b.world.call? c = (a.world.dropCall n).call? c := by rw [World.call?, he, World.call?]
  rw [hc, World.call?_dropCall, hk]
  by_cases hn : n = c
  · rw [if_pos hn]
    by_cases hp : k.phase.pending = true
    · exact ⟨_, by rw [Option.map_some, if_pos hp], .drop hp⟩
    · exact ⟨k, by rw [Option.map_some, if_neg hp], .keep⟩
  · rw [if_neg hn]
    exact ⟨k, rfl, .keep⟩

theorem callChange_stepCall {c n : Nat} {k : Call} (hn : a.Drives n)
    (hk : a.world.call? c = some k) (hb : b = { a with world := a.world.stepCall n }) :
    ∃ j, b.world.call? c = some j ∧ CallChange a b c k j := by
  have hset : ∀ (v : World) (p : CallPhase), v.calls = a.world.calls →
      (v.setPhase n p).call? c = if n = c then some { k with phase := p } else some k := by
    intro v p hv
    have hc : v.call? c = some k := by rw [World.call?, hv]; exact hk
    rw [World.call?_setPhase, hc]
    rfl
  have hstep := a.world.callStep n
  have hw : b.world = a.world.stepCall n := congrArg Moment.world hb
  rw [← hw] at hstep
  generalize hv : b.world = v at hstep
  have hbv : b = { a with world := v } := by rw [hb, ← hv, hw]
  by_cases hc : n = c
  · subst hc
    cases hstep with
    | stays => exact ⟨k, hk, .keep⟩
    | drained hj hp hl =>
      obtain rfl := Option.mem_unique hj hk
      exact ⟨_, (hset _ _ rfl).trans (if_pos rfl), .drained hp hl hbv⟩
    | expired hj hp hl hd =>
      obtain rfl := Option.mem_unique hj hk
      exact ⟨_, (hset _ _ rfl).trans (if_pos rfl), .expired hn hp hl hd hb⟩
    | stopped hj hp hl =>
      obtain rfl := Option.mem_unique hj hk
      exact ⟨_, (hset _ _ rfl).trans (if_pos rfl), .stopped hp hl hbv⟩
    | returns hj hp hl =>
      obtain rfl := Option.mem_unique hj hk
      exact ⟨_, (hset _ _ rfl).trans (if_pos rfl), .returns hp hl⟩
  · refine ⟨k, ?_, .keep⟩
    cases hstep with
    | stays => exact hk
    | drained | expired | stopped | returns => exact (hset _ _ rfl).trans (if_neg hc)

theorem Transition.callChange (h : Transition a b) {c : Nat} {k : Call}
    (hk : a.world.call? c = some k) : ∃ j, b.world.call? c = some j ∧ CallChange a b c k j := by
  cases h.callsChange with
  | keep he => exact ⟨k, by rw [World.call?, he]; exact hk, .keep⟩
  | drop n he => exact callChange_dropCall he hk
  | step n hn hb => exact callChange_stepCall hn hk hb
  | opened r hr hb =>
    refine ⟨k, ?_, .keep⟩
    have hlt := (Array.getElem?_eq_some_iff.mp hk).1
    rw [hb]
    change (a.world.openCall r (a.slice.map (·.id))).call? c = some k
    have hstep := a.world.openCallStep r (a.slice.map (·.id))
    generalize a.world.openCall r (a.slice.map (·.id)) = v at hstep
    cases hstep with
    | missing => exact hk
    | late | closes =>
      exact (Array.getElem?_push_lt hlt).trans ((Array.getElem?_eq_getElem hlt).symm.trans hk)

/-- A call stays, with its relay and its owner. -/
theorem Transitions.call (hab : Transitions a b) {c : Nat} {k : Call}
    (hk : a.world.call? c = some k) :
    ∃ j, b.world.call? c = some j ∧ j.relay = k.relay ∧ j.owner = k.owner := by
  induction hab with
  | refl => exact ⟨k, hk, rfl, rfl⟩
  | tail _ hcd ih =>
    obtain ⟨i, hi, hr, ho⟩ := ih
    obtain ⟨j, hj, ht⟩ := hcd.callChange hi
    exact ⟨j, hj, ht.relay.trans hr, ht.owner.trans ho⟩

theorem Transition.call_new (h : Transition a b) (ha : a.Sound) {c : Nat} {k : Call}
    (hn : a.world.call? c = none) (hk : b.world.call? c = some k) :
    k.owner = a.slice.map (·.id) ∧ c = a.world.calls.size ∧ a.world.relayExists k.relay = true ∧
      b = a.shutdown k.relay ∧
      (k.phase = .returned none ∧ a.world.closed k.relay = true ∨
        k.phase = .draining (a.world.after (a.world.graceOf k.relay)) ∧
          a.world.closed k.relay = false) := by
  have hsize : a.world.calls.size ≤ c := by
    rw [World.call?] at hn
    exact Array.getElem?_eq_none_iff.mp hn
  have hlt := (Array.getElem?_eq_some_iff.mp hk).1
  have hkeep : b.world.calls.size ≠ a.world.calls.size := by omega
  have hset : ∀ (v : World) (n : Nat) (p : CallPhase), v.calls = a.world.calls →
      (v.setPhase n p).calls.size = a.world.calls.size :=
    fun v n p hv => (Array.size_modify ..).trans (congrArg Array.size hv)
  cases h.callsChange with
  | keep he => exact absurd (congrArg Array.size he) hkeep
  | drop n he => exact absurd ((congrArg Array.size he).trans (Array.size_modify ..)) hkeep
  | step n hn hb =>
    have hstep := a.world.callStep n
    have hw : b.world = a.world.stepCall n := congrArg Moment.world hb
    rw [← hw] at hstep
    refine absurd ?_ hkeep
    generalize b.world = v at hstep
    cases hstep with
    | stays => rfl
    | drained | expired | stopped | returns => exact hset _ _ _ rfl
  | opened r hr hb =>
    obtain ⟨p, hp, ho⟩ := World.calls_openCall (ha.named r hr) (a.slice.map (·.id))
    have hcalls : b.world.calls = a.world.calls.push ⟨r, a.slice.map (·.id), p⟩ := by
      rw [hb]
      exact hp
    have hc : c = a.world.calls.size := by
      rw [hcalls, Array.size_push] at hlt
      omega
    subst hc
    rw [World.call?, hcalls, Array.getElem?_push_size] at hk
    obtain rfl := Option.some.inj hk
    exact ⟨rfl, rfl, hr, hb, ho⟩

end Fanout
