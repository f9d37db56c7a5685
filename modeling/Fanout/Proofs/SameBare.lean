import Fanout.Proofs.Bare
import Fanout.Proofs.Isolation
import Fanout.Proofs.Steps

/-! # Two worlds with different observers

The two worlds are at the same time and differ in their listeners only, and in what those have made
of shutdown calls that were through with the workers. What the host does, and what calls and workers
do in their steps, keeps it so.
-/
namespace Fanout

/-- What a shutdown call returns, or will return if it is not dropped. -/
def CallPhase.verdict? : CallPhase → Option (Option RelayError)
  | .flushing result | .returned result => some result
  | .draining _ | .cancelling _ | .dropped => none

/-- Phases of one call in two worlds that differ in listeners only. -/
inductive CallPhase.Matches : CallPhase → CallPhase → Prop where
  | refl {p : CallPhase} : Matches p p
  | settled {p q : CallPhase} : p.unsettled = false → q.unsettled = false →
    (∀ x y, p.verdict? = some x → q.verdict? = some y → x = y) → Matches p q

structure Call.Matches (k j : Call) : Prop where
  relay : k.relay = j.relay
  owner : k.owner = j.owner
  phase : k.phase.Matches j.phase

theorem CallPhase.Matches.symm {p q : CallPhase} (h : p.Matches q) : q.Matches p := by
  cases h with
  | refl => exact .refl
  | settled hp hq he => exact .settled hq hp fun x y hx hy => (he y x hy hx).symm

theorem CallPhase.Matches.unsettled {p q : CallPhase} (h : p.Matches q) :
    p.unsettled = q.unsettled := by
  cases h with
  | refl => rfl
  | settled hp hq => exact hp.trans hq.symm

theorem CallPhase.Matches.eq {p q : CallPhase} (h : p.Matches q) (hp : p.unsettled = true) :
    p = q := by
  cases h with
  | refl => rfl
  | settled hs => cases hs.symm.trans hp

/-- A call that is through with the workers is as good as one that has returned the same. -/
theorem CallPhase.Matches.verdict {p q : CallPhase} (h : p.Matches q) {x y : Option RelayError}
    (hx : p.verdict? = some x) (hy : q.verdict? = some y) : x = y := by
  cases h with
  | refl => exact Option.some.inj (hx.symm.trans hy)
  | settled _ _ he => exact he x y hx hy

theorem CallPhase.Matches.returns {q : CallPhase} {x : Option RelayError}
    (h : (CallPhase.flushing x).Matches q) : (CallPhase.returned x).Matches q :=
  .settled rfl (h.unsettled.symm.trans rfl) fun _ _ hy hz =>
    h.verdict (x := x) rfl hz ▸ (Option.some.inj hy).symm

theorem Call.Matches.drop {k j : Call} (h : k.Matches j) :
    Call.Matches (if k.phase.pending then { k with phase := .dropped } else k)
      (if j.phase.pending then { j with phase := .dropped } else j) := by
  obtain ⟨kr, ko, p⟩ := k
  obtain ⟨jr, jo, q⟩ := j
  obtain ⟨hr, ho, hp⟩ := h
  dsimp only at hr ho hp ⊢
  subst hr ho
  cases hp with
  | refl => split <;> exact ⟨rfl, rfl, .refl⟩
  | settled hp hq he =>
    split
    · refine ⟨by split <;> rfl, by split <;> rfl, .settled rfl ?_ fun x y hx => by cases hx⟩
      split
      · rfl
      · exact hq
    · split
      · exact ⟨rfl, rfl, .settled hp rfl fun x y _ hy => by cases hy⟩
      · exact ⟨rfl, rfl, .settled hp hq he⟩

namespace World

structure Concur (u v : World) : Prop where
  size : u.calls.size = v.calls.size
  calls : ∀ c, Option.Rel Call.Matches (u.call? c) (v.call? c)

theorem Concur.call?_left {u v : World} (h : u.Concur v) {c : Nat} {k : Call}
    (hk : u.call? c = some k) : ∃ j, v.call? c = some j ∧ k.Matches j := by
  have hc := h.calls c
  rw [hk] at hc
  generalize v.call? c = y at hc
  cases hc with
  | some hm => exact ⟨_, rfl, hm⟩

structure SameBare (u v : World) : Prop where
  bare : u.bare = v.bare
  calls : u.Concur v

structure Agree {α : Type} (x y : World × α) : Prop where
  sameBare : x.1.SameBare y.1
  answer : x.2 = y.2

theorem agree_iff_both {α : Type} {x y : World × α} : Agree x y ↔ Both SameBare x y :=
  ⟨fun h => ⟨h.sameBare, h.answer⟩, fun h => ⟨h.worlds, h.answer⟩⟩

namespace SameBare

variable {u v w u' v' : World} {id i : SubscriberId} {r c : Nat}

theorem symm (h : u.SameBare v) : v.SameBare u where
  bare := h.bare.symm
  calls := ⟨h.calls.size.symm, fun c => by
    have hc := h.calls.calls c
    generalize u.call? c = x at hc
    generalize v.call? c = y at hc
    cases hc with
    | none => exact .none
    | some hm => exact .some ⟨hm.relay.symm, hm.owner.symm, hm.phase.symm⟩⟩

theorem same {α : Type} {f : World → α} (hf : ∀ w, f w.bare = f w) (h : u.SameBare v) :
    f u = f v := by
  rw [← hf u, h.bare, hf v]

theorem now (h : u.SameBare v) : u.now = v.now := h.same (f := World.now) fun _ => rfl

theorem subscriber? (h : u.SameBare v) (id : SubscriberId) : u.subscriber? id = v.subscriber? id :=
  h.same (f := (World.subscriber? · id)) fun _ => rfl

theorem liveWorkers (h : u.SameBare v) (r : Nat) : u.liveWorkers r = v.liveWorkers r :=
  h.same (f := (World.liveWorkers · r)) fun _ => rfl

theorem relay? (h : u.SameBare v) (r : Nat) : u.relay? r = none ∧ v.relay? r = none ∨
    ∃ q p, u.relay? r = some q ∧ v.relay? r = some p ∧ q.core = p.core := by
  have hcore : (u.relay? r).map Relay.core = (v.relay? r).map Relay.core := by
    rw [← relay?_bare, h.bare, relay?_bare]
  cases hq : u.relay? r with
  | none =>
    rw [hq] at hcore
    exact .inl ⟨rfl, Option.map_eq_none_iff.mp hcore.symm⟩
  | some q =>
    rw [hq] at hcore
    obtain ⟨p, hp, he⟩ := Option.map_eq_some_iff.mp hcore.symm
    exact .inr ⟨q, p, rfl, hp, he.symm⟩

theorem call? (h : u.SameBare v) (c : Nat) : u.call? c = none ∧ v.call? c = none ∨
    ∃ k j, u.call? c = some k ∧ v.call? c = some j ∧ k.Matches j := by
  have hc := h.calls.calls c
  generalize u.call? c = x at hc
  generalize v.call? c = y at hc
  cases hc with
  | none => exact .inl ⟨rfl, rfl⟩
  | some hm => exact .inr ⟨_, _, rfl, rfl, hm⟩

theorem isHosted (h : u.SameBare v) (c : Nat) : u.isHosted c = v.isHosted c := by
  rcases h.call? c with ⟨hu, hv⟩ | ⟨k, j, hu, hv, hm⟩
  · rw [World.isHosted, hu, World.isHosted, hv]
  · rw [World.isHosted, hu, World.isHosted, hv, Option.any_some, Option.any_some, hm.owner]

theorem result (h : u.SameBare v) {x y : Option RelayError} (hx : u.result? c = some x)
    (hy : v.result? c = some y) : x = y := by
  rcases h.call? c with ⟨hu, -⟩ | ⟨⟨_, _, p⟩, ⟨_, _, q⟩, hu, hv, hm⟩
  · rw [World.result?, hu] at hx
    cases hx
  · rw [World.result?, hu] at hx
    rw [World.result?, hv] at hy
    cases p with
    | draining | cancelling | flushing | dropped => cases hx
    | returned a =>
      cases q with
      | draining | cancelling | flushing | dropped => cases hy
      | returned b =>
        obtain rfl := Option.some.inj hx
        obtain rfl := Option.some.inj hy
        exact hm.phase.verdict rfl rfl

theorem of_bare (h : u.SameBare v) (hb : u'.bare = v'.bare) (hu : u'.calls = u.calls)
    (hv : v'.calls = v.calls) : u'.SameBare v' := by
  refine ⟨hb, ?_, fun c => ?_⟩
  · rw [hu, hv]
    exact h.calls.size
  · rw [World.call?, World.call?, hu, hv]
    exact h.calls.calls c

theorem change {f : World → World} (hf : ∀ w, (f w).bare = (f w.bare).bare)
    (hc : ∀ w, (f w).calls = w.calls) (h : u.SameBare v) : (f u).SameBare (f v) :=
  h.of_bare (by rw [hf u, h.bare, ← hf v]) (hc u) (hc v)

theorem commute {f : World → World} (hf : ∀ w, (f w).bare = f w.bare)
    (hc : ∀ w, (f w).calls = w.calls) (h : u.SameBare v) : (f u).SameBare (f v) :=
  h.change (fun w => by rw [hf, hf, bare_bare]) hc

theorem ask {α : Type} {f : World → World × α}
    (hf : ∀ w, (f w).1.bare = (f w.bare).1.bare ∧ (f w).2 = (f w.bare).2)
    (hc : ∀ w, (f w).1.calls = w.calls) (h : u.SameBare v) : Agree (f u) (f v) :=
  ⟨h.change (fun w => (hf w).1) hc, by rw [(hf u).2, h.bare, ← (hf v).2]⟩

theorem row (h : u.SameBare v) (id : SubscriberId) (x : Row) : (u.row id x).SameBare (v.row id x) :=
  h.commute (f := fun w => w.row id x) (fun w => bare_row w id x) fun _ => rfl

theorem register (h : u.SameBare v) (r : Nat) (name : String) (sink : Sink) :
    Agree (u.registerNamed r name sink) (v.registerNamed r name sink) :=
  h.ask (fun w => w.bare_registerNamed r name sink) fun w => by
    have hc := w.calls_register r name sink
    rw [registerNamed]
    split <;> rename_i he <;> rw [he] at hc <;> exact hc

theorem unregister (h : u.SameBare v) (r : Nat) (id : SubscriberId) :
    Agree (u.unregister r id) (v.unregister r id) :=
  h.ask (fun w => w.bare_unregister r id) fun w => w.calls_unregister r id

theorem publish (h : u.SameBare v) (r : Nat) (m : Message) :
    (u.publish r m).SameBare (v.publish r m) :=
  h.change (fun w => w.bare_publish r m) fun w => w.calls_publish r m

theorem modifyCall (h : u.SameBare v) (c : Nat) {f : Call → Call}
    (hf : ∀ k j : Call, k.Matches j → (f k).Matches (f j)) :
    (u.modifyCall c f).SameBare (v.modifyCall c f) where
  bare := h.bare
  calls := by
    refine ⟨?_, fun n => ?_⟩
    · rw [World.modifyCall, World.modifyCall, Array.size_modify, Array.size_modify, h.calls.size]
    · rw [call?_modifyCall, call?_modifyCall]
      rcases h.call? n with ⟨hu, hv⟩ | ⟨k, j, hu, hv, hm⟩
      · rw [hu, hv]
        split <;> exact .none
      · rw [hu, hv]
        split
        · exact .some (hf k j hm)
        · exact .some hm

theorem setPhase (h : u.SameBare v) (c : Nat) (p : CallPhase) :
    (u.setPhase c p).SameBare (v.setPhase c p) :=
  h.modifyCall c fun _ _ hm => ⟨hm.relay, hm.owner, .refl⟩

theorem dropCall (h : u.SameBare v) (c : Nat) : (u.dropCall c).SameBare (v.dropCall c) :=
  h.modifyCall c fun _ _ hm => hm.drop

theorem giveUp (h : u.SameBare v) (c : Nat) : (u.giveUp c).SameBare (v.giveUp c) := by
  rw [World.giveUp, World.giveUp, h.isHosted]
  split
  · exact h.dropCall c
  · exact h

theorem pushCall (h : u.SameBare v) (k : Call) :
    World.SameBare { u with calls := u.calls.push k } { v with calls := v.calls.push k } where
  bare := h.bare
  calls := by
    refine ⟨?_, fun n => ?_⟩
    · rw [Array.size_push, Array.size_push, h.calls.size]
    · have hn := h.calls.calls n
      simp only [World.call?, Array.getElem?_push, h.calls.size] at hn ⊢
      split
      · exact .some ⟨rfl, rfl, .refl⟩
      · exact hn

theorem openCall (h : u.SameBare v) (r : Nat) (owner : Option SubscriberId) :
    (u.openCall r owner).SameBare (v.openCall r owner) := by
  simp only [World.openCall, locked?_eq]
  rcases h.relay? r with ⟨hu, hv⟩ | ⟨q, p, hu, hv, he⟩
  · simp only [hu, hv]
    exact h
  · have hclosed : q.closed = p.closed := by rw [← Relay.closed_core q, he, Relay.closed_core]
    have hactive : q.active = p.active := by rw [← Relay.active_core q, he, Relay.active_core]
    have hconfig : q.config = p.config := by rw [← Relay.config_core q, he, Relay.config_core]
    have hafter : u.after p.config.grace = v.after p.config.grace :=
      h.same (f := (World.after · p.config.grace)) fun _ => rfl
    simp only [hu, hv, hclosed, hconfig, hafter]
    split
    · exact h.pushCall _
    · have hclose : (u.close r q).SameBare (v.close r p) := by
        refine h.of_bare ?_ (calls_close ..) (calls_close ..)
        rw [bare_close u r hactive, h.bare, ← bare_close v r rfl]
      exact hclose.pushCall _

theorem flush (h : u.SameBare v) (c r : Nat) (d : Event.Draft) (result : Option RelayError) :
    (u.flush c r d result).SameBare (v.flush c r d result) := by
  have hemit : (u.emit r d).SameBare (v.emit r d) :=
    h.commute (f := fun w => w.emit r d) (fun w => bare_emit w r d) fun _ => rfl
  have hstop := hemit.commute
    (f := fun w => w.modifyRelay r fun q => { q with stopping := true })
    (fun w => bare_modifyRelay w r fun _ => rfl) fun _ => rfl
  exact hstop.setPhase c _

/-- A call that is through with the workers goes on alone. -/
theorem stepCall_left (h : u.SameBare v)
    (hs : ∀ k, u.call? c = some k → k.phase.unsettled = false) : (u.stepCall c).SameBare v := by
  have hstep := u.callStep c
  generalize hw : u.stepCall c = w at hstep
  cases hstep with
  | stays => exact h
  | drained hk hp | expired hk hp | stopped hk hp =>
    have hu := hs _ hk
    rw [hp] at hu
    cases hu
  | @returns k result hk hp =>
    refine ⟨h.bare, (Array.size_modify ..).trans h.calls.size, fun n => ?_⟩
    have hn := h.calls.calls n
    rw [call?_setPhase]
    by_cases hc : c = n
    · subst hc
      rw [if_pos rfl]
      rw [hk] at hn ⊢
      generalize v.call? c = x at hn
      cases hn with
      | some hm =>
        have hphase := hm.phase
        rw [hp] at hphase
        exact .some ⟨hm.relay, hm.owner, hphase.returns⟩
    · rw [if_neg hc]
      exact hn

theorem stepCall (h : u.SameBare v) (c : Nat) : (u.stepCall c).SameBare (v.stepCall c) := by
  rcases h.call? c with ⟨hu, hv⟩ | ⟨k, j, hu, hv, hm⟩
  · simp only [World.stepCall, hu, hv]
    exact h
  · cases hs : k.phase.unsettled with
    | false =>
      have hleft : ∀ i, u.call? c = some i → i.phase.unsettled = false :=
        fun i hi => Option.mem_unique hu hi ▸ hs
      have hright : ∀ i, v.call? c = some i → i.phase.unsettled = false :=
        fun i hi => Option.mem_unique hv hi ▸ hm.phase.unsettled ▸ hs
      exact ((h.stepCall_left hleft).symm.stepCall_left hright).symm
    | true =>
      have hj := hm.phase.eq hs
      have hlive := h.liveWorkers j.relay
      simp only [World.stepCall, hu, hv, hm.relay, hj, hlive, h.now]
      cases hp : j.phase with
      | draining deadline =>
        dsimp only
        split
        · exact h.flush ..
        · split
          · have hcancel : (u.cancelAll j.relay).SameBare (v.cancelAll j.relay) :=
              h.commute (f := (World.cancelAll · j.relay)) (fun w => bare_cancelAll w _)
                fun _ => rfl
            exact hcancel.setPhase c _
          · exact h
      | cancelling pending =>
        dsimp only
        split
        · have hgrace : u.graceOf j.relay = v.graceOf j.relay :=
            h.same (f := (World.graceOf · j.relay)) fun w => graceOf_bare w j.relay
          rw [hgrace]
          exact h.flush ..
        · exact h
      | flushing | returned | dropped =>
        rw [hj, hp] at hs
        cases hs

theorem driveCall (h : u.SameBare v) (c : Nat) : (u.driveCall c).SameBare (v.driveCall c) :=
  (h.stepCall c).stepCall c

theorem beginShutdown (h : u.SameBare v) (r : Nat) (owner : Option SubscriberId) :
    Agree (u.beginShutdown r owner) (v.beginShutdown r owner) := by
  rw [World.beginShutdown, World.beginShutdown, h.calls.size]
  exact ⟨(h.openCall r owner).driveCall _, rfl⟩

end SameBare
end World
end Fanout
