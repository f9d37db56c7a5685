import Fanout.Proofs.Fifo

/-! # Removal is final

A subscriber that is removed never has another delivery begun. The delivery it is in the middle
of is let go of without a fault, unless the removal comes from the code of that very delivery:
then it goes on to its next wait or its end, and only then the worker looks at its token.
-/
namespace Fanout

def Phase.lastRows : Phase → List Row
  | .delivering _ => [.aborted]
  | .idle | .stopped | .crashed => []

def Phase.lastConclusions : Phase → List Conclusion
  | .delivering _ => [.cancelled]
  | .idle | .stopped | .crashed => []

/-- What may become of a subscriber whose token has fired, outside of its own slices: its worker
stops and lets go of its delivery. -/
structure Part.OnlyStops (p q : Part) : Prop where
  slice : q.slice = none
  faults : q.faults = p.faults
  started : q.started = p.started
  course : ∃ s t, p.sub = some s ∧ q.sub = some t ∧ t.cancelled = true ∧
    (t.phase = s.phase ∧ q.rows = p.rows ∧ q.conclusions = p.conclusions ∨
      t.live = false ∧ s.live = true ∧ q.rows = p.rows ++ s.phase.lastRows ∧
        q.conclusions = p.conclusions ++ s.phase.lastConclusions)

/-- How a slice `l` of a subscriber may end: its delivery waits, or it is over and its outcome is
recorded, with its fault on the bus. -/
inductive Part.SliceEnds (id : SubscriberId) (l : Slice) (p q : Part) : Prop where
  | waits {t : Subscriber} {d : Delivery} : q.slice = none → q.sub = some t →
    t.phase = .delivering d → d.message = l.message →
    q.conclusions = p.conclusions → q.faults = p.faults → SliceEnds id l p q
  | delivered {t : Subscriber} : q.slice = none → q.sub = some t → t.phase = .idle →
    q.conclusions = p.conclusions ++ [.delivered] → q.faults = p.faults → SliceEnds id l p q
  | faulted {s t : Subscriber} {w : World} {f : SinkFault} : q.slice = none → p.sub = some s →
    q.sub = some t → t.phase = .idle → f.endsDelivery = true →
    q.conclusions = p.conclusions ++ [.fault f] → q.faults = p.withFault w id s f →
    SliceEnds id l p q

/-- What may become of a subscriber whose token fires in the middle of its own slice `l`: the slice
goes on, or it has ended and the worker stops. -/
def Part.PlaysOut (id : SubscriberId) (l : Slice) (p q : Part) : Prop :=
  (∃ m, q.slice = some m ∧ m.message = l.message ∧ q.conclusions = p.conclusions ∧
    q.faults = p.faults) ∨ ∃ e, p.SliceEnds id l e ∧ e.OnlyStops q

namespace PartChange

variable {id : SubscriberId} {w v : World} {o p q : Part} {l : Slice}

theorem onlyStops (h : PartChange id w v p q) (hp : o.OnlyStops p) : o.OnlyStops q := by
  obtain ⟨s, t, hs, ht, hc, hcourse⟩ := hp.course
  have hstarted : q.started = o.started := (h.started ht (.inl hc)).trans hp.started
  have hslice := hp.slice
  cases h with
  | born hn | refused hn => cases hn.symm.trans ht
  | withdraw hu | halt hu =>
    obtain rfl := Option.mem_unique ht hu
    exact ⟨hslice, hp.faults, hstarted, s, _, hs, rfl, rfl, hcourse⟩
  | close => exact ⟨hslice, hp.faults, hstarted, s, t, hs, ht, hc, hcourse⟩
  | accept m hu =>
    obtain rfl := Option.mem_unique ht hu
    exact ⟨hslice, hp.faults, hstarted, s, _, hs, rfl, hc, hcourse⟩
  | begin hu _ _ hf | crash hu _ _ hf | poll hu _ _ hf =>
    obtain rfl := Option.mem_unique ht hu
    cases hc.symm.trans hf
  | row hm | engage _ hm | back hm | finish _ hm | fail _ hm | overrun _ hm | wait _ hm =>
    cases hslice.symm.trans hm
  | abort hu _ hd =>
    obtain rfl := Option.mem_unique ht hu
    rcases hcourse with ⟨hph, hr, hk⟩ | ⟨hl, -⟩
    · have hsd := hph.symm.trans hd
      refine ⟨hslice, hp.faults, hstarted, s, _, hs, rfl, hc, .inr ⟨rfl, ?_, ?_, ?_⟩⟩
      · exact Subscriber.live_of_delivering hsd
      · rw [hr, hsd]
        rfl
      · rw [hk, hsd]
        rfl
    · cases hl.symm.trans (Subscriber.live_of_delivering hd)
  | stop hu _ hi =>
    obtain rfl := Option.mem_unique ht hu
    rcases hcourse with ⟨hph, hr, hk⟩ | ⟨hl, -⟩
    · have hsi := hph.symm.trans hi
      refine ⟨hslice, hp.faults, hstarted, s, _, hs, rfl, hc, .inr ⟨rfl, ?_, ?_, ?_⟩⟩
      · exact Subscriber.live_of_idle hsi
      · rw [hsi]
        exact hr.trans (List.append_nil _).symm
      · rw [hsi]
        exact hk.trans (List.append_nil _).symm
    · cases hl.symm.trans (Subscriber.live_of_idle hi)

end PartChange

theorem Part.OnlyStops.refl {p : Part} {s : Subscriber} (hl : p.slice = none) (hs : p.sub = some s)
    (hc : s.cancelled = true) : p.OnlyStops p :=
  ⟨hl, rfl, rfl, s, s, hs, hs, hc, .inl ⟨rfl, rfl, rfl⟩⟩

theorem PartChange.playsOut {id : SubscriberId} {w v : World} {o p q : Part} {l : Slice}
    (h : PartChange id w v p q) {s t : Subscriber} (hs : o.sub = some s) (ht : p.sub = some t)
    (hc : t.cancelled = true) (hr : t.relay = s.relay) (hk : t.name = s.name)
    (hp : o.PlaysOut id l p) : o.PlaysOut id l q := by
  have hfault : ∀ f, p.faults = o.faults → p.withFault w id t f = o.withFault w id s f := by
    intro f he
    unfold Part.withFault
    rw [he, hr, hk]
  rcases hp with ⟨m, hl, hm, hn, hf⟩ | ⟨e, he, hwith⟩
  · cases h with
    | born | refused | withdraw | close | halt | accept | row => exact .inl ⟨m, hl, hm, hn, hf⟩
    | begin _ hx | crash _ hx | poll _ hx | abort _ hx | stop _ hx => cases hx.symm.trans hl
    | engage r hx | back hx =>
      obtain rfl := Option.mem_unique hx hl
      exact .inl ⟨_, rfl, hm, hn, hf⟩
    | finish hu =>
      obtain rfl := Option.mem_unique ht hu
      refine .inr ⟨_, ?_, .refl rfl rfl hc⟩
      exact .delivered rfl rfl rfl (congrArg (· ++ [Conclusion.delivered]) hn) hf
    | fail hu _ _ ho =>
      obtain rfl := Option.mem_unique ht hu
      have hown := SinkFault.endsDelivery_of_isOwn ho
      refine .inr ⟨_, ?_, .refl rfl rfl hc⟩
      exact .faulted rfl hs rfl rfl hown (congrArg (· ++ [Conclusion.fault _]) hn) (hfault _ hf)
    | overrun hu =>
      obtain rfl := Option.mem_unique ht hu
      refine .inr ⟨_, ?_, .refl rfl rfl hc⟩
      exact .faulted rfl hs rfl rfl rfl (congrArg (· ++ [Conclusion.fault _]) hn) (hfault _ hf)
    | wait hu hx hd =>
      obtain rfl := Option.mem_unique ht hu
      obtain rfl := Option.mem_unique hx hl
      refine .inr ⟨_, ?_, .refl rfl rfl hc⟩
      exact .waits rfl rfl rfl (hd.trans hm) hn hf
  · exact .inr ⟨e, he, h.onlyStops hwith⟩

variable {a b : Moment} {id : SubscriberId}

theorem Transitions.onlyStops (hab : Transitions a b) (ha : a.Sound) {s : Subscriber}
    (hl : a.sliceOf id = none) (hs : a.world.subscriber? id = some s) (hc : s.cancelled = true) :
    (a.part id).OnlyStops (b.part id) :=
  Transitions.keeps (fun ht _ hp => ht.onlyStops hp) hab ha (.refl hl hs hc)

/-- A slice in the middle of which the token fires plays out. -/
theorem Transitions.playsOut (hab : Transitions a b) (ha : a.Sound) {s : Subscriber} {l : Slice}
    (hl : a.sliceOf id = some l) (hs : a.world.subscriber? id = some s) (hc : s.cancelled = true) :
    (a.part id).PlaysOut id l (b.part id) := by
  induction hab with
  | refl => exact .inl ⟨l, hl, rfl, rfl, rfl⟩
  | @tail c d hac hcd ih =>
    obtain ⟨t, ht, hr, ⟨-, hk⟩, hcan, -⟩ := Transitions.subscriber hac ha hs
    rcases hcd.partChange (Transitions.sound hac ha) id with he | hchange
    · rw [he]
      exact ih
    · exact hchange.playsOut hs ht (hcan hc) hr hk ih

/-- A call that has removed a subscriber, through its relay or through its handle. -/
inductive World.Removes (w : World) (id : SubscriberId) : World → Prop where
  | unregister (r : Nat) : w.relayExists r = true → (w.unregister r id).2 = true →
    Removes w id (w.unregister r id).1
  | remove (h : Handle) : h.id = id → (w.remove h).2 = true → Removes w id (w.remove h).1

theorem World.Removes.withdraws {w v : World} (hv : w.Removes id v) :
    ∃ r, w.relayExists r = true ∧ id ∈ w.active r ∧ v = (w.unregister r id).1 ∧
      v = w.withdraw r id := by
  have hun : ∀ r, (w.unregister r id).2 = true →
      id ∈ w.active r ∧ (w.unregister r id).1 = w.withdraw r id := by
    intro r hr
    by_cases hm : id ∈ w.active r
    · exact ⟨hm, congrArg Prod.fst (World.unregister_of_mem hm)⟩
    · rw [World.unregister_of_notMem hm] at hr
      cases hr
  cases hv with
  | unregister r he hr => exact ⟨r, he, (hun r hr).1, rfl, (hun r hr).2⟩
  | remove h hi hr =>
    subst hi
    unfold World.remove at hr ⊢
    cases hrel : h.relay with
    | none =>
      rw [hrel] at hr
      cases hr
    | some r =>
      simp only [hrel] at hr ⊢
      by_cases he : w.relayExists r = true
      · rw [if_pos he] at hr ⊢
        exact ⟨r, he, (hun r hr).1, rfl, (hun r hr).2⟩
      · rw [if_neg he] at hr
        cases hr

/-- After a call that has removed a subscriber none of its deliveries begins and nothing queued for
it is delivered. A delivery that is not running just then makes no further step, one that made the
call plays out its slice. Nothing else changes for anybody. -/
theorem removal_is_final (ha : a.Reached) {v : World} (hv : a.world.Removes id v) :
    let b : Moment := { a with world := v }
    b.Reached ∧
    (∃ s, a.world.subscriber? id = some s ∧ b.part id = { a.part id with
      sub := some { s with cancelled := true }
      active := fun n => (a.part id).active n ∧ n ≠ s.relay }) ∧
    (∀ i, i ≠ id → b.part i = a.part i) ∧
    ∀ c, Transitions b c →
      c.world.started id = a.world.started id ∧
      (∀ l, a.sliceOf id = some l → (b.part id).PlaysOut id l (c.part id)) ∧
      (a.sliceOf id = none → (b.part id).OnlyStops (c.part id)) ∧
      (c.sliceOf id = none → ∀ d, Transitions c d → (c.part id).OnlyStops (d.part id)) := by
  obtain ⟨r, hex, hm, rfl, hw⟩ := hv.withdraws
  obtain ⟨s, hs, rfl, -⟩ := ha.sound.member r id hm
  intro b
  have hstep : Transition a b := .unregister s.relay id hex
  have hb : b.Sound := hstep.sound ha.sound
  have hpart : b.part id = { a.part id with
      sub := some { s with cancelled := true }
      active := fun n => (a.part id).active n ∧ n ≠ s.relay } := by
    simp only [b, hw]
    exact part_withdraw ha.sound hs hm
  have hsb : b.world.subscriber? id = some { s with cancelled := true } :=
    congrArg Part.sub hpart
  refine ⟨ha.tail hstep, ⟨s, hs, hpart⟩, fun i hi => ?_, fun c hbc => ⟨?_, ?_, ?_, ?_⟩⟩
  · have hspares : a.world.Spares i b.world := by
      simp only [b, hw]
      exact World.spares_withdraw (World.lt_size_of_mem_active hm) hi.symm
    exact hspares.part rfl rfl
  · exact (hbc.started hb hsb (.inl rfl)).trans (congrArg Part.started hpart)
  · intro l hl
    exact hbc.playsOut hb hl hsb rfl
  · intro hl
    exact hbc.onlyStops hb hl hsb rfl
  · intro hl d hcd
    obtain ⟨t, ht, -, -, hc, -⟩ := hbc.subscriber hb hsb
    exact hcd.onlyStops (hbc.sound hb) hl ht (hc rfl)

/-- Two messages are on their way. -/
def Moment.laden : Moment :=
  ((Moment.opening {} [{ key := "sink", name := "sink" }]).publish 0 .empty).publish 0 .empty

theorem reached_laden : Moment.laden.Reached :=
  ((reached_opening {} (by decide) _).tail (.publish 0 .empty rfl)).tail (.publish 0 .empty rfl)

def Moment.midway : Moment :=
  { Moment.laden with
    world := Moment.laden.world.take ⟨0⟩ .empty [.empty]
    slice := some ⟨⟨0⟩, 0, .empty, none, none⟩ }

theorem reached_midway : Moment.midway.Reached := by
  have hs : Moment.laden.world.subscriber? ⟨0⟩ = some _ := rfl
  exact reached_laden.tail (.begin rfl hs rfl rfl rfl)

/-- The delivery removes its own subscriber. It plays out, and the other message stays behind. -/
theorem removal_is_final_midway : let v := (Moment.midway.world.unregister 0 ⟨0⟩).1
    let b : Moment := { Moment.midway with world := v }
    Moment.midway.world.Removes ⟨0⟩ v ∧ ∀ c, Transitions b c → c.world.started ⟨0⟩ = [.empty] ∧
      (b.part ⟨0⟩).PlaysOut ⟨0⟩ ⟨⟨0⟩, 0, .empty, none, none⟩ (c.part ⟨0⟩) := by
  intro v b
  have hv : Moment.midway.world.Removes ⟨0⟩ v := .unregister 0 rfl rfl
  refine ⟨hv, fun c hc => ?_⟩
  obtain ⟨-, -, -, hall⟩ := removal_is_final reached_midway hv
  obtain ⟨hs, hplay, -⟩ := hall c hc
  exact ⟨hs, hplay _ rfl⟩

end Fanout
