import Fanout.Proofs.Draining
import Fanout.Proofs.Feeding
import Fanout.Proofs.Walks

/-! # What loses a message

Only a call that removes a subscriber, or a shutdown of its relay whose grace runs out, cuts a
subscriber off from what is queued for it or being delivered to it. Names of relays that are
forgotten, handles that are forgotten and shutdown calls that are dropped do not.
-/
namespace Fanout

/-- What cuts a subscriber off: a call that removes it, or the end of the grace of a shutdown
of its relay. -/
inductive World.Severs (w : World) (id : SubscriberId) : World → Prop where
  | removal {v : World} : w.Removes id v → Severs w id v
  | expiry {s : Subscriber} {c : Nat} {k : Call} {deadline : Nat} :
    w.subscriber? id = some s → w.call? c = some k → k.relay = s.relay →
    k.phase = .draining deadline → w.liveWorkers k.relay ≠ 0 → deadline ≤ w.now →
    Severs w id (w.stepCall c)

def Moment.Severed (a : Moment) (id : SubscriberId) : Prop :=
  ∃ x y : Moment, x.Reached ∧ Transition x y ∧ x.world.Severs id y.world ∧ Transitions y a

/-- How a delivery ends without being cut off. -/
inductive Part.OwnEnd (p : Part) (w : World) (s : Subscriber) : Conclusion → Prop where
  | delivered : OwnEnd p w s .delivered
  | failed {f : SinkFault} : f.isOwn = true → OwnEnd p w s (.fault f)
  | overdue {l : Slice} {time : Nat} : p.slice = some l → l.deadline = some time → time ≤ w.now →
    OwnEnd p w s (.fault (.timedOut (w.timeoutOf s.relay)))

structure Part.Untouched (p : Part) : Prop where
  slice : p.slice = none
  enqueued : p.enqueued = []
  started : p.started = []
  conclusions : p.conclusions = []

theorem Part.Untouched.rests {p q : Part} (hp : p.Untouched) (h : p.Rests q) : q.Untouched where
  slice := h.slice
  enqueued := h.enqueued.trans hp.enqueued
  started := (congrArg (·.filterMap Row.message?) h.rows).trans hp.started
  conclusions := h.conclusions.trans hp.conclusions

namespace PartChange

variable {id : SubscriberId} {w v : World} {p q : Part} {s t : Subscriber}

theorem severs (h : PartChange id w v p q) (hsub : p.sub = w.subscriber? id)
    (hact : ∀ n, p.active n ↔ id ∈ w.active n) (hs : p.sub = some s) (hf : s.cancelled = false)
    (ht : q.sub = some t) (hc : t.cancelled = true) : w.Severs id v := by
  cases h with
  | born hn | refused hn => cases hn.symm.trans hs
  | @withdraw u hu ha he hv =>
    have hw := World.unregister_of_mem ((hact _).mp ha)
    have hr := World.Removes.unregister u.relay he (congrArg Prod.snd hw)
    rw [hw, ← hv] at hr
    exact .removal hr
  | halt hu hk hr hp _ _ hl hd hv =>
    rw [hv]
    exact .expiry (hsub.symm.trans hu) hk hr hp hl hd
  | close | poll | row | engage | back =>
    obtain rfl := Option.mem_unique hs ht
    cases hf.symm.trans hc
  | accept _ hu | begin hu | crash hu | finish hu | fail hu | overrun hu | wait hu | abort hu
  | stop hu =>
    obtain rfl := Option.mem_unique hs hu
    obtain rfl := Option.some.inj ht
    cases hf.symm.trans hc

theorem refuses (h : PartChange id w v p q) (hp : p.Sound id) (ho : p.Ordered) (hj : p.Judged)
    (hn : p.sub = none) (ht : q.sub = some t) (hc : t.cancelled = true) :
    t.live = false ∧ q.Untouched := by
  have hslice : p.slice = none := by
    cases hl : p.slice with
    | none => rfl
    | some l =>
      obtain ⟨-, s, hs, -⟩ := hp.slice l hl
      cases hn.symm.trans hs
  cases h with
  | born _ _ hf =>
    obtain rfl := Option.some.inj ht
    cases hf.symm.trans hc
  | refused _ hi =>
    obtain rfl := Option.some.inj ht
    obtain ⟨he, hst⟩ := ho.unborn hn
    exact ⟨by rw [Subscriber.live, hi]; rfl, hslice, he, hst, hj.unborn hn⟩
  | withdraw hu | halt hu | accept _ hu | begin hu | crash hu | poll hu | finish hu | fail hu
  | overrun hu | wait hu | abort hu | stop hu => cases hn.symm.trans hu
  | close | row | engage | back => cases hn.symm.trans ht

theorem concludes (h : PartChange id w v p q) (hs : p.sub = some s) {x : Conclusion}
    (hx : q.conclusions = p.conclusions ++ [x]) :
    p.OwnEnd w s x ∨ s.live = true ∧ s.cancelled = true ∨ s.sink.BringsDown s.begun := by
  have hlast : ∀ {y : Conclusion}, p.conclusions ++ [y] = p.conclusions ++ [x] → y = x :=
    fun he => List.singleton_inj.mp (List.append_cancel_left he)
  cases h with
  | born | refused | withdraw | close | halt | accept | begin | poll | row | engage | back | wait
  | stop => cases List.self_eq_append_right.mp hx
  | finish =>
    obtain rfl := hlast hx
    exact .inl .delivered
  | fail _ _ _ hf =>
    obtain rfl := hlast hx
    exact .inl (.failed hf)
  | overrun hu hl hd =>
    obtain rfl := hlast hx
    obtain rfl := Option.mem_unique hs hu
    obtain ⟨time, ht, hle⟩ := hd
    exact .inl (.overdue hl ht hle)
  | crash hu _ _ _ _ hb =>
    obtain rfl := Option.mem_unique hs hu
    exact .inr (.inr hb)
  | abort hu _ hd hc =>
    obtain rfl := Option.mem_unique hs hu
    exact .inr (.inl ⟨Subscriber.live_of_delivering hd, hc⟩)

end PartChange

variable {a b : Moment} {id : SubscriberId} {s t : Subscriber}

theorem Transition.severs (h : Transition a b) (ha : a.Sound) (hs : a.world.subscriber? id = some s)
    (hf : s.cancelled = false) (ht : b.world.subscriber? id = some t)
    (hc : t.cancelled = true) : a.world.Severs id b.world := by
  rcases h.partChange ha id with he | hchange
  · have he : b.world.subscriber? id = a.world.subscriber? id := congrArg Part.sub he
    obtain rfl := Option.mem_unique (he.trans hs) ht
    cases hf.symm.trans hc
  · exact hchange.severs rfl (fun _ => Iff.rfl) hs hf ht hc

theorem Moment.Severed.tail (ha : a.Severed id) (h : Transition a b) : b.Severed id := by
  obtain ⟨x, y, hx, hxy, hs, hya⟩ := ha
  exact ⟨x, y, hx, hxy, hs, hya.tail h⟩

/-- Whose token has fired, has been cut off, or was refused at its registration. -/
theorem Moment.Reached.severed (ha : a.Reached) : ∀ {s : Subscriber},
    a.world.subscriber? id = some s → s.cancelled = true →
    a.Severed id ∨ s.live = false ∧ (a.part id).Untouched := by
  induction ha with
  | refl =>
    intro s hs
    cases hs
  | @tail c d hac hcd ih =>
    intro t ht hc
    have hsound := Transitions.sound hac sound_empty
    cases hs : c.world.subscriber? id with
    | none =>
      rcases hcd.partChange hsound id with he | hchange
      · cases ht.symm.trans ((congrArg Part.sub he).trans hs)
      · exact .inr (hchange.refuses (hsound.part id) (Moment.Reached.ordered hac id)
          (Moment.Reached.judged hac id) hs ht hc)
    | some s =>
      cases hf : s.cancelled with
      | false => exact .inl ⟨c, d, hac, hcd, hcd.severs hsound hs hf ht hc, .refl⟩
      | true =>
        rcases ih hs hf with hsev | ⟨hl, hun⟩
        · exact .inl (hsev.tail hcd)
        · obtain ⟨u, hu, -, -, -, hdead⟩ := Transitions.subscriber (.single hcd) hsound hs
          obtain rfl := Option.mem_unique hu ht
          refine .inr ⟨by rw [Subscriber.live, (hdead hl).1]; exact hl, ?_⟩
          rcases hcd.partChange hsound id with he | hchange
          · rw [he]
            exact hun
          · refine hun.rests (hchange.rests (fun s' hs' => ?_) ⟨hun.slice, rfl, rfl, rfl, rfl⟩)
            obtain rfl := Option.mem_unique hs hs'
            exact hl

theorem Moment.Reached.severed_of_live (ha : a.Reached) (hs : a.world.subscriber? id = some s)
    (hl : s.live = true) (hc : s.cancelled = true) : a.Severed id := by
  rcases ha.severed hs hc with hsev | ⟨hd, -⟩
  · exact hsev
  · cases hl.symm.trans hd

/-- Nobody can be cut off from a relay that exists no more. -/
theorem World.Severs.existence (hv : a.world.Severs id b.world) (ha : a.Sound)
    (hs : a.world.subscriber? id = some s) : a.world.relayExists s.relay = true := by
  generalize b.world = v at hv
  cases hv with
  | removal hr =>
    obtain ⟨r, he, hm, -⟩ := hr.withdraws
    obtain ⟨t, ht, rfl, -⟩ := ha.member r id hm
    obtain rfl := Option.mem_unique hs ht
    exact he
  | expiry hs' hk hr hp =>
    obtain rfl := Option.mem_unique hs hs'
    refine (World.relayExists_iff _ _).mpr (.inr ⟨_, Array.mem_of_getElem? hk, hr, ?_⟩)
    rw [hp]
    rfl

theorem Transitions.unsevered (hab : Transitions a b) (ha : a.Sound)
    (hs : a.world.subscriber? id = some s) (hf : s.cancelled = false)
    (hr : a.world.relayExists s.relay = false) :
    ∃ t, b.world.subscriber? id = some t ∧ t.cancelled = false := by
  induction hab with
  | refl => exact ⟨s, hs, hf⟩
  | @tail c d hac hcd ih =>
    obtain ⟨t, ht, hft⟩ := ih
    have hc := Transitions.sound hac ha
    obtain ⟨t', ht', hrel, -⟩ := Transitions.subscriber hac ha hs
    obtain rfl := Option.mem_unique ht ht'
    obtain ⟨u, hu, -⟩ := Transitions.subscriber (.single hcd) hc ht
    refine ⟨u, hu, Bool.eq_false_iff.mpr fun hcan => ?_⟩
    have he := (hcd.severs hc ht hft hu hcan).existence hc ht
    rw [hrel] at he
    cases hr.symm.trans (Transitions.existence hac ha (ha.housed id s hs) he)

/-- Nothing of a subscriber is lost: what was enqueued to it has begun or waits in its queue,
each delivery that has begun is underway or has ended by itself, and the worker is there until
all of that is done. -/
structure Moment.Intact (a : Moment) (id : SubscriberId) (s : Subscriber) : Prop where
  order : a.enqueued id = a.world.started id ++ s.queue
  counted : (a.world.started id).length =
    (a.world.conclusions id).length + (a.part id).isUnderway.toNat
  ended : ∀ x ∈ a.world.conclusions id, x = .delivered ∨ ∃ f, x = .fault f ∧ f.endsDelivery = true
  exited : s.live = false → s.queue = [] ∧ (a.part id).isUnderway = false

theorem Moment.Reached.intact (ha : a.Reached) (hs : a.world.subscriber? id = some s)
    (hg : ∀ n, ¬ s.sink.BringsDown n) (hc : s.cancelled = false) : a.Intact id s := by
  have hacc : s.Accounts (a.enqueued id) (a.world.started id) := (ha.ordered id).accounts s hs
  have hp : s.phase ≠ .crashed := fun hp => hg _ (hacc.crashed hp)
  refine ⟨?_, ha.counted id, fun x hx => ?_,
    fun hl => ⟨hacc.exited hl, (ha.sound.part id).not_underway hs hl⟩⟩
  · obtain ⟨lost, he, hl | hf | ⟨-, hf⟩⟩ := hacc.order
    · rw [he, hl, List.append_nil]
    · exact absurd hf hp
    · cases hc.symm.trans hf
  · have hbefits := (ha.judged id).befits s hs x hx
    cases x with
    | delivered => exact .inl rfl
    | fault f => exact .inr ⟨f, rfl, hbefits⟩
    | cancelled => cases hc.symm.trans hbefits
    | crashed => exact absurd hbefits hp

theorem Moment.Reached.intact_of_untouched (ha : a.Reached)
    (hs : a.world.subscriber? id = some s) (hl : s.live = false) (hun : (a.part id).Untouched) :
    a.Intact id s := by
  have hacc : s.Accounts (a.enqueued id) (a.world.started id) := (ha.ordered id).accounts s hs
  have hq := hacc.exited hl
  have hcon : a.world.conclusions id = [] := hun.conclusions
  refine ⟨?_, ha.counted id, fun x hx => ?_,
    fun _ => ⟨hq, (ha.sound.part id).not_underway hs hl⟩⟩
  · rw [hq, List.append_nil]
    exact hun.enqueued.trans hun.started.symm
  · rw [hcon] at hx
    cases hx

theorem World.remove_of_gone {w : World} {h : Handle} {r : Nat} (hh : h.relay = some r)
    (hr : w.relayExists r = false) : w.remove h = (w, false) := by
  simp [World.remove, hh, hr]

/-- A subscriber whose sink is guarded loses what is queued or being delivered only when it is
cut off. That its relay is gone does not lose anything: the worker stops when all is delivered,
and no handle removes it any more. A handle that is forgotten changes nothing. -/
theorem only_severed_lose (ha : a.Reached) (hs : a.world.subscriber? id = some s)
    (hg : ∀ n, ¬ s.sink.BringsDown n) :
    (∀ b t, Transition a b → b.world.subscriber? id = some t → s.live = true → t.live = false →
      s.queue ≠ [] ∨ (a.part id).isUnderway = true → a.Severed id) ∧
    (∀ b x, Transition a b → b.world.conclusions id = a.world.conclusions id ++ [x] →
      (a.part id).OwnEnd a.world s x ∨ a.Severed id) ∧
    (¬ a.Severed id → a.Intact id s) ∧
    (a.world.relayExists s.relay = false → ∀ b, Transitions a b →
      (∀ h : Handle, h.relay = some s.relay → b.world.remove h = (b.world, false)) ∧
      (id ∈ a.world.active s.relay → ∃ t, b.world.subscriber? id = some t ∧ b.Intact id t ∧
        b.enqueued id = a.enqueued id ∧
        (t.live = false → b.world.started id = a.enqueued id))) ∧
    ∀ name, let b : Moment := { a with world := a.world.forgetHandle name }
      Transition a b ∧ (∀ r, b.world.active r = a.world.active r) ∧ ∀ i, b.part i = a.part i := by
  refine ⟨fun b t hab ht hl hd hq => ?_, fun b x hab hx => ?_, fun hsev => ?_,
    fun hr b hab => ⟨fun h hh => ?_, fun hi => ?_⟩, fun name => ?_⟩
  · rcases hab.exits ha.sound hs ht hl hd with hc | ⟨hslice, hi, hn, -⟩ | ⟨-, hb⟩
    · exact ha.severed_of_live hs hl hc
    · rcases hq with hq | hu
      · exact absurd hn hq
      · have hpart : (a.part id).slice = none := hslice
        have hsub : (a.part id).sub = some s := hs
        simp [Part.isUnderway, hpart, hsub, hi, Phase.delivery?] at hu
    · exact absurd hb (hg _)
  · rcases hab.partChange ha.sound id with he | hchange
    · have he : b.world.conclusions id = a.world.conclusions id := congrArg Part.conclusions he
      cases List.self_eq_append_right.mp (he.symm.trans hx)
    · rcases hchange.concludes hs hx with hown | ⟨hl, hc⟩ | hb
      · exact .inl hown
      · exact .inr (ha.severed_of_live hs hl hc)
      · exact absurd hb (hg _)
  · cases hc : s.cancelled with
    | false => exact ha.intact hs hg hc
    | true =>
      obtain ⟨hl, hun⟩ := (ha.severed hs hc).resolve_left hsev
      exact ha.intact_of_untouched hs hl hun
  · apply World.remove_of_gone hh
    cases he : b.world.relayExists s.relay with
    | false => rfl
    | true => cases hr.symm.trans (hab.existence ha.sound (ha.sound.housed id s hs) he)
  · obtain ⟨s', hs', -, hf⟩ := ha.sound.member _ id hi
    obtain rfl := Option.mem_unique hs hs'
    have hfed : a.world.isFed id = false := by
      rw [Bool.eq_false_iff]
      intro hfed
      obtain ⟨u, hu, he, -⟩ := World.isFed_iff.mp hfed
      obtain rfl := Option.mem_unique hs hu
      cases hr.symm.trans he
    obtain ⟨t, ht, hft⟩ := hab.unsevered ha.sound hs hf hr
    obtain ⟨t', ht', -, ⟨hk, -⟩, -⟩ := hab.subscriber ha.sound hs
    obtain rfl := Option.mem_unique ht ht'
    have hin := (ha.trans hab).intact ht (hk ▸ hg) hft
    have he := hab.enqueued ha.sound hs hfed
    refine ⟨t, ht, hin, he, fun hl => ?_⟩
    rw [← he, hin.order, (hin.exited hl).1, List.append_nil]
  · have hv := World.sameCore_handles a.world (a.world.handles.filter (·.1 != name))
    exact ⟨.sameCore hv, fun r => hv.active r, fun i => (hv.spares i).part rfl rfl⟩

/-- Two messages are on their way when the last name of their relay is forgotten. -/
def Moment.orphaned : Moment :=
  { Moment.laden with world := Moment.laden.world.forgetRelay "relay" }

theorem reached_orphaned : Moment.orphaned.Reached :=
  reached_laden.tail (.sameCore (World.sameCore_forgetRelay _ "relay"))

/-- Both are delivered before the worker stops. -/
theorem only_severed_lose_orphaned : Moment.orphaned.world.relayExists 0 = false ∧
    ∀ b, Transitions Moment.orphaned b → ∃ t, b.world.subscriber? ⟨0⟩ = some t ∧
      (t.live = false → b.world.started ⟨0⟩ = [.empty, .empty]) := by
  have hs : Moment.orphaned.world.subscriber? ⟨0⟩ = some _ := rfl
  have hact : ⟨0⟩ ∈ Moment.orphaned.world.active 0 := List.mem_singleton.mpr rfl
  have hguard : ∀ n, ¬ Sink.BringsDown { key := "sink", name := "sink" } n :=
    fun n hn => by cases hn.1
  have hgone : Moment.orphaned.world.relayExists 0 = false := by decide +kernel
  obtain ⟨-, -, -, hkept, -⟩ := only_severed_lose reached_orphaned hs hguard
  refine ⟨hgone, fun b hb => ?_⟩
  obtain ⟨-, hall⟩ := hkept hgone b hb
  obtain ⟨t, ht, -, -, hend⟩ := hall hact
  exact ⟨t, ht, hend⟩

end Fanout
