import Fanout.Console
import Fanout.Proofs.Feeding
import Fanout.Proofs.Removal

/-! # Handles are one-shot

A handle removes its subscriber at most once, and only from the relay that issued it, as long as
that is open. The subscriber is active until then, and never again.
-/
namespace Fanout

variable {a b c d : Moment} {id : SubscriberId} {s : Subscriber} {r : Nat}

structure World.Lists (w : World) (r : Nat) (xs : List (String × SubscriberId)) : Prop where
  sorted : xs.Pairwise (·.1 ≤ ·.1)
  once : (xs.map (·.2)).Nodup
  mem : ∀ name id, (name, id) ∈ xs ↔ w.isActive r id = true ∧ name = w.nameOf id
  count : w.countOf r = xs.length

theorem World.lists_listing {w : World} {q : Relay} (hq : w.relay? r = some q)
    (hn : (w.active r).Nodup) : w.Lists r (w.listing q) := by
  have ha : w.active r = q.active := by simp [active, hq]
  have hperm : (w.listing q).Perm (q.active.map fun id => (w.nameOf id, id)) :=
    List.mergeSort_perm ..
  refine ⟨?_, ?_, fun name id => ?_, ?_⟩
  · have hsorted : (w.listing q).Pairwise fun x y => decide (x.1 ≤ y.1) = true := by
      refine List.pairwise_mergeSort (fun x y z hxy hyz => ?_) (fun x y => ?_) _
      · exact decide_eq_true (String.le_trans (of_decide_eq_true hxy) (of_decide_eq_true hyz))
      · simpa using String.le_total x.1 y.1
    exact hsorted.imp of_decide_eq_true
  · rw [(hperm.map _).nodup_iff, List.map_map, ← ha]
    exact (List.map_id _).symm ▸ hn
  · rw [hperm.mem_iff, isActive_iff, ha, List.mem_map]
    constructor
    · rintro ⟨i, hi, he⟩
      obtain ⟨rfl, rfl⟩ := Prod.mk.inj he
      exact ⟨hi, rfl⟩
    · rintro ⟨hi, rfl⟩
      exact ⟨id, hi, rfl⟩
  · rw [countOf, locked?_eq, hq, hperm.length_eq, List.length_map]
    rfl

theorem World.register_ok {w : World} {name : String} {sink : Sink} {h : Handle}
    (hh : (w.register r name sink).2 = .ok h) :
    h.id = ⟨w.subscribers.size⟩ ∧ sink.name = .given h.name ∧
      (w.closed r = true ∧ h.relay = none ∧
          (w.register r name sink).1 = w.turnAway r name sink h.name ∨
        w.closed r = false ∧ h.relay = some r ∧ r < w.relays.size ∧ ∃ capacity,
          (w.register r name sink).1 = w.enroll r
            { relay := r, relayName := name, sink := sink, name := h.name
              capacity := capacity }) := by
  simp only [register, locked?_eq] at hh ⊢
  cases ht : sink.name with
  | panics p =>
    rw [ht] at hh
    cases hh
  | given title =>
    rw [ht] at hh
    cases hq : w.relay? r with
    | none =>
      rw [hq] at hh
      cases hh
    | some q =>
      rw [hq] at hh
      dsimp only at hh ⊢
      by_cases hc : q.closed = true
      · rw [if_pos hc] at hh ⊢
        cases hh
        exact ⟨rfl, rfl, .inl ⟨by simp [closed, hq, hc], rfl, rfl⟩⟩
      · rw [if_neg hc] at hh ⊢
        cases hcap : queueCapacity? sink.capacity with
        | error info =>
          rw [hcap] at hh
          cases hh
        | ok capacity =>
          rw [hcap] at hh
          cases hh
          have ho : w.closed r = false := by simpa [closed, hq] using hc
          exact ⟨rfl, rfl, .inr ⟨ho, rfl, lt_size_of_relay? hq, capacity, rfl⟩⟩

theorem registered (ha : a.Sound) {name : String} {sink : Sink} {h : Handle}
    (hh : (a.world.register r name sink).2 = .ok h) :
    (∃ s, (a.world.register r name sink).1.subscriber? h.id = some s ∧ s.relay = r ∧
      s.name = h.name) ∧
    ∀ n, (a.world.register r name sink).1.isActive n h.id = true ↔
      n = r ∧ a.world.closed r = false := by
  have hfresh : ∀ n, ⟨a.world.subscribers.size⟩ ∉ a.world.active n := by
    intro n hn
    obtain ⟨s, hs, -⟩ := ha.member n _ hn
    exact World.serial_ne_size hs rfl
  obtain ⟨hi, -, ⟨hc, -, he⟩ | ⟨ho, -, hr, capacity, he⟩⟩ := World.register_ok hh
  · rw [he, hi]
    refine ⟨⟨_, (World.subscriber?_push ..).trans (if_pos rfl), rfl, rfl⟩, fun n => ?_⟩
    rw [World.isActive_iff]
    constructor
    · intro hn
      exact absurd hn (hfresh n)
    · rintro ⟨-, ho⟩
      cases hc.symm.trans ho
  · rw [he, hi]
    refine ⟨⟨_, (World.subscriber?_enroll ..).trans (if_pos rfl), rfl, rfl⟩, fun n => ?_⟩
    rw [World.isActive_iff, World.active_enroll hr]
    by_cases hn : r = n
    · subst hn
      simp [ho]
    · have hn' : n ≠ r := fun h => hn h.symm
      simp [hn, hn', hfresh n]

/-- In this moment a subscriber is not removed, nor is its relay closed. -/
def Moment.Undisturbed (id : SubscriberId) (r : Nat) (c d : Moment) : Prop :=
  Transition c d ∧ ¬ c.world.Removes id d.world ∧
    ¬ (c.world.closed r = false ∧ d.world.closed r = true)

/-- Only a removal or a shutdown ends being active. -/
theorem PartChange.deactivates {w v : World} {p q : Part} (h : PartChange id w v p q)
    (hs : p.sub = some s) (hp : p.active s.relay) : q.active s.relay ∨
      (w.relayExists s.relay = true ∧ v = w.withdraw s.relay id) ∨ v.closed s.relay = true := by
  cases h with
  | born => exact .inl (.inl hp)
  | withdraw ht _ he hv =>
    obtain rfl := Option.mem_unique hs ht
    exact .inr (.inl ⟨he, hv⟩)
  | close n hc =>
    by_cases hn : s.relay = n
    · exact .inr (.inr (hn ▸ hc))
    · exact .inl ⟨hp, hn⟩
  | engage n _ _ _ _ hc =>
    by_cases hn : s.relay = n
    · exact .inr (.inr (hn ▸ hc))
    · exact .inl ⟨hp, hn⟩
  | refused | halt | accept | begin | crash | poll | row | back | finish | fail | overrun | wait
  | abort | stop => exact .inl hp

theorem World.Removes.finds (ha : a.Sound) (hs : a.world.subscriber? id = some s) {v : World}
    (hv : a.world.Removes id v) : a.world.relayExists s.relay = true ∧
      id ∈ a.world.active s.relay ∧ a.world.closed s.relay = false ∧
      v = a.world.withdraw s.relay id := by
  obtain ⟨n, hex, hm, -, hw⟩ := hv.withdraws
  obtain ⟨t, ht, rfl, -⟩ := ha.member n id hm
  obtain rfl := Option.mem_unique hs ht
  refine ⟨hex, hm, ?_, hw⟩
  rw [Bool.eq_false_iff]
  intro hc
  rw [ha.shut _ hc] at hm
  cases hm

theorem World.removes_withdraw {w : World} (hex : w.relayExists r = true)
    (hm : id ∈ w.active r) : w.Removes id (w.withdraw r id) := by
  have he := World.unregister_of_mem hm
  have hv : w.Removes id (w.unregister r id).1 := .unregister r hex (by rw [he])
  rw [he] at hv
  exact hv

theorem inactive_withdraw (ha : a.Sound) (r : Nat) (id : SubscriberId) :
    id ∉ (a.world.withdraw r id).active r := by
  rw [World.active_withdraw, if_pos rfl]
  exact (ha.nodup r).not_mem_erase

theorem Transition.isActive_iff (h : Transition c d) (hc : c.Sound)
    (hs : c.world.subscriber? id = some s) :
    d.world.isActive s.relay id = true ↔
      c.world.isActive s.relay id = true ∧ c.Undisturbed id s.relay d := by
  rw [World.isActive_iff, World.isActive_iff]
  constructor
  · intro hact
    refine ⟨?_, h, fun hv => ?_, fun ⟨_, hclosed⟩ => ?_⟩
    · rcases h.partChange hc id with he | ht
      · exact (congrFun (congrArg Part.active he) s.relay).mp hact
      · exact ht.active hs hact
    · obtain ⟨-, -, -, he⟩ := hv.finds hc hs
      rw [he] at hact
      exact inactive_withdraw hc s.relay id hact
    · rw [(h.sound hc).shut _ hclosed] at hact
      cases hact
  · rintro ⟨hact, -, hv, hclosed⟩
    rcases h.partChange hc id with he | ht
    · exact (congrFun (congrArg Part.active he) s.relay).mpr hact
    · rcases ht.deactivates hs hact with hq | ⟨hex, he⟩ | hcl
      · exact hq
      · exact absurd (he ▸ World.removes_withdraw hex hact) hv
      · refine absurd ⟨?_, hcl⟩ hclosed
        rw [Bool.eq_false_iff]
        intro ho
        rw [hc.shut _ ho] at hact
        cases hact

theorem Transitions.inactive (hab : Transitions a b) (ha : a.Sound)
    (hs : a.world.subscriber? id = some s) (hn : id ∉ a.world.active s.relay) :
    id ∉ b.world.active s.relay := by
  induction hab with
  | refl => exact hn
  | @tail c d hac hcd ih =>
    obtain ⟨t, ht, hr, -⟩ := Transitions.subscriber hac ha hs
    intro hact
    rw [← World.isActive_iff, ← hr] at hact
    have hc := ((hcd.isActive_iff (Transitions.sound hac ha) ht).mp hact).1
    rw [hr, World.isActive_iff] at hc
    exact ih hc

/-- A subscriber is active as long as nothing has disturbed it. -/
theorem Transitions.isActive_iff (hab : Transitions a b) (ha : a.Sound)
    (hs : a.world.subscriber? id = some s) :
    b.world.isActive s.relay id = true ↔ a.world.isActive s.relay id = true ∧
      Relation.ReflTransGen (Moment.Undisturbed id s.relay) a b := by
  constructor
  · intro hact
    induction hab with
    | refl => exact ⟨hact, .refl⟩
    | @tail c d hac hcd ih =>
      obtain ⟨t, ht, hr, -⟩ := Transitions.subscriber hac ha hs
      rw [← hr] at hact
      obtain ⟨hc, hu⟩ := (hcd.isActive_iff (Transitions.sound hac ha) ht).mp hact
      rw [hr] at hc hu
      obtain ⟨hact, hpath⟩ := ih hc
      exact ⟨hact, hpath.tail hu⟩
  · rintro ⟨hact, hpath⟩
    clear hab
    induction hpath with
    | refl => exact hact
    | @tail c d hac hcd ih =>
      have hpass : Transitions a c := Relation.ReflTransGen.mono (fun _ _ h => h.1) _ _ hac
      obtain ⟨t, ht, hr, -⟩ := hpass.subscriber ha hs
      have hd := (hcd.1.isActive_iff (hpass.sound ha) ht).mpr
      rw [hr] at hd
      exact hd ⟨ih, hcd⟩

/-- What can be done with handle `h` of relay `r` at some moment. It has been returned at moment
`b`, when the relay was open or not. -/
structure Moment.Offers (c b : Moment) (h : Handle) (r : Nat) (wasOpen : Prop) : Prop where
  /-- Both ways of removal are the same, but for a line of trace if there never was anything to
  remove. -/
  same : c.world.relayExists r = true → c.world.remove h = c.world.unregister r h.id ∨
    ¬ wasOpen ∧ c.world.remove h = (c.world, false) ∧
      c.world.unregister r h.id = (c.world.trace (.unregisterIgnored h.id), false)
  elsewhere : ∀ n, n ≠ r →
    c.world.unregister n h.id = (c.world.trace (.unregisterIgnored h.id), false)
  removal : ∀ v, c.world.Removes h.id v → wasOpen ∧ c.world.closed r = false ∧
    c.world.relayExists r = true ∧
    ∀ d, Transitions { c with world := v } d → ∀ u, ¬ d.world.Removes h.id u
  active : ∀ n, c.world.isActive n h.id = true ↔
    n = r ∧ wasOpen ∧ Relation.ReflTransGen (Moment.Undisturbed h.id r) b c
  stays : ∀ d, Transition c d → (d.world.isActive r h.id = true ↔
    c.world.isActive r h.id = true ∧ c.Undisturbed h.id r d)
  name : c.world.nameOf h.id = h.name

theorem World.Removes.last (ha : a.Sound) (hs : a.world.subscriber? id = some s) {v : World}
    (hv : a.world.Removes id v) (hd : Transitions { a with world := v } d) (u : World) :
    ¬ d.world.Removes id u := by
  intro hu
  obtain ⟨hex, -, -, he⟩ := hv.finds ha hs
  have hstep : Transition a { a with world := v } := by
    obtain ⟨n, hn, -, hv, -⟩ := hv.withdraws
    exact hv ▸ .unregister n id hn
  have hb := hstep.sound ha
  obtain ⟨t, ht, hr, -⟩ := Transitions.subscriber (.single hstep) ha hs
  obtain ⟨x, hx, hxr, -⟩ := hd.subscriber hb ht
  obtain ⟨-, hact, -⟩ := hu.finds (hd.sound hb) hx
  have hgone : id ∉ v.active t.relay := by
    rw [hr, he]
    exact inactive_withdraw ha s.relay id
  rw [hxr] at hact
  exact hd.inactive hb ht hgone hact

/-- At every moment the subscribers of a relay are listed by name, each once. A handle that a
relay returns offers one removal, through that relay or by itself, as long as the relay exists and
is open. It is active from the moment when it is returned until it is removed or its relay is
closed. -/
theorem handle_is_one_shot (ha : a.Reached) :
    (∀ n q, a.world.relay? n = some q → a.world.Lists n (a.world.listing q)) ∧
    ∀ r name sink h, a.world.relayExists r = true →
      (a.world.register r name sink).2 = .ok h →
      let b : Moment := { a with world := (a.world.register r name sink).1 }
      b.Reached ∧
      (∀ n, b.world.isActive n h.id = true ↔ n = r ∧ a.world.closed r = false) ∧
      ∀ c, Transitions b c → c.Offers b h r (a.world.closed r = false) := by
  have hsound := ha.sound
  refine ⟨fun n q hq => World.lists_listing hq (hsound.nodup n), fun r name sink h hr hh => ?_⟩
  intro b
  have htransition : Transition a b := .register r name sink hr
  have hb := htransition.sound hsound
  obtain ⟨⟨s, hs, rfl, hname⟩, hact⟩ := registered hsound hh
  have hs : b.world.subscriber? h.id = some s := hs
  have hact : ∀ n, b.world.isActive n h.id = true ↔ n = s.relay ∧
      a.world.closed s.relay = false := hact
  refine ⟨ha.tail htransition, hact, fun c hbc => ?_⟩
  have hc := hbc.sound hb
  obtain ⟨t, ht, htr, ⟨-, htn⟩, -⟩ := hbc.subscriber hb hs
  have helse : ∀ n, n ≠ s.relay → h.id ∉ c.world.active n := by
    intro n hn hm
    obtain ⟨u, hu, hur, -⟩ := hc.member n _ hm
    obtain rfl := Option.mem_unique ht hu
    exact hn (hur.symm.trans htr)
  have hiff := hbc.isActive_iff hb hs
  rw [hact] at hiff
  obtain ⟨-, -, hcases⟩ := World.register_ok hh
  refine ⟨fun hex => ?_, fun n hn => World.unregister_of_notMem (helse n hn), fun v hv => ?_,
    fun n => ?_, fun d hcd => ?_, ?_⟩
  · rcases hcases with ⟨hcl, hrel, -⟩ | ⟨-, hrel, -⟩
    · have hno : h.id ∉ c.world.active s.relay := by
        rw [← World.isActive_iff, hiff, hcl]
        simp
      refine .inr ⟨by simp [hcl], ?_, World.unregister_of_notMem hno⟩
      rw [World.remove, hrel]
    · refine .inl ?_
      simp only [World.remove, hrel, if_pos hex]
  · obtain ⟨hex, hm, ho, -⟩ := hv.finds hc ht
    rw [htr] at hex hm ho
    rw [← World.isActive_iff, hiff] at hm
    exact ⟨hm.1.2, ho, hex, fun d hd u => hv.last hc ht hd u⟩
  · constructor
    · intro hn
      by_cases he : n = s.relay
      · subst he
        obtain ⟨⟨-, ho⟩, hpath⟩ := hiff.mp hn
        exact ⟨rfl, ho, hpath⟩
      · exact absurd ((World.isActive_iff ..).mp hn) (helse n he)
    · rintro ⟨rfl, ho, hpath⟩
      exact hiff.mpr ⟨⟨rfl, ho⟩, hpath⟩
  · have hstep := hcd.isActive_iff hc ht
    rw [htr] at hstep
    exact hstep
  · rw [nameOf_eq ht, htn, hname]

/-- A handle that has removed its subscriber. -/
theorem handle_is_one_shot_removed :
    let w := (Moment.opening {} []).world
    let v := (w.register 0 "relay" { key := "sink", name := "sink" }).1
    let h : Handle := ⟨⟨0⟩, "sink", some 0⟩
    (w.register 0 "relay" { key := "sink", name := "sink" }).2 = .ok h ∧
      (v.remove h).2 = true ∧
      ∀ d, Transitions ⟨(v.remove h).1, none, []⟩ d → ∀ u, ¬ d.world.Removes h.id u := by
  intro w v h
  have hh : (w.register 0 "relay" { key := "sink", name := "sink" }).2 = .ok h := rfl
  have hr : (v.remove h).2 = true := rfl
  obtain ⟨-, hall⟩ := handle_is_one_shot (reached_opening {} (by decide) [])
  obtain ⟨-, -, hoffers⟩ := hall 0 "relay" _ h rfl hh
  obtain ⟨-, -, -, hlast⟩ := (hoffers _ .refl).removal _ (.remove h rfl hr)
  exact ⟨hh, hr, hlast⟩

end Fanout
