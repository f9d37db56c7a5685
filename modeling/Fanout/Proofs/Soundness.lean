import Fanout.Proofs.CallChanges
import Fanout.Proofs.RelayChanges

/-! # Every moment of a run is sound

The empty world is sound, and each transition leads from a sound moment to a sound one.
-/
namespace Fanout

/-- What soundness says of one subscriber. -/
structure Part.Sound (p : Part) (id : SubscriberId) : Prop where
  member : ∀ n, p.active n → ∃ s, p.sub = some s ∧ s.relay = n ∧ s.cancelled = false
  slice : ∀ l, p.slice = some l →
    l.id = id ∧ ∃ s, p.sub = some s ∧ s.relay = l.relay ∧ s.live = true

theorem Moment.Sound.part {a : Moment} (ha : a.Sound) (id : SubscriberId) :
    (a.part id).Sound id := by
  refine ⟨fun n hn => ha.member n id hn, fun l hl => ?_⟩
  obtain ⟨hslice, rfl⟩ := sliceOf_eq_some_iff.mp hl
  exact ⟨rfl, ha.slice l hslice⟩

theorem Part.Sound.live {p : Part} {id : SubscriberId} (hp : p.Sound id) {l : Slice}
    {s : Subscriber} (hl : p.slice = some l) (hs : p.sub = some s) : s.live = true := by
  obtain ⟨-, t, ht, -, hv⟩ := hp.slice l hl
  obtain rfl := Option.mem_unique hs ht
  exact hv

theorem Subscriber.live_of_idle {s : Subscriber} (hp : s.phase = .idle) : s.live = true := by
  rw [Subscriber.live, hp]
  rfl

theorem Subscriber.live_of_delivering {s : Subscriber} {d : Delivery}
    (hp : s.phase = .delivering d) : s.live = true := by
  rw [Subscriber.live, hp]
  rfl

namespace PartChange

variable {id : SubscriberId} {w v : World} {p q : Part} {c : Nat}

theorem sound (h : PartChange id w v p q) (hp : p.Sound id) : q.Sound id := by
  have hmember : ∀ {s t : Subscriber}, p.sub = some s → t.relay = s.relay →
      t.cancelled = s.cancelled → ∀ n, p.active n →
      ∃ u, some t = some u ∧ u.relay = n ∧ u.cancelled = false := by
    intro s t hs hr hc n hn
    obtain ⟨u, hu, hur, huc⟩ := hp.member n hn
    obtain rfl := Option.mem_unique hs hu
    exact ⟨t, rfl, hr.trans hur, hc.trans huc⟩
  have hslice : ∀ {s t : Subscriber}, p.sub = some s → t.relay = s.relay → t.live = s.live →
      ∀ l, p.slice = some l →
      l.id = id ∧ ∃ u, some t = some u ∧ u.relay = l.relay ∧ u.live = true := by
    intro s t hs hr hv l hl
    obtain ⟨hi, u, hu, hur, huv⟩ := hp.slice l hl
    obtain rfl := Option.mem_unique hs hu
    exact ⟨hi, t, rfl, hr.trans hur, hv.trans huv⟩
  have hunborn : p.sub = none → (∀ n, ¬ p.active n) ∧ p.slice = none := by
    intro hn
    constructor
    · intro n hact
      obtain ⟨t, ht, -⟩ := hp.member n hact
      cases hn.symm.trans ht
    · cases hl : p.slice with
      | none => rfl
      | some l =>
        obtain ⟨-, t, ht, -⟩ := hp.slice l hl
        cases hn.symm.trans ht
  cases h with
  | @born s hn _ hc =>
    obtain ⟨hact, hl⟩ := hunborn hn
    constructor
    · rintro n (hm | rfl)
      · exact absurd hm (hact n)
      · exact ⟨s, rfl, rfl, hc⟩
    · intro l hm
      cases hl.symm.trans hm
  | refused hn =>
    obtain ⟨hact, hl⟩ := hunborn hn
    constructor
    · intro n hm
      exact absurd hm (hact n)
    · intro l hm
      cases hl.symm.trans hm
  | @withdraw s hs =>
    constructor
    · rintro n ⟨hact, hne⟩
      obtain ⟨t, ht, hr, -⟩ := hp.member n hact
      obtain rfl := Option.mem_unique hs ht
      exact absurd hr.symm hne
    · exact hslice hs rfl rfl
  | close =>
    constructor
    · intro n hact
      exact hp.member n hact.1
    · exact hp.slice
  | halt hs _ _ _ _ hv =>
    constructor
    · intro n hact
      exact absurd hact (hv n)
    · exact hslice hs rfl rfl
  | accept m hs => exact ⟨hmember hs rfl rfl, hslice hs rfl rfl⟩
  | begin hs _ hi =>
    constructor
    · exact hmember hs rfl rfl
    · intro l hl
      obtain rfl := Option.some.inj hl
      exact ⟨rfl, _, rfl, rfl, Subscriber.live_of_idle hi⟩
  | @poll s d hs _ hd =>
    constructor
    · exact hp.member
    · intro l hl
      obtain rfl := Option.some.inj hl
      exact ⟨rfl, s, hs, rfl, Subscriber.live_of_delivering hd⟩
  | row => exact ⟨hp.member, hp.slice⟩
  | engage r hl =>
    constructor
    · intro n hact
      exact hp.member n hact.1
    · intro m hm
      obtain rfl := Option.some.inj hm
      have hlive := hp.slice _ hl
      exact hlive
  | back hl =>
    constructor
    · exact hp.member
    · intro m hm
      obtain rfl := Option.some.inj hm
      have hlive := hp.slice _ hl
      exact hlive
  | finish hs | fail hs | overrun hs | wait hs =>
    constructor
    · exact hmember hs rfl rfl
    · intro l hl
      cases hl
  | crash hs hl | abort hs hl | stop hs hl =>
    constructor
    · exact hmember hs rfl rfl
    · intro m hm
      cases hl.symm.trans hm

/-- Relay, sink and name of a subscriber never change, its token fires for good, and a worker that
is gone does not come back. -/
theorem sub (h : PartChange id w v p q) {s : Subscriber} (hs : p.sub = some s) :
    ∃ t, q.sub = some t ∧ t.relay = s.relay ∧ (t.sink = s.sink ∧ t.name = s.name) ∧
      (s.cancelled = true → t.cancelled = true) ∧
      ((∀ l, p.slice = some l → s.live = true) → s.live = false →
        t.phase = s.phase ∧ t.queue = s.queue) := by
  cases h with
  | born hn | refused hn =>
    rw [hn] at hs
    cases hs
  | withdraw ht | halt ht =>
    obtain rfl := Option.mem_unique hs ht
    exact ⟨_, rfl, rfl, ⟨rfl, rfl⟩, fun _ => rfl, fun _ _ => ⟨rfl, rfl⟩⟩
  | close | row | engage | back => exact ⟨s, hs, rfl, ⟨rfl, rfl⟩, fun h => h, fun _ _ => ⟨rfl, rfl⟩⟩
  | accept m ht hl =>
    obtain rfl := Option.mem_unique hs ht
    refine ⟨_, rfl, rfl, ⟨rfl, rfl⟩, fun h => h, fun _ hd => ?_⟩
    rw [hl] at hd
    cases hd
  | begin ht _ hp | crash ht _ hp | stop ht _ hp =>
    obtain rfl := Option.mem_unique hs ht
    refine ⟨_, rfl, rfl, ⟨rfl, rfl⟩, fun h => h, fun _ hd => ?_⟩
    rw [Subscriber.live_of_idle hp] at hd
    cases hd
  | poll ht => exact ⟨s, hs, rfl, ⟨rfl, rfl⟩, fun h => h, fun _ _ => ⟨rfl, rfl⟩⟩
  | abort ht _ hp =>
    obtain rfl := Option.mem_unique hs ht
    refine ⟨_, rfl, rfl, ⟨rfl, rfl⟩, fun h => h, fun _ hd => ?_⟩
    rw [Subscriber.live_of_delivering hp] at hd
    cases hd
  | finish ht hl | fail ht hl | overrun ht hl | wait ht hl =>
    obtain rfl := Option.mem_unique hs ht
    refine ⟨_, rfl, rfl, ⟨rfl, rfl⟩, fun h => h, fun hlive hd => ?_⟩
    rw [hlive _ hl] at hd
    cases hd

theorem goesBy (h : PartChange id w v p q) (hp : ∀ s, p.sub = some s → s.sink.name = .given s.name)
    {t : Subscriber} (ht : q.sub = some t) : t.sink.name = .given t.name := by
  cases hs : p.sub with
  | some s =>
    obtain ⟨u, hu, -, ⟨hsink, hname⟩, -⟩ := h.sub hs
    obtain rfl := Option.mem_unique ht hu
    rw [hsink, hname]
    exact hp s hs
  | none =>
    cases h with
    | born _ _ _ _ _ _ _ _ hname | refused _ _ _ _ _ hname =>
      obtain rfl := Option.some.inj ht
      exact hname
    | close | row | engage | back => cases hs.symm.trans ht
    | withdraw hx | halt hx | accept _ hx | begin hx | crash hx | poll hx | finish hx | fail hx
    | overrun hx | wait hx | abort hx | stop hx => cases hs.symm.trans hx

theorem newborn_exists (h : PartChange id w v p q) {s : Subscriber} (hn : p.sub = none)
    (hs : q.sub = some s) : w.relayExists s.relay = true := by
  cases h with
  | born _ _ _ _ _ _ _ he =>
    obtain rfl := Option.some.inj hs
    exact he
  | refused _ _ _ _ he =>
    obtain rfl := Option.some.inj hs
    exact he
  | withdraw ht | halt ht | accept _ ht | begin ht | crash ht | poll ht | finish ht | fail ht
  | overrun ht | wait ht | abort ht | stop ht => cases hn.symm.trans ht
  | close | row | engage | back => cases hn.symm.trans hs

theorem newborn (h : PartChange id w v p q) {s : Subscriber} (hn : p.sub = none)
    (hs : q.sub = some s) : s.queue = [] ∧ s.relay < w.relays.size ∧
      (s.phase = .idle ∧ w.closed s.relay = false ∨
        s.phase = .stopped ∧ w.closed s.relay = true) := by
  cases h with
  | born _ hp _ hq hr hc =>
    obtain rfl := Option.some.inj hs
    exact ⟨hq, hr, .inl ⟨hp, hc⟩⟩
  | @refused t _ hp hq hc =>
    obtain rfl : t = s := Option.some.inj hs
    refine ⟨hq, ?_, .inr ⟨hp, hc⟩⟩
    rw [World.closed] at hc
    cases hr : w.relay? t.relay with
    | none =>
      rw [hr] at hc
      cases hc
    | some q => exact World.lt_size_of_relay? hr
  | withdraw ht | halt ht | accept _ ht | begin ht | crash ht | poll ht | finish ht | fail ht
  | overrun ht | wait ht | abort ht | stop ht =>
    rw [hn] at ht
    cases ht
  | close | row | engage | back =>
    rw [hn] at hs
    cases hs

theorem call?_eq_call {wait : Wait} {c : Nat} (hw : wait.call? = some c) : wait = .call c := by
  cases wait with
  | turn | «until» time | forever => cases hw
  | call n => rw [Option.some.inj hw]

theorem engaged (h : PartChange id w v p q) (he : p.Engaged c) :
    q.Engaged c ∨ ∀ k, v.call? c = some k → k.phase.pending = false := by
  rcases he with ⟨l, hl, hc⟩ | ⟨hl, s, d, hs, hp, hd⟩
  · cases h with
    | born | refused | withdraw | close | halt | accept | row => exact .inl (.inl ⟨l, hl, hc⟩)
    | begin _ hn | crash _ hn | poll _ hn | abort _ hn | stop _ hn => cases hn.symm.trans hl
    | engage r hj hn | finish _ hj hn | fail _ hj hn =>
      obtain rfl := Option.mem_unique hj hl
      cases hn.symm.trans hc
    | back hj hn hr =>
      obtain rfl := Option.mem_unique hj hl
      obtain rfl := Option.mem_unique hn hc
      refine .inr fun k hk => ?_
      rw [World.result?, hk] at hr
      obtain ⟨r, o, phase⟩ := k
      cases phase with
      | returned result | dropped => rfl
      | draining deadline | cancelling pending | flushing result => cases hr
    | overrun _ hj _ hv =>
      obtain rfl := Option.mem_unique hj hl
      exact .inr fun k hk => hv c k hc hk
    | wait _ hj _ _ hw =>
      obtain rfl := Option.mem_unique hj hl
      exact .inl (.inr ⟨rfl, _, _, rfl, rfl, call?_eq_call (hw.trans hc)⟩)
  · cases h with
    | born hn | refused hn => cases hn.symm.trans hs
    | close => exact .inl (.inr ⟨hl, s, d, hs, hp, hd⟩)
    | withdraw ht | halt ht | accept _ ht =>
      obtain rfl := Option.mem_unique hs ht
      exact .inl (.inr ⟨hl, _, d, rfl, hp, hd⟩)
    | begin ht _ hi | crash ht _ hi | stop ht _ hi =>
      obtain rfl := Option.mem_unique hs ht
      cases hi.symm.trans hp
    | poll ht _ hj =>
      obtain rfl := Option.mem_unique hs ht
      obtain rfl := Phase.delivering.inj (hj.symm.trans hp)
      exact .inl (.inl ⟨_, rfl, by rw [hd]; rfl⟩)
    | row hj | engage _ hj | back hj | finish _ hj | fail _ hj | overrun _ hj | wait _ hj =>
      cases hl.symm.trans hj
    | abort ht _ hj _ hv =>
      obtain rfl := Option.mem_unique hs ht
      obtain rfl := Phase.delivering.inj (hj.symm.trans hp)
      exact .inr fun k hk => hv c k hd hk

theorem engaged_of (h : PartChange id w v p q) (he : q.Engaged c) :
    p.Engaged c ∨ ∃ k, v.call? c = some k ∧ k.owner = some id := by
  rcases he with ⟨l, hl, hc⟩ | ⟨hl, s, d, hs, hp, hd⟩
  · cases h with
    | born | refused | withdraw | close | halt | accept | crash | row | abort | stop =>
      exact .inl (.inl ⟨l, hl, hc⟩)
    | begin =>
      obtain rfl := Option.some.inj hl
      cases hc
    | poll ht hn hj =>
      obtain rfl := Option.some.inj hl
      exact .inl (.inr ⟨hn, _, _, ht, hj, call?_eq_call hc⟩)
    | engage r hj hn hk ho =>
      obtain rfl := Option.some.inj hl
      obtain rfl := Option.some.inj hc
      exact .inr ⟨_, hk, ho⟩
    | back =>
      obtain rfl := Option.some.inj hl
      cases hc
    | finish | fail | overrun | wait => cases hl
  · cases h with
    | born _ hi =>
      obtain rfl := Option.some.inj hs
      cases hi.symm.trans hp
    | refused _ hi =>
      obtain rfl := Option.some.inj hs
      cases hi.symm.trans hp
    | close => exact .inl (.inr ⟨hl, s, d, hs, hp, hd⟩)
    | withdraw ht | halt ht | accept _ ht =>
      obtain rfl := Option.some.inj hs
      exact .inl (.inr ⟨hl, _, d, ht, hp, hd⟩)
    | begin | poll | engage | back => cases hl
    | row hj => cases hl.symm.trans hj
    | crash | finish | fail | overrun | abort | stop =>
      obtain rfl := Option.some.inj hs
      cases hp
    | wait ht hj _ _ hw =>
      obtain rfl := Option.some.inj hs
      obtain rfl := Phase.delivering.inj hp
      refine .inl (.inl ⟨_, hj, ?_⟩)
      rw [← hw, hd]
      rfl

end PartChange

variable {a b : Moment}

theorem Transition.part_sound (h : Transition a b) (ha : a.Sound) (id : SubscriberId) :
    (b.part id).Sound id := by
  rcases h.partChange ha id with he | ht
  · rw [he]
    exact ha.part id
  · exact ht.sound (ha.part id)

theorem Transition.housed (h : Transition a b) (ha : a.Sound) {id : SubscriberId} {t : Subscriber}
    (ht : b.world.subscriber? id = some t) : t.relay < b.world.relays.size := by
  have hle := (h.relayChange ha).relays_le
  cases hs : a.world.subscriber? id with
  | some s =>
    have hlt := ha.housed id s hs
    rcases h.partChange ha id with he | hchange
    · have he : b.world.subscriber? id = a.world.subscriber? id := congrArg Part.sub he
      obtain rfl := Option.mem_unique ht (he.trans hs)
      omega
    · obtain ⟨u, hu, hr, -⟩ := hchange.sub hs
      obtain rfl : u = t := Option.mem_unique hu ht
      omega
  | none =>
    rcases h.partChange ha id with he | hchange
    · have he : b.world.subscriber? id = a.world.subscriber? id := congrArg Part.sub he
      cases ht.symm.trans (he.trans hs)
    · obtain ⟨-, hlt, -⟩ := hchange.newborn hs ht
      omega

theorem relayExists_of_name {w : World} {x : String × Nat} (hx : x ∈ w.relayNames) :
    w.relayExists x.2 = true := by
  rw [World.relayExists, Bool.or_eq_true, List.any_eq_true]
  exact .inl ⟨x, hx, by simp⟩

theorem Transition.name_cases (h : Transition a b) {x : String × Nat}
    (hx : x ∈ b.world.relayNames) :
    a.world.relayExists x.2 = true ∨
      x.2 = a.world.relays.size ∧ x.2 < b.world.relays.size := by
  have hold : x ∈ a.world.relayNames → a.world.relayExists x.2 = true ∨
      x.2 = a.world.relays.size ∧ x.2 < b.world.relays.size :=
    fun hx => .inl (relayExists_of_name hx)
  cases h with
  | sameCore hv => exact .inl (hv.existence x.2 (relayExists_of_name hx))
  | build name config observers =>
    rcases World.relayNames_build _ _ _ _ hx with hx | hx
    · exact hold hx
    · exact .inr hx
  | register => exact hold (World.relayNames_register .. ▸ hx)
  | unregister => exact hold (World.relayNames_unregister .. ▸ hx)
  | publish => exact hold (World.relayNames_publish .. ▸ hx)
  | shutdown => exact hold (World.relayNames_openCall .. ▸ hx)
  | call c =>
    apply hold
    have hstep := a.world.callStep c
    change x ∈ (a.world.stepCall c).relayNames at hx
    generalize a.world.stepCall c = v at hstep hx
    cases hstep <;> exact hx
  | giveUp c =>
    apply hold
    change x ∈ (a.world.giveUp c).relayNames at hx
    rw [World.giveUp] at hx
    split at hx <;> exact hx
  | begin | crash | poll | row | back | stop => exact hold hx
  | @conclude l o hl ho =>
    cases o with
    | ended f => cases f <;> exact hold hx
    | crashed => exact ho.elim
    | waits wait rest =>
      change x ∈ (World.waitOn _ _ _ _).relayNames at hx
      rw [World.waitOn] at hx
      split at hx
      · exact hold (World.relayNames_abandon .. ▸ hx)
      · exact hold hx
  | abort => exact hold (World.relayNames_abandon .. ▸ hx)

theorem Transition.named (h : Transition a b) (ha : a.Sound) {x : String × Nat}
    (hx : x ∈ b.world.relayNames) : x.2 < b.world.relays.size := by
  have hle := (h.relayChange ha).relays_le
  rcases h.name_cases hx with hex | ⟨-, hlt⟩
  · have hlt := ha.named x.2 hex
    omega
  · exact hlt

theorem Transition.call_housed (h : Transition a b) (ha : a.Sound) {c : Nat} {k : Call}
    (hk : b.world.call? c = some k) : k.relay < b.world.relays.size := by
  have hle := (h.relayChange ha).relays_le
  cases hj : a.world.call? c with
  | some j =>
    obtain ⟨i, hi, ht⟩ := h.callChange hj
    obtain rfl := Option.mem_unique hi hk
    have hlt := ha.calls c j hj
    rw [ht.relay]
    omega
  | none =>
    obtain ⟨-, -, hex, -⟩ := h.call_new ha hj hk
    have hlt := ha.named k.relay hex
    omega

theorem Transition.unsettled (h : Transition a b) (ha : a.Sound) {c : Nat} {k : Call}
    (hk : b.world.call? c = some k) (hu : k.phase.unsettled = true) :
    (∃ j, a.world.call? c = some j ∧ j.phase.unsettled = true ∧ j.relay = k.relay) ∨
      c = a.world.calls.size ∧ a.world.closed k.relay = false ∧ b.world.closed k.relay = true := by
  cases hj : a.world.call? c with
  | some j =>
    obtain ⟨i, hi, ht⟩ := h.callChange hj
    obtain rfl := Option.mem_unique hi hk
    exact .inl ⟨j, rfl, ht.unsettled hu, ht.relay.symm⟩
  | none =>
    obtain ⟨-, hc, hex, hb, ⟨hp, -⟩ | ⟨-, ho⟩⟩ := h.call_new ha hj hk
    · rw [hp] at hu
      cases hu
    · refine .inr ⟨hc, ho, ?_⟩
      rw [hb]
      exact World.closed_openCall (ha.named k.relay hex) _

theorem Transition.sound (h : Transition a b) (ha : a.Sound) : b.Sound where
  nodup := by
    apply (h.relayChange ha).nodup ha.nodup
    intro r hr
    obtain ⟨s, hs, -⟩ := ha.member r _ hr
    exact World.serial_ne_size hs rfl
  shut r hr := (h.relayChange ha).shut_active ha.shut hr
  member r id hi := (h.part_sound ha id).member r hi
  housed id s hs := h.housed ha hs
  named r hr := by
    rcases (World.relayExists_iff _ r).mp hr with ⟨x, hx, rfl⟩ | ⟨k, hk, rfl, -⟩
    · exact h.named ha hx
    · obtain ⟨c, hc⟩ := Array.mem_iff_getElem?.mp hk
      exact h.call_housed ha hc
  slice l hl := ((h.part_sound ha l.id).slice l (sliceOf_of_slice hl rfl)).2
  calls c k hk := h.call_housed ha hk
  closing c k hk hu := by
    rcases h.unsettled ha hk hu with ⟨j, hj, hju, hr⟩ | ⟨-, -, hc⟩
    · rw [← hr]
      exact (h.relayChange ha).stays_closed (ha.closing c j hj hju)
    · exact hc
  alone c n k j hk hj hku hju hr := by
    rcases h.unsettled ha hk hku with ⟨k', hk', hku', hkr⟩ | ⟨hc, ho, -⟩
    · rcases h.unsettled ha hj hju with ⟨j', hj', hju', hjr⟩ | ⟨-, ho, -⟩
      · exact ha.alone c n k' j' hk' hj' hku' hju' (hkr.trans (hr.trans hjr.symm))
      · have hcl := ha.closing c k' hk' hku'
        rw [hkr, hr, ho] at hcl
        cases hcl
    · rcases h.unsettled ha hj hju with ⟨j', hj', hju', hjr⟩ | ⟨hn, -, -⟩
      · have hcl := ha.closing n j' hj' hju'
        rw [hjr, ← hr, ho] at hcl
        cases hcl
      · exact hc.trans hn.symm
  owner c k o hk ho hp := by
    cases hj : a.world.call? c with
    | some j =>
      obtain ⟨i, hi, ht⟩ := h.callChange hj
      obtain rfl := Option.mem_unique hi hk
      have he := ha.owner c j o hj (ht.owner.symm.trans ho) (ht.pending hp)
      rcases h.partChange ha o with hpart | hchange
      · rw [hpart]
        exact he
      · rcases hchange.engaged he with he | hn
        · exact he
        · rw [hn _ hk] at hp
          cases hp
    | none =>
      obtain ⟨hown, rfl, -, hb, -⟩ := h.call_new ha hj hk
      rw [ho] at hown
      obtain ⟨l, hl, rfl⟩ := Option.map_eq_some_iff.mp hown.symm
      have hslice : b.slice = some { l with call := some a.world.calls.size } := by
        rw [hb, Moment.shutdown, hl]
        rfl
      exact .inl ⟨_, sliceOf_of_slice hslice rfl, rfl⟩
  engaged id c he := by
    have hkeep : (a.part id).Engaged c → ∃ k, b.world.call? c = some k ∧ k.owner = some id := by
      intro he
      obtain ⟨k, hk, ho⟩ := ha.engaged id c he
      obtain ⟨j, hj, ht⟩ := h.callChange hk
      exact ⟨j, hj, ht.owner.trans ho⟩
    rcases h.partChange ha id with hpart | hchange
    · exact hkeep (hpart ▸ he)
    · rcases hchange.engaged_of he with he | hk
      · exact hkeep he
      · exact hk

theorem sound_empty : Moment.Sound ⟨{}, none, []⟩ where
  nodup r := List.nodup_nil
  shut r hr := rfl
  member r id hi := by cases hi
  housed id s hs := by cases hs
  named r hr := by simp [World.relayExists] at hr
  slice l hl := by cases hl
  calls c k hk := by cases hk
  closing c k hk := by cases hk
  alone c n k j hk := by cases hk
  owner c k o hk := by cases hk
  engaged id c he := by
    rcases he with ⟨l, hl, -⟩ | ⟨-, s, d, hs, -⟩
    · cases hl
    · cases hs

theorem Moment.Reached.sound (ha : a.Reached) : a.Sound := by
  induction ha with
  | refl => exact sound_empty
  | tail _ hb ih => exact hb.sound ih

theorem Transitions.sound (hab : Transitions a b) (ha : a.Sound) : b.Sound := by
  induction hab with
  | refl => exact ha
  | tail _ hb ih => exact hb.sound ih

/-- What every change keeps of a part, any number of transitions keeps. -/
theorem Transitions.keeps {id : SubscriberId} {I : Part → Prop}
    (hI : ∀ {w v p q}, PartChange id w v p q → p.Sound id → I p → I q) (hab : Transitions a b)
    (ha : a.Sound) (hp : I (a.part id)) : I (b.part id) := by
  induction hab with
  | refl => exact hp
  | @tail c d hac hcd ih =>
    have hc := Transitions.sound hac ha
    rcases hcd.partChange hc id with he | ht
    · rw [he]
      exact ih
    · exact hI ht (hc.part id) ih

theorem Transitions.subscriber {id : SubscriberId} (hab : Transitions a b) (ha : a.Sound)
    {s : Subscriber} (hs : a.world.subscriber? id = some s) :
    ∃ t, b.world.subscriber? id = some t ∧ t.relay = s.relay ∧
      (t.sink = s.sink ∧ t.name = s.name) ∧ (s.cancelled = true → t.cancelled = true) ∧
      (s.live = false → t.phase = s.phase ∧ t.queue = s.queue) := by
  refine Transitions.keeps (I := fun p => ∃ t, p.sub = some t ∧ t.relay = s.relay ∧
    (t.sink = s.sink ∧ t.name = s.name) ∧ (s.cancelled = true → t.cancelled = true) ∧
    (s.live = false → t.phase = s.phase ∧ t.queue = s.queue)) ?_ hab ha
    ⟨s, hs, rfl, ⟨rfl, rfl⟩, fun h => h, fun _ => ⟨rfl, rfl⟩⟩
  intro w v p q ht hp ⟨t, hsub, hr, hk, hc, hd⟩
  obtain ⟨u, hu, hur, huk, huc, hud⟩ := ht.sub hsub
  refine ⟨u, hu, hur.trans hr, ⟨huk.1.trans hk.1, huk.2.trans hk.2⟩, fun h => huc (hc h),
    fun h => ?_⟩
  obtain ⟨hph, hq⟩ := hd h
  have hslice : ∀ l, p.slice = some l → t.live = true := fun l hl => hp.live hl hsub
  have hdead : t.live = false := by
    rw [Subscriber.live, hph]
    exact h
  obtain ⟨hph', hq'⟩ := hud hslice hdead
  exact ⟨hph'.trans hph, hq'.trans hq⟩

theorem Moment.Reached.goesBy (ha : a.Reached) {id : SubscriberId} {s : Subscriber}
    (hs : a.world.subscriber? id = some s) : s.sink.name = .given s.name :=
  Transitions.keeps (I := fun p => ∀ s, p.sub = some s → s.sink.name = .given s.name)
    (fun ht _ hp _ hs => ht.goesBy hp hs) ha sound_empty (fun _ hs => by cases hs) s hs

/-- Where a subscriber comes from: it was there before, or it is new, and has a worker only if its
relay was open. -/
theorem Transition.subscriber_cases {id : SubscriberId} (h : Transition a b) (ha : a.Sound)
    {t : Subscriber} (ht : b.world.subscriber? id = some t) :
    (∃ s, a.world.subscriber? id = some s ∧ t.relay = s.relay ∧
      (s.cancelled = true → t.cancelled = true) ∧ (t.live = true → s.live = true)) ∨
    a.world.relayExists t.relay = true ∧
      (t.live = true → a.world.closed t.relay = false) := by
  cases hs : a.world.subscriber? id with
  | some s =>
    obtain ⟨u, hu, hr, -, hc, hdead⟩ := Transitions.subscriber (.single h) ha hs
    obtain rfl := Option.mem_unique hu ht
    refine .inl ⟨s, rfl, hr, hc, fun hlive => ?_⟩
    cases hv : s.live with
    | true => rfl
    | false =>
      rw [Subscriber.live, (hdead hv).1] at hlive
      exact hv.symm.trans hlive
  | none =>
    rcases h.partChange ha id with he | hchange
    · have he : b.world.subscriber? id = a.world.subscriber? id := congrArg Part.sub he
      cases ht.symm.trans (he.trans hs)
    · refine .inr ⟨hchange.newborn_exists hs ht, fun hlive => ?_⟩
      obtain ⟨-, -, ⟨-, ho⟩ | ⟨hp, -⟩⟩ := hchange.newborn hs ht
      · exact ho
      · rw [Subscriber.live, hp] at hlive
        cases hlive

def Moment.opening (config : Config) (sinks : List Sink) : Moment :=
  sinks.foldl (fun a sink => { a with world := (a.world.register 0 "relay" sink).1 })
    { world := (({} : World).build "relay" config []).1 }

theorem reached_opening (config : Config) (hc : config.busCapacity ≤ World.maxBusCapacity)
    (sinks : List Sink) : (Moment.opening config sinks).Reached := by
  let I : Moment → Prop := fun a => a.Reached ∧ a.world.relayExists 0 = true
  have hI : I (Moment.opening config sinks) := by
    refine List.foldlRecOn sinks _ ⟨?_, ?_⟩ ?_
    · exact .single (.build "relay" config [])
    · rw [World.build, if_neg (Nat.not_lt.mpr hc)]
      rfl
    · intro a ⟨ha, he⟩ sink _
      refine ⟨ha.tail (.register 0 "relay" sink he), ?_⟩
      have hn := World.relayNames_register a.world 0 "relay" sink
      have hcalls := World.calls_register a.world 0 "relay" sink
      rw [World.relayExists] at he ⊢
      rw [hn, hcalls]
      exact he
  exact hI.1

end Fanout
