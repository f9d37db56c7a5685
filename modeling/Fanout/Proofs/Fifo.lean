import Mathlib.Data.List.Sort
import Fanout.Proofs.Soundness

/-! # Each queue in order

The messages enqueued to a subscriber are those whose delivery has begun, followed by those in
its queue, as long as its worker can still come to them. What is lost when a worker exits, told
to stop or taken down, comes after both.
-/
namespace Fanout

def Part.started (p : Part) : List Message := p.rows.filterMap Row.message?

def Part.isUnderway (p : Part) : Bool :=
  p.slice.isSome || (p.sub.bind (·.phase.delivery?)).isSome

/-- How a worker may have come to lose messages. -/
def Subscriber.mayLose (s : Subscriber) : Prop :=
  s.phase = .crashed ∨ s.phase = .stopped ∧ s.cancelled = true

/-- How what was enqueued to a subscriber fits what has begun and its queue. -/
structure Subscriber.Accounts (s : Subscriber) (enqueued started : List Message) : Prop where
  order : ∃ lost, enqueued = started ++ s.queue ++ lost ∧ (lost = [] ∨ s.mayLose)
  exited : s.live = false → s.queue = []
  crashed : s.phase = .crashed → s.sink.BringsDown (s.begun - 1)

structure Part.Ordered (p : Part) : Prop where
  unborn : p.sub = none → p.enqueued = [] ∧ p.started = []
  accounts : ∀ s, p.sub = some s → s.Accounts p.enqueued p.started

/-- Each delivery that has begun is concluded, but for the one underway. -/
def Part.Counted (p : Part) : Prop :=
  p.started.length = p.conclusions.length + p.isUnderway.toNat

theorem Part.counted_iff_of_slice {p : Part} {l : Slice} (hl : p.slice = some l) :
    p.Counted ↔ p.started.length = p.conclusions.length + 1 := by
  rw [Counted, isUnderway, hl]
  rfl

theorem Part.counted_iff_of_sub {p : Part} {s : Subscriber} (hl : p.slice = none)
    (hs : p.sub = some s) : p.Counted ↔
      p.started.length = p.conclusions.length + s.phase.delivery?.isSome.toNat := by
  rw [Counted, isUnderway, hl, hs]
  rfl

theorem Part.Counted.of_slice {p : Part} {l : Slice} (hl : p.slice = some l)
    (hp : p.started.length = p.conclusions.length + 1) : p.Counted :=
  (counted_iff_of_slice hl).mpr hp

theorem Part.Counted.of_sub {p : Part} {s : Subscriber} (hl : p.slice = none)
    (hs : p.sub = some s) (hp : p.started.length =
      p.conclusions.length + s.phase.delivery?.isSome.toNat) : p.Counted :=
  (counted_iff_of_sub hl hs).mpr hp

theorem Part.Sound.not_underway {p : Part} {id : SubscriberId} (hp : p.Sound id)
    {s : Subscriber} (hs : p.sub = some s) (hl : s.live = false) : p.isUnderway = false := by
  have hslice : p.slice = none := by
    cases hm : p.slice with
    | none => rfl
    | some l => cases hl.symm.trans (hp.live hm hs)
  have hidle : s.phase.delivery? = none := by
    cases hd : s.phase with
    | idle | stopped | crashed => rfl
    | delivering d => cases hl.symm.trans (Subscriber.live_of_delivering hd)
  simp [isUnderway, hslice, hs, hidle]

theorem Row.message?_of_isPlain {x : Row} (hx : x.isPlain = true) : x.message? = none := by
  cases x with
  | returned error | called action reply => rfl
  | started m | aborted => cases hx

theorem started_append_of_none {rows : List Row} {x : Row} (hx : x.message? = none) :
    (rows ++ [x]).filterMap Row.message? = rows.filterMap Row.message? := by
  simp [hx]

theorem started_append (rows : List Row) (m : Message) :
    (rows ++ [Row.started m]).filterMap Row.message? = rows.filterMap Row.message? ++ [m] := by
  simp [Row.message?]

namespace Subscriber.Accounts

variable {s t : Subscriber} {enqueued started : List Message}

theorem eq_of_live (h : s.Accounts enqueued started) (hs : s.live = true) :
    enqueued = started ++ s.queue := by
  obtain ⟨lost, he, hl | hp | ⟨hp, -⟩⟩ := h.order
  · rw [he, hl, List.append_nil]
  · rw [Subscriber.live, hp] at hs
    cases hs
  · rw [Subscriber.live, hp] at hs
    cases hs

theorem of_live (ht : t.live = true) (he : enqueued = started ++ t.queue) :
    t.Accounts enqueued started := by
  refine ⟨⟨[], by rw [he, List.append_nil], .inl rfl⟩, fun hd => ?_, fun hc => ?_⟩
  · cases ht.symm.trans hd
  · rw [Subscriber.live, hc] at ht
    cases ht

theorem cancel (h : s.Accounts enqueued started) :
    ({ s with cancelled := true } : Subscriber).Accounts enqueued started := by
  obtain ⟨lost, he, hl⟩ := h.order
  refine ⟨⟨lost, he, hl.imp_right ?_⟩, h.exited, h.crashed⟩
  rintro (hp | ⟨hp, -⟩)
  · exact .inl hp
  · exact .inr ⟨hp, rfl⟩

theorem stop (h : s.Accounts enqueued started) (hs : s.live = true)
    (hc : s.cancelled = true ∨ s.queue = []) :
    ({ s with phase := .stopped, queue := [] } : Subscriber).Accounts enqueued started := by
  have he := h.eq_of_live hs
  refine ⟨⟨s.queue, by rw [he, List.append_nil], ?_⟩, fun _ => rfl, fun hp => by cases hp⟩
  rcases hc with hc | hc
  · exact .inr (.inr ⟨rfl, hc⟩)
  · exact .inl hc

theorem crash {m : Message} {queue : List Message} (h : s.Accounts enqueued started)
    (hs : s.live = true) (hq : s.queue = m :: queue) (hb : s.sink.BringsDown s.begun) :
    ({ s with queue := [], begun := s.begun + 1, phase := .crashed } : Subscriber).Accounts
      enqueued (started ++ [m]) := by
  have he := h.eq_of_live hs
  refine ⟨⟨queue, ?_, .inr (.inl rfl)⟩, fun _ => rfl, fun _ => hb⟩
  rw [he, hq, List.append_nil, List.append_assoc]
  rfl

end Subscriber.Accounts

namespace PartChange

variable {id : SubscriberId} {w v : World} {p q : Part}

theorem started (h : PartChange id w v p q) {s : Subscriber} (hs : p.sub = some s)
    (hc : s.cancelled = true ∨ s.live = false) : q.started = p.started := by
  have hidle : ∀ {t : Subscriber}, p.sub = some t → t.phase = .idle → t.cancelled = false →
      False := by
    intro t ht hp hf
    obtain rfl := Option.mem_unique hs ht
    rw [hf, Subscriber.live_of_idle hp] at hc
    rcases hc with hc | hc <;> cases hc
  cases h with
  | born | refused | withdraw | close | halt | accept | poll | engage | back | finish | fail
  | wait | stop => rfl
  | begin ht _ hp hf | crash ht _ hp hf => exact (hidle ht hp hf).elim
  | row _ hx => exact started_append_of_none (Row.message?_of_isPlain hx)
  | overrun | abort => exact started_append_of_none rfl

theorem ordered_of_sub {t : Subscriber} (hq : q.sub = some t)
    (ht : t.Accounts q.enqueued q.started) : q.Ordered := by
  constructor
  · intro hn
    cases hn.symm.trans hq
  · intro u hu
    obtain rfl := Option.mem_unique hu hq
    exact ht

theorem ordered_of_eq (hp : p.Ordered) (hs : q.sub = p.sub) (he : q.enqueued = p.enqueued)
    (ho : q.started = p.started) : q.Ordered := by
  constructor
  · intro hn
    rw [he, ho]
    exact hp.unborn (hs ▸ hn)
  · intro s hs'
    rw [he, ho]
    exact hp.accounts s (hs ▸ hs')

theorem ordered (h : PartChange id w v p q) (hs : p.Sound id) (hp : p.Ordered) : q.Ordered := by
  cases h with
  | born hn hi _ hq =>
    obtain ⟨he, ho⟩ := hp.unborn hn
    refine ordered_of_sub rfl (.of_live (Subscriber.live_of_idle hi) ?_)
    change p.enqueued = p.started ++ _
    rw [he, ho, hq]
    rfl
  | refused hn hi hq =>
    obtain ⟨he, ho⟩ := hp.unborn hn
    refine ordered_of_sub rfl ⟨⟨[], ?_, .inl rfl⟩, fun _ => hq, fun hc => ?_⟩
    · change p.enqueued = p.started ++ _ ++ _
      rw [he, ho, hq]
      rfl
    · cases hi.symm.trans hc
  | withdraw ht | halt ht => exact ordered_of_sub rfl (hp.accounts _ ht).cancel
  | close | poll | engage | back => exact ordered_of_eq hp rfl rfl rfl
  | row _ hx =>
    exact ordered_of_eq hp rfl rfl (started_append_of_none (Row.message?_of_isPlain hx))
  | accept m ht hl =>
    refine ordered_of_sub rfl (.of_live hl ?_)
    change p.enqueued ++ [m] = p.started ++ (_ ++ [m])
    rw [(hp.accounts _ ht).eq_of_live hl, List.append_assoc]
  | begin ht _ hi _ hq =>
    have hl := Subscriber.live_of_idle hi
    refine ordered_of_sub rfl (.of_live hl ?_)
    change p.enqueued = (p.rows ++ [Row.started _]).filterMap Row.message? ++ _
    rw [started_append, (hp.accounts _ ht).eq_of_live hl, hq, List.append_assoc]
    rfl
  | crash ht _ hi _ hq hb =>
    have ho := (hp.accounts _ ht).crash (Subscriber.live_of_idle hi) hq hb
    rw [Part.started, ← started_append] at ho
    exact ordered_of_sub rfl ho
  | finish ht hl | fail ht hl | wait ht hl =>
    exact ordered_of_sub rfl (.of_live rfl ((hp.accounts _ ht).eq_of_live (hs.live hl ht)))
  | overrun ht hl =>
    have he := (hp.accounts _ ht).eq_of_live (hs.live hl ht)
    rw [Part.started, ← started_append_of_none (x := .aborted) rfl] at he
    exact ordered_of_sub rfl (.of_live rfl he)
  | abort ht _ hi hc =>
    have ho := (hp.accounts _ ht).stop (Subscriber.live_of_delivering hi) (.inl hc)
    rw [Part.started, ← started_append_of_none (x := .aborted) rfl] at ho
    exact ordered_of_sub rfl ho
  | stop ht _ hi hc =>
    exact ordered_of_sub rfl ((hp.accounts _ ht).stop (Subscriber.live_of_idle hi)
      (hc.imp_right And.left))

theorem counted (h : PartChange id w v p q) (hp : p.Counted) : q.Counted := by
  have hdrop : ∀ {x : Row}, x.message? = none →
      ((p.rows ++ [x]).filterMap Row.message?).length = p.started.length :=
    fun hx => congrArg List.length (started_append_of_none hx)
  have hone : ∀ {m : Message},
      ((p.rows ++ [Row.started m]).filterMap Row.message?).length = p.started.length + 1 := by
    intro m
    rw [started_append, List.length_append]
    rfl
  cases h with
  | born hn hi | refused hn hi =>
    unfold Part.Counted at hp ⊢
    simpa [Part.isUnderway, Part.started, hn, hi, Phase.delivery?] using hp
  | withdraw ht | halt ht | accept _ ht =>
    unfold Part.Counted at hp ⊢
    simpa [Part.isUnderway, Part.started, ht] using hp
  | close => exact hp
  | begin ht hl hi =>
    rw [Part.counted_iff_of_sub hl ht, hi] at hp
    exact hone.trans (congrArg (· + 1) hp)
  | crash ht hl hi =>
    rw [Part.counted_iff_of_sub hl ht, hi] at hp
    refine .of_sub hl rfl (hone.trans ?_)
    rw [List.length_append]
    exact congrArg (· + 1) hp
  | poll ht hl hd =>
    rw [Part.counted_iff_of_sub hl ht, hd] at hp
    exact hp
  | row hl hx =>
    rw [Part.counted_iff_of_slice hl] at hp
    exact .of_slice hl ((hdrop (Row.message?_of_isPlain hx)).trans hp)
  | engage _ hl | back hl | wait _ hl =>
    rw [Part.counted_iff_of_slice hl] at hp
    exact hp
  | finish _ hl | fail _ hl =>
    rw [Part.counted_iff_of_slice hl] at hp
    refine .of_sub rfl rfl ?_
    rw [List.length_append]
    exact hp
  | overrun _ hl =>
    rw [Part.counted_iff_of_slice hl] at hp
    refine .of_sub rfl rfl ((hdrop rfl).trans ?_)
    rw [List.length_append]
    exact hp
  | abort ht hl hd =>
    rw [Part.counted_iff_of_sub hl ht, hd] at hp
    refine .of_sub hl rfl ((hdrop rfl).trans ?_)
    rw [List.length_append]
    exact hp
  | stop ht hl hi =>
    rw [Part.counted_iff_of_sub hl ht, hi] at hp
    exact .of_sub hl rfl hp

end PartChange

variable {a b : Moment} {id : SubscriberId}

theorem Moment.Reached.ordered (ha : a.Reached) (id : SubscriberId) : (a.part id).Ordered := by
  refine Transitions.keeps (fun ht hs hp => ht.ordered hs hp) ha sound_empty ⟨fun _ => ?_, ?_⟩
  · exact ⟨rfl, rfl⟩
  · intro s hs
    cases hs

theorem Moment.Reached.counted (ha : a.Reached) (id : SubscriberId) : (a.part id).Counted :=
  Transitions.keeps (fun ht _ hp => ht.counted hp) ha sound_empty rfl

/-- Once the token of a subscriber has fired or its worker is gone, nothing more begins. -/
theorem Transitions.started (hab : Transitions a b) (ha : a.Sound) {s : Subscriber}
    (hs : a.world.subscriber? id = some s) (hc : s.cancelled = true ∨ s.live = false) :
    b.world.started id = a.world.started id := by
  induction hab with
  | refl => rfl
  | @tail c d hac hcd ih =>
    obtain ⟨t, ht, -, -, hcan, hdead⟩ := Transitions.subscriber hac ha hs
    have hf : t.cancelled = true ∨ t.live = false := by
      rcases hc with hc | hc
      · exact .inl (hcan hc)
      · right
        rw [Subscriber.live, (hdead hc).1]
        exact hc
    rcases hcd.partChange (Transitions.sound hac ha) id with he | hchange
    · exact (congrArg Part.started he).trans ih
    · exact (hchange.started ht hf).trans ih

/-- The publications whose message has begun to be delivered, with their places in the order
of all calls of publish. -/
def Moment.begun (a : Moment) (id : SubscriberId) : List (Publication × Nat) :=
  (a.published.zipIdx.filter (·.1.reaches id)).take (a.world.started id).length

theorem map_message_begun (hp : a.world.started id <+: a.enqueued id) :
    (a.begun id).map (·.1.message) = a.world.started id := by
  have he : (a.published.zipIdx.filter (·.1.reaches id)).map (·.1.message) = a.enqueued id := by
    have hz : a.published.zipIdx.map (·.1) = a.published := List.zipIdx_map_fst ..
    have hf : (a.published.zipIdx.map (·.1)).filter (·.reaches id) =
        (a.published.zipIdx.filter (·.1.reaches id)).map (·.1) := List.filter_map ..
    rw [hz] at hf
    rw [Moment.enqueued, hf, List.map_map]
    rfl
  rw [Moment.begun, List.map_take, he]
  exact (List.prefix_iff_eq_take.mp hp).symm

theorem pairwise_begun (a : Moment) (id : SubscriberId) :
    ((a.begun id).map (·.2)).Pairwise (· < ·) := by
  have hz : (a.published.zipIdx.map (·.2)).Pairwise (· < ·) := by
    rw [List.zipIdx_map_snd]
    exact List.pairwise_lt_range'
  refine hz.sublist (List.Sublist.map _ ?_)
  exact (List.take_sublist ..).trans List.filter_sublist

/-- Two lists in ascending order have what they share in the same order. -/
theorem filter_mem_comm {xs ys : List Nat} (hx : xs.Pairwise (· < ·)) (hy : ys.Pairwise (· < ·)) :
    xs.filter (· ∈ ys) = ys.filter (· ∈ xs) := by
  apply (hx.filter _).eq_of_mem_iff (hy.filter _)
  intro n
  simp [and_comm]

theorem reaches_of_mem_begun {p : Publication × Nat} (hp : p ∈ a.begun id) :
    p.1.reaches id = true ∧ a.published[p.2]? = some p.1 := by
  obtain ⟨hm, hr⟩ := List.mem_filter.mp ((List.take_sublist ..).mem hp)
  exact ⟨hr, List.mem_zipIdx_iff_getElem?.mp hm⟩

/-- Every message comes once and in order, as long as no panic outside the guard takes a worker
down. A token that fires, or such a panic, ends the deliveries for good. -/
theorem delivered_in_order (ha : a.Reached) {s : Subscriber}
    (hs : a.world.subscriber? id = some s) :
    (s.cancelled = false → s.phase ≠ .crashed →
      a.enqueued id = a.world.started id ++ s.queue) ∧
    (s.phase = .crashed → s.sink.BringsDown (s.begun - 1) ∧ s.queue = []) ∧
    a.world.started id <+: a.enqueued id ∧
    (s.cancelled = true ∨ s.phase = .crashed →
      ∀ b, Transitions a b → b.world.started id = a.world.started id) ∧
    (a.world.started id).length =
      (a.world.conclusions id).length + (a.part id).isUnderway.toNat ∧
    (a.begun id).map (·.1.message) = a.world.started id ∧
    (∀ p ∈ a.begun id, p.1.reaches id = true ∧ a.published[p.2]? = some p.1) ∧
    ((a.begun id).map (·.2)).Pairwise (· < ·) ∧
    ∀ i, ((a.begun id).map (·.2)).filter (· ∈ (a.begun i).map (·.2)) =
      ((a.begun i).map (·.2)).filter (· ∈ (a.begun id).map (·.2)) := by
  have hacc : s.Accounts (a.enqueued id) (a.world.started id) := (ha.ordered id).accounts s hs
  obtain ⟨lost, he, hl⟩ := hacc.order
  have hpre : a.world.started id <+: a.enqueued id :=
    ⟨s.queue ++ lost, by rw [he, List.append_assoc]⟩
  have hdead : s.phase = .crashed → s.live = false := by
    intro hp
    rw [Subscriber.live, hp]
    rfl
  refine ⟨fun hc hp => ?_, fun hp => ⟨hacc.crashed hp, hacc.exited (hdead hp)⟩, hpre,
    fun hc b hab => hab.started ha.sound hs (hc.imp_right hdead), ha.counted id,
    map_message_begun hpre, fun p hp => reaches_of_mem_begun hp, pairwise_begun a id,
    fun i => filter_mem_comm (pairwise_begun a id) (pairwise_begun a i)⟩
  rcases hl with hl | hf | ⟨-, hf⟩
  · rw [he, hl, List.append_nil]
  · exact absurd hf hp
  · cases hc.symm.trans hf

/-- Two messages are on their way to a bare sink that panics at once. -/
def Moment.fragile : Moment :=
  ((Moment.opening {} [{ key := "sink", name := "sink", style := .bare
                         script := [[.panicAtStart]] }]).publish 0 .empty).publish 0 .empty

theorem reached_fragile : Moment.fragile.Reached :=
  ((reached_opening {} (by decide) _).tail (.publish 0 .empty rfl)).tail (.publish 0 .empty rfl)

/-- Before the panic, all that is enqueued waits in the queue. -/
theorem delivered_in_order_fragile : ∃ s, Moment.fragile.world.subscriber? ⟨0⟩ = some s ∧
    Moment.fragile.enqueued ⟨0⟩ = [.empty, .empty] ∧
    Moment.fragile.enqueued ⟨0⟩ = Moment.fragile.world.started ⟨0⟩ ++ s.queue := by
  have hs : Moment.fragile.world.subscriber? ⟨0⟩ = some _ := rfl
  exact ⟨_, hs, rfl, (delivered_in_order reached_fragile hs).1 rfl (fun hp => by cases hp)⟩

/-- The panic loses the second message although no token has fired. -/
theorem fragile_loses_message : ∃ (b : Moment) (s : Subscriber), b.Reached ∧
    b.world.subscriber? ⟨0⟩ = some s ∧ s.cancelled = false ∧
    b.enqueued ⟨0⟩ ≠ b.world.started ⟨0⟩ ++ s.queue := by
  have hs : Moment.fragile.world.subscriber? ⟨0⟩ = some _ := rfl
  let b : Moment := { Moment.fragile with
    world := (Moment.fragile.world.take ⟨0⟩ .empty [.empty]).crash ⟨0⟩ }
  have hb : b.Reached := reached_fragile.tail (.crash rfl hs rfl rfl rfl ⟨rfl, [], rfl⟩)
  refine ⟨b, _, hb, rfl, rfl, fun he => ?_⟩
  cases he

end Fanout
