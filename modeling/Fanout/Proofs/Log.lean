import Mathlib.Data.List.DropRight
import Mathlib.Data.List.Nodup
import Fanout.Proofs.Views

/-! # The log of a relay

The events on one bus, read from the first on. A log tells at each point which subscribers are
active, which were ever registered, how many drops wait for the publish that they belong to, and
how far the relay has come. An event that does not fit there has no next log.
-/
namespace Fanout

namespace Event

def isDrop (e : Event) : Bool := e.kind = .sinkOverflow ∨ e.kind = .sinkWorkerGone

def isFinal (e : Event) : Bool := e.kind = .allDrainedWithin ∨ e.kind = .graceExceeded

def registered? (e : Event) : Option SubscriberId :=
  if e.kind = .subscriberRegistered then e.id else none

def unregistered? (e : Event) : Option SubscriberId :=
  if e.kind = .subscriberUnregistered then e.id else none

def replay (ids : List SubscriberId) (e : Event) : List SubscriberId :=
  match e.registered?, e.unregistered? with
  | some i, _ => ids ++ [i]
  | none, some i => ids.filter (· != i)
  | none, none => ids

end Event

/-- The subscribers that the events leave active. -/
def replay (es : List Event) : List SubscriberId := es.foldl Event.replay []

theorem replay_concat (es : List Event) (e : Event) :
    replay (es ++ [e]) = e.replay (replay es) := by
  rw [replay, List.foldl_append, replay]
  rfl

theorem Event.mem_replay_iff {ids : List SubscriberId} {e : Event} {i : SubscriberId} :
    i ∈ e.replay ids ↔ e.registered? = some i ∨ i ∈ ids ∧ e.unregistered? ≠ some i := by
  rw [Event.replay]
  cases hr : e.registered? with
  | some j =>
    have hk : e.kind = .subscriberRegistered := by
      by_cases hk : e.kind = .subscriberRegistered
      · exact hk
      · rw [registered?, if_neg hk] at hr
        cases hr
    have hu : e.unregistered? = none := by simp [unregistered?, hk]
    simp [hu, or_comm, eq_comm]
  | none =>
    cases hu : e.unregistered? with
    | some j =>
      have hij : i ≠ j ↔ ¬ j = i := ne_comm
      simp [hij]
    | none => simp

theorem mem_replay_iff {es : List Event} {i : SubscriberId} : i ∈ replay es ↔
    ∃ pre e post, es = pre ++ e :: post ∧ e.registered? = some i ∧
      ∀ f ∈ post, f.unregistered? ≠ some i := by
  induction es using List.reverseRecOn with
  | nil => simp [replay]
  | append_singleton es e ih =>
    rw [replay_concat, Event.mem_replay_iff, ih]
    constructor
    · rintro (hr | ⟨⟨pre, f, post, rfl, hf, hpost⟩, hu⟩)
      · exact ⟨es, e, [], rfl, hr, by simp⟩
      · refine ⟨pre, f, post ++ [e], by simp, hf, fun k hk => ?_⟩
        rcases List.mem_append.mp hk with hk | hk
        · exact hpost k hk
        · rw [List.mem_singleton.mp hk]
          exact hu
    · rintro ⟨pre, f, post, he, hf, hpost⟩
      rcases List.eq_nil_or_concat post with rfl | ⟨post, k, rfl⟩
      · obtain ⟨rfl, hfe⟩ := List.append_inj' he rfl
        obtain rfl : e = f := (List.cons.inj hfe).1
        exact .inl hf
      · have he' : es ++ [e] = (pre ++ f :: post) ++ [k] := by simpa using he
        obtain ⟨rfl, hk⟩ := List.append_inj' he' rfl
        obtain rfl : e = k := (List.cons.inj hk).1
        refine .inr ⟨⟨pre, f, post, rfl, hf, fun k hk => hpost k ?_⟩, hpost e ?_⟩
        · simp [hk]
        · simp

inductive Stage where
  | opened
  | closed
  | done
deriving DecidableEq

structure Log where
  active : List SubscriberId := []
  seen : List SubscriberId := []
  drops : Nat := 0
  stage : Stage := .opened

namespace Log

/-- The events that may come next. -/
inductive Next : Log → Event → Log → Prop where
  | registered {g : Log} {e : Event} {i : SubscriberId} : e.kind = .subscriberRegistered →
    e.id = some i → g.stage = .opened → g.drops = 0 → i ∉ g.seen →
    Next g e { g with active := g.active ++ [i], seen := g.seen ++ [i] }
  | unregistered {g : Log} {e : Event} {i : SubscriberId} : e.kind = .subscriberUnregistered →
    e.id = some i → g.drops = 0 → i ∈ g.active →
    Next g e { g with active := g.active.filter (· != i) }
  | dropped {g : Log} {e : Event} {i : SubscriberId} : e.isDrop = true → e.id = some i →
    g.stage = .opened → i ∈ g.active → Next g e { g with drops := g.drops + 1 }
  | published {g : Log} {e : Event} : e.kind = .messagePublished →
    e.recipients = some (capped (g.active.length - g.drops)) → g.stage = .opened →
    g.active ≠ [] → g.drops ≤ g.active.length → Next g e { g with drops := 0 }
  | ignored {g : Log} {e : Event} : e.kind = .publishedWithoutSubscribers →
    g.stage = .opened → g.drops = 0 → g.active = [] → Next g e g
  | faulted {g : Log} {e : Event} : e.kind.endsDelivery = true → g.drops = 0 →
    g.stage = .opened ∨ g.stage = .closed ∧ g.active = [] → Next g e g
  | shut {g : Log} {e : Event} : e.kind = .shutdownRequested → g.stage = .opened →
    g.drops = 0 → Next g e { g with stage := .closed }
  | ended {g : Log} {e : Event} : e.isFinal = true → g.stage = .closed → g.active = [] →
    g.drops = 0 → Next g e { g with stage := .done }

inductive Reads : Log → List Event → Log → Prop where
  | nil {g : Log} : Reads g [] g
  | cons {g h k : Log} {e : Event} {es : List Event} : Next g e h → Reads h es k →
    Reads g (e :: es) k

theorem Reads.append {g h k : Log} {es fs : List Event} (hg : Reads g es h)
    (hh : Reads h fs k) : Reads g (es ++ fs) k := by
  induction hg with
  | nil => exact hh
  | cons hn _ ih => exact .cons hn (ih hh)

theorem Reads.split {g k : Log} {es fs : List Event} (hg : Reads g (es ++ fs) k) :
    ∃ h, Reads g es h ∧ Reads h fs k := by
  induction es generalizing g with
  | nil => exact ⟨g, .nil, hg⟩
  | cons e es ih =>
    cases hg with
    | cons hn hr =>
      obtain ⟨h, he, hf⟩ := ih hr
      exact ⟨h, .cons hn he, hf⟩

theorem Reads.split_at {g k : Log} {pre post : List Event} {e : Event}
    (hg : Reads g (pre ++ e :: post) k) : ∃ h l, Reads g pre h ∧ Next h e l ∧ Reads l post k := by
  obtain ⟨h, hpre, hpost⟩ := hg.split
  cases hpost with
  | cons hn hr => exact ⟨h, _, hpre, hn, hr⟩

structure Tells (g : Log) (es : List Event) : Prop where
  active : g.active = replay es
  active_once : g.active.Nodup
  seen : g.seen = es.filterMap Event.registered?
  seen_once : g.seen.Nodup
  known : ∀ i ∈ g.active, i ∈ g.seen
  gone_once : (es.filterMap Event.unregistered?).Nodup
  gone : ∀ i ∈ es.filterMap Event.unregistered?, i ∈ g.seen ∧ i ∉ g.active
  drops : g.drops = (es.rtakeWhile Event.isDrop).length
  opened : g.stage = .opened ↔ ∀ e ∈ es, e.kind ≠ .shutdownRequested

variable {g k : Log} {e : Event} {es : List Event}

theorem Tells.nil : ({} : Log).Tells [] where
  active := rfl
  active_once := List.nodup_nil
  seen := rfl
  seen_once := List.nodup_nil
  known i hi := by cases hi
  gone_once := List.nodup_nil
  gone i hi := by cases hi
  drops := rfl
  opened := by simp

theorem Tells.quiet (hg : g.Tells es) (hr : e.registered? = none) (hu : e.unregistered? = none)
    (hka : k.active = g.active) (hks : k.seen = g.seen)
    (hd : k.drops = ((es ++ [e]).rtakeWhile Event.isDrop).length)
    (ho : k.stage = .opened ↔ ∀ f ∈ es ++ [e], f.kind ≠ .shutdownRequested) :
    k.Tells (es ++ [e]) where
  active := by rw [replay_concat, Event.replay, hr, hu, hka, hg.active]
  active_once := hka ▸ hg.active_once
  seen := by simp [hks, hg.seen, hr]
  seen_once := hks ▸ hg.seen_once
  known i hi := by
    rw [hks]
    rw [hka] at hi
    exact hg.known i hi
  gone_once := by simpa [hu] using hg.gone_once
  gone i hi := by
    rw [hks, hka]
    exact hg.gone i (by simpa [hu] using hi)
  drops := hd
  opened := ho

theorem rtakeWhile_concat_of_not_drop (es : List Event) (he : e.isDrop = false) :
    (es ++ [e]).rtakeWhile Event.isDrop = [] := by
  rw [List.rtakeWhile_concat, he]
  rfl

theorem Tells.opened_concat (hg : g.Tells es) (hk : e.kind ≠ .shutdownRequested) :
    g.stage = .opened ↔ ∀ f ∈ es ++ [e], f.kind ≠ .shutdownRequested := by
  rw [hg.opened, List.forall_mem_append]
  simp [hk]

theorem Tells.plain (hg : g.Tells es) (hr : e.kind ≠ .subscriberRegistered)
    (hu : e.kind ≠ .subscriberUnregistered) (hs : e.kind ≠ .shutdownRequested)
    (hd : e.isDrop = false) (hka : k.active = g.active) (hks : k.seen = g.seen)
    (hkd : k.drops = 0) (hko : k.stage = .opened ↔ g.stage = .opened) : k.Tells (es ++ [e]) := by
  refine hg.quiet (if_neg hr) (if_neg hu) hka hks ?_ (hko.trans (hg.opened_concat hs))
  rw [rtakeWhile_concat_of_not_drop es hd]
  exact hkd

variable {i : SubscriberId}

theorem Tells.registered (hg : g.Tells es) (hk : e.kind = .subscriberRegistered)
    (hi : e.id = some i) (hd : g.drops = 0) (hn : i ∉ g.seen) :
    ({ g with active := g.active ++ [i], seen := g.seen ++ [i] } : Log).Tells (es ++ [e]) := by
  have hr : e.registered? = some i := by rw [Event.registered?, if_pos hk, hi]
  have hu : e.unregistered? = none := by simp [Event.unregistered?, hk]
  constructor
  · rw [replay_concat, Event.replay, hr, hg.active]
  · have hactive := List.Nodup.concat (fun hm => hn (hg.known i hm)) hg.active_once
    rw [List.concat_eq_append] at hactive
    exact hactive
  · simp [hg.seen, hr]
  · have hseen := List.Nodup.concat hn hg.seen_once
    rw [List.concat_eq_append] at hseen
    exact hseen
  · intro j hj
    rcases List.mem_append.mp hj with hj | hj
    · exact List.mem_append.mpr (.inl (hg.known j hj))
    · exact List.mem_append.mpr (.inr hj)
  · simpa [hu] using hg.gone_once
  · intro j hj
    obtain ⟨hs, hna⟩ := hg.gone j (by simpa [hu] using hj)
    refine ⟨List.mem_append.mpr (.inl hs), ?_⟩
    intro hja
    rcases List.mem_append.mp hja with hja | hja
    · exact hna hja
    · rw [List.mem_singleton.mp hja] at hs
      exact hn hs
  · rw [rtakeWhile_concat_of_not_drop es (by simp [Event.isDrop, hk])]
    exact hd
  · exact hg.opened_concat (by simp [hk])

theorem Tells.unregistered (hg : g.Tells es) (hk : e.kind = .subscriberUnregistered)
    (hi : e.id = some i) (hd : g.drops = 0) (ha : i ∈ g.active) :
    ({ g with active := g.active.filter (· != i) } : Log).Tells (es ++ [e]) := by
  have hr : e.registered? = none := by simp [Event.registered?, hk]
  have hu : e.unregistered? = some i := by rw [Event.unregistered?, if_pos hk, hi]
  have hgone : (es ++ [e]).filterMap Event.unregistered? =
      es.filterMap Event.unregistered? ++ [i] := by simp [hu]
  constructor
  · rw [replay_concat, Event.replay, hr, hu, hg.active]
  · exact hg.active_once.filter _
  · simp [hg.seen, hr]
  · exact hg.seen_once
  · intro j hj
    exact hg.known j (List.mem_filter.mp hj).1
  · rw [hgone, ← List.concat_eq_append]
    exact List.Nodup.concat (fun hm => (hg.gone i hm).2 ha) hg.gone_once
  · intro j hj
    rw [hgone] at hj
    rcases List.mem_append.mp hj with hj | hj
    · obtain ⟨hs, hna⟩ := hg.gone j hj
      exact ⟨hs, fun hja => hna (List.mem_filter.mp hja).1⟩
    · rw [List.mem_singleton.mp hj]
      exact ⟨hg.known i ha, by simp⟩
  · rw [rtakeWhile_concat_of_not_drop es (by simp [Event.isDrop, hk])]
    exact hd
  · exact hg.opened_concat (by simp [hk])

/-- Each next event keeps what the log tells. -/
theorem Next.tells (h : Next g e k) (hg : g.Tells es) : k.Tells (es ++ [e]) := by
  cases h with
  | registered hk hi _ hd hn => exact hg.registered hk hi hd hn
  | unregistered hk hi hd ha => exact hg.unregistered hk hi hd ha
  | dropped hd =>
    have hk : e.kind = .sinkOverflow ∨ e.kind = .sinkWorkerGone := by
      simpa [Event.isDrop] using hd
    refine hg.quiet ?_ ?_ rfl rfl ?_ (hg.opened_concat ?_)
    · rcases hk with hk | hk <;> simp [Event.registered?, hk]
    · rcases hk with hk | hk <;> simp [Event.unregistered?, hk]
    · rw [List.rtakeWhile_concat, if_pos hd, List.length_append, ← hg.drops]
      rfl
    · rcases hk with hk | hk <;> simp [hk]
  | published hk =>
    exact hg.plain (by simp [hk]) (by simp [hk]) (by simp [hk]) (by simp [Event.isDrop, hk]) rfl
      rfl rfl Iff.rfl
  | ignored hk _ hd =>
    exact hg.plain (by simp [hk]) (by simp [hk]) (by simp [hk]) (by simp [Event.isDrop, hk]) rfl
      rfl hd Iff.rfl
  | faulted hf hd =>
    cases hk : e.kind with
    | sinkFailed | sinkPanicked | sinkTimedOut =>
      exact hg.plain (by simp [hk]) (by simp [hk]) (by simp [hk]) (by simp [Event.isDrop, hk])
        rfl rfl hd Iff.rfl
    | _ => simp [hk, EventKind.endsDelivery] at hf
  | shut hk _ hd =>
    refine hg.quiet (by simp [Event.registered?, hk]) (by simp [Event.unregistered?, hk]) rfl rfl
      ?_ ?_
    · rw [rtakeWhile_concat_of_not_drop es (by simp [Event.isDrop, hk])]
      exact hd
    · simp [hk]
  | ended hf hs _ hd =>
    have hk : e.kind = .allDrainedWithin ∨ e.kind = .graceExceeded := by
      simpa [Event.isFinal] using hf
    have hdrop : e.isDrop = false := by
      rcases hk with hk | hk <;> simp [Event.isDrop, hk]
    refine hg.plain ?_ ?_ ?_ hdrop rfl rfl hd (by simp [hs])
    · rcases hk with hk | hk <;> simp [hk]
    · rcases hk with hk | hk <;> simp [hk]
    · rcases hk with hk | hk <;> simp [hk]

theorem Reads.tells (h : Reads {} es g) : g.Tells es := by
  induction es using List.reverseRecOn generalizing g with
  | nil =>
    cases h
    exact .nil
  | append_singleton es e ih =>
    obtain ⟨l, hl, hr⟩ := h.split
    cases hr with
    | cons hn hr =>
      cases hr
      exact hn.tells (ih hl)

theorem Reads.eq_nil_of_done {es : List Event} (h : Reads g es k) (hs : g.stage = .done)
    (ha : g.active = []) : es = [] := by
  cases h with
  | nil => rfl
  | cons hn =>
    cases hn with
    | registered _ _ ho | dropped _ _ ho | published _ _ ho | ignored _ ho | shut _ ho
    | ended _ ho => cases hs.symm.trans ho
    | unregistered _ _ _ hm =>
      rw [ha] at hm
      cases hm
    | faulted _ _ ho =>
      rcases ho with ho | ⟨ho, -⟩ <;> cases hs.symm.trans ho

/-- What follows the request of a shutdown: the removals, then faults, then the end. -/
structure ClosingTail (active : List SubscriberId) (es removals faults last : List Event) :
    Prop where
  parts : es = removals ++ faults ++ last
  removes : ∀ e ∈ removals, e.kind = .subscriberUnregistered
  everyone : (removals.map (·.id)).Perm (active.map some)
  blames : ∀ e ∈ faults, e.kind.endsDelivery = true
  ends : last = [] ∨ ∃ e, last = [e] ∧ e.isFinal = true

theorem Reads.closingTail (h : Reads g es k) (hs : g.stage = .closed) (hd : g.drops = 0)
    (hn : g.active.Nodup) (hk : k.active = []) :
    ∃ removals faults last, ClosingTail g.active es removals faults last := by
  induction h with
  | nil => exact ⟨[], [], [], rfl, by simp, by simp [hk], by simp, .inl rfl⟩
  | @cons g h k e es hnext hr ih =>
    cases hnext with
    | registered _ _ ho | dropped _ _ ho | published _ _ ho | ignored _ ho | shut _ ho =>
      cases hs.symm.trans ho
    | @unregistered i hkind hi _ hm =>
      obtain ⟨us, fs, last, hparts, hus, hall, hfs, hlast⟩ := ih hs hd (hn.filter _) hk
      refine ⟨e :: us, fs, last, by simp [hparts], ?_, ?_, hfs, hlast⟩
      · simpa [hkind] using hus
      · have hperm : (i :: g.active.filter (· != i)).Perm g.active := by
          rw [← hn.erase_eq_filter i]
          exact (List.perm_cons_erase hm).symm
        rw [List.map_cons, hi]
        exact (hall.cons (some i)).trans (hperm.map some)
    | faulted hf _ ho =>
      have ha : g.active = [] := by
        rcases ho with ho | ⟨-, ha⟩
        · cases hs.symm.trans ho
        · exact ha
      obtain ⟨us, fs, last, hparts, hus, hall, hfs, hlast⟩ := ih hs hd hn hk
      have hnil : us = [] := by
        rw [ha] at hall
        exact List.map_eq_nil_iff.mp hall.eq_nil
      subst hnil
      refine ⟨[], e :: fs, last, by simp [hparts], by simp, hall, ?_, hlast⟩
      simpa [hf] using hfs
    | ended hf _ ha =>
      obtain rfl := hr.eq_nil_of_done rfl ha
      exact ⟨[], [], [e], rfl, by simp, by simp [ha], by simp, .inr ⟨e, rfl, hf⟩⟩

/-- The laws of the events of a relay, each at any place in their order. -/
structure Grammatical (es : List Event) : Prop where
  registered_once : (es.filterMap Event.registered?).Nodup
  unregistered_once : (es.filterMap Event.unregistered?).Nodup
  unregistered : ∀ pre e post, es = pre ++ e :: post → e.kind = .subscriberUnregistered →
    ∃ i ∈ replay pre, e.id = some i
  dropped : ∀ pre e post, es = pre ++ e :: post → e.isDrop = true →
    (∃ i ∈ replay pre, e.id = some i) ∧
      ∃ f rest, post = f :: rest ∧ (f.isDrop = true ∨ f.kind = .messagePublished)
  published : ∀ pre e post, es = pre ++ e :: post → e.kind = .messagePublished →
    ∃ n, e.recipients = some (capped n) ∧ 1 ≤ (replay pre).length ∧
      n + (pre.rtakeWhile Event.isDrop).length = (replay pre).length
  ignored : ∀ pre e post, es = pre ++ e :: post → e.kind = .publishedWithoutSubscribers →
    replay pre = []
  shutdown : ∀ pre e post, es = pre ++ e :: post → e.kind = .shutdownRequested →
    (∀ f ∈ pre, f.kind ≠ .shutdownRequested) ∧
      ∃ removals faults last, ClosingTail (replay pre) post removals faults last
  final : ∀ pre e post, es = pre ++ e :: post → e.isFinal = true →
    ∃ f ∈ pre, f.kind = .shutdownRequested

/-- As long as drops wait for their publish, only more of them come before it. -/
theorem Reads.drops_followed (h : Reads g es k) (hg : g.drops ≠ 0) (hk : k.drops = 0) :
    ∃ f rest, es = f :: rest ∧ (f.isDrop = true ∨ f.kind = .messagePublished) := by
  cases h with
  | nil => exact absurd hk hg
  | @cons _ h _ f rest hn =>
    refine ⟨f, rest, rfl, ?_⟩
    cases hn with
    | registered _ _ _ hd | unregistered _ _ hd | ignored _ _ hd | faulted _ hd | shut _ _ hd
    | ended _ _ _ hd => exact absurd hd hg
    | dropped hd => exact .inl hd
    | published hkind => exact .inr hkind

theorem Next.removes (h : Next g e k) (hk : e.kind = .subscriberUnregistered) :
    ∃ i ∈ g.active, e.id = some i := by
  cases h with
  | unregistered _ hi _ hm => exact ⟨_, hm, hi⟩
  | registered hx | dropped hx | published hx | ignored hx | faulted hx | shut hx | ended hx =>
    simp_all [Event.isDrop, Event.isFinal, EventKind.endsDelivery]

theorem Next.drops (h : Next g e k) (hk : e.isDrop = true) :
    (∃ i ∈ g.active, e.id = some i) ∧ k.drops ≠ 0 := by
  have hkind : e.kind = .sinkOverflow ∨ e.kind = .sinkWorkerGone := by
    simpa [Event.isDrop] using hk
  cases h with
  | dropped _ hi _ hm => exact ⟨⟨_, hm, hi⟩, Nat.succ_ne_zero _⟩
  | registered hx | unregistered hx | published hx | ignored hx | faulted hx | shut hx
  | ended hx => rcases hkind with hkind | hkind <;> simp_all [Event.isFinal, EventKind.endsDelivery]

theorem Next.publishes (h : Next g e k) (hk : e.kind = .messagePublished) :
    ∃ n, e.recipients = some (capped n) ∧ 1 ≤ g.active.length ∧
      n + g.drops = g.active.length := by
  cases h with
  | published _ hrec _ hne hle =>
    refine ⟨_, hrec, List.length_pos_iff.mpr hne, ?_⟩
    omega
  | registered hx | unregistered hx | dropped hx | ignored hx | faulted hx | shut hx | ended hx =>
    simp_all [Event.isDrop, Event.isFinal, EventKind.endsDelivery]

theorem Next.ignores (h : Next g e k) (hk : e.kind = .publishedWithoutSubscribers) :
    g.active = [] := by
  cases h with
  | ignored _ _ _ ha => exact ha
  | registered hx | unregistered hx | dropped hx | published hx | faulted hx | shut hx
  | ended hx => simp_all [Event.isDrop, Event.isFinal, EventKind.endsDelivery]

theorem Next.shuts (h : Next g e k) (hk : e.kind = .shutdownRequested) :
    g.stage = .opened ∧ g.drops = 0 ∧ k = { g with stage := .closed } := by
  cases h with
  | shut _ ho hz => exact ⟨ho, hz, rfl⟩
  | registered hx | unregistered hx | dropped hx | published hx | ignored hx | faulted hx
  | ended hx => simp_all [Event.isDrop, Event.isFinal, EventKind.endsDelivery]

theorem Next.ends (h : Next g e k) (hk : e.isFinal = true) :
    g.stage = .closed ∧ k.stage = .done ∧ k.active = [] := by
  have hkind : e.kind = .allDrainedWithin ∨ e.kind = .graceExceeded := by
    simpa [Event.isFinal] using hk
  cases h with
  | ended _ hs ha => exact ⟨hs, rfl, ha⟩
  | registered hx | unregistered hx | dropped hx | published hx | ignored hx | faulted hx
  | shut hx => rcases hkind with hkind | hkind <;> simp_all [Event.isDrop, EventKind.endsDelivery]

theorem Reads.done_of_final {es : List Event} (h : Reads g es k) (he : e ∈ es)
    (hk : e.isFinal = true) : k.stage = .done := by
  obtain ⟨pre, post, rfl⟩ := List.append_of_mem he
  obtain ⟨m, l, -, hn, hpost⟩ := h.split_at
  obtain ⟨-, hl, ha⟩ := hn.ends hk
  obtain rfl := hpost.eq_nil_of_done hl ha
  cases hpost
  exact hl

theorem Reads.grammatical (h : Reads {} es g) (hd : g.drops = 0)
    (hc : g.stage ≠ .opened → g.active = []) : Grammatical es := by
  have ht := h.tells
  constructor
  · exact ht.seen ▸ ht.seen_once
  · exact ht.gone_once
  · rintro pre e post rfl hk
    obtain ⟨l, m, hl, hn, -⟩ := h.split_at
    rw [← hl.tells.active]
    exact hn.removes hk
  · rintro pre e post rfl hk
    obtain ⟨l, m, hl, hn, hr⟩ := h.split_at
    rw [← hl.tells.active]
    exact ⟨(hn.drops hk).1, hr.drops_followed (hn.drops hk).2 hd⟩
  · rintro pre e post rfl hk
    obtain ⟨l, m, hl, hn, -⟩ := h.split_at
    rw [← hl.tells.active, ← hl.tells.drops]
    exact hn.publishes hk
  · rintro pre e post rfl hk
    obtain ⟨l, m, hl, hn, -⟩ := h.split_at
    rw [← hl.tells.active]
    exact hn.ignores hk
  · rintro pre e post rfl hk
    obtain ⟨l, m, hl, hn, hr⟩ := h.split_at
    obtain ⟨ho, hz, rfl⟩ := hn.shuts hk
    rw [← hl.tells.active]
    refine ⟨hl.tells.opened.mp ho, hr.closingTail rfl hz hl.tells.active_once (hc ?_)⟩
    intro hopen
    exact ht.opened.mp hopen e (by simp) hk
  · rintro pre e post rfl hk
    obtain ⟨l, m, hl, hn, -⟩ := h.split_at
    have hno : ¬ l.stage = .opened := by simp [(hn.ends hk).1]
    rw [hl.tells.opened] at hno
    simpa using hno

end Log
end Fanout
