import Fanout.Proofs.Replay
import Fanout.Proofs.Undisturbed

/-! # Observers are detached

Take away from a run what listeners do, the passing of time between other moves, and what a call of
shutdown does after the last report. Runs in which the same is left, made at the same times, differ
in nothing but what observers were told, and that is the same where listeners looked at their bus
alike.
-/
namespace Fanout

def Move.bare : Move → Move
  | .build name config _ => .build name config []
  | m => m

/-- A move that is left, with its time. -/
structure RelayMove where
  time : Nat
  move : Move
  /-- In the step of a worker after a last report: the calls of shutdown that have come back to its
  sink. -/
  shutdownReturns : Option Nat

variable {u v w : World} {m n : Move} {ms ns : List Move} {r i j c : Nat}

namespace World

def isUnsettled (w : World) (c : Nat) : Bool := (w.call? c).any (·.phase.unsettled)

/-- Whether a move is one of relay, host and workers, not one that observers have a part in. -/
def isRelayMove (w : World) : Move → Bool
  | .step (.listener ..) | .pass _ => false
  | .step (.call c) => w.isUnsettled c
  | .build .. | .nameRelay .. | .forgetRelay _ | .register .. | .unregister .. | .remove _
  | .forgetHandle _ | .publish .. | .beginShutdown _ | .giveUp _ | .make _
  | .step (.worker _) => true

def lateReturns? (w : World) : Move → Option Nat
  | .step (.worker id) =>
    let v := w.stepWorker id
    if v.anyReported then some (v.shutdownReturns id) else none
  | _ => none

def relayMove? (w : World) (m : Move) : Option RelayMove :=
  if w.isRelayMove m then some ⟨w.now, m.bare, w.lateReturns? m⟩ else none

def reply (w : World) : Move → Reply
  | .build name config observers => (w.build name config observers).2
  | .register r name sink => (w.registerNamed r name sink).2
  | .unregister r id => .flag (w.unregister r id).2
  | .remove h => .flag (w.remove h).2
  | .make d => .marks [.event (w.make d).2]
  | _ => .nothing

def reply? (w : World) (m : Move) : Option Reply :=
  if w.isRelayMove m then some (w.reply m) else none

def relayMoves (w : World) : List Move → List RelayMove := w.gather relayMove?
def replies (w : World) : List Move → List Reply := w.gather reply?

theorem relayMove?_eq_some {d : RelayMove} (h : w.relayMove? m = some d) :
    w.isRelayMove m = true ∧ d = ⟨w.now, m.bare, w.lateReturns? m⟩ := by
  rw [relayMove?] at h
  split at h
  · rename_i hd
    exact ⟨hd, (Option.some.inj h).symm⟩
  · cases h

theorem reply?_eq_none (h : w.relayMove? m = none) : w.reply? m = none := by
  have hd : w.isRelayMove m = false := by simpa [relayMove?] using h
  rw [reply?, hd]
  rfl

theorem sameReturns_of_lateReturns {id : SubscriberId}
    (h : u.lateReturns? (.step (.worker id)) = v.lateReturns? (.step (.worker id))) :
    SameReturns id (u.stepWorker id) (v.stepWorker id) := by
  intro hr
  simp only [lateReturns?] at h
  split at h <;> split at h
  · exact Option.some.inj h
  · cases h
  · cases h
  · rename_i hu hv
    exact absurd hr (not_or.mpr ⟨hu, hv⟩)

theorem Move.bare_eq (h : m.bare = n.bare) : m = n ∨ ∃ name config os ps,
    m = .build name config os ∧ n = .build name config ps := by
  cases m with
  | build name config os =>
    cases n with
    | build name' config' ps =>
      obtain ⟨rfl, rfl, -⟩ := Move.build.inj h
      exact .inr ⟨_, _, _, _, rfl, rfl⟩
    | _ => cases h
  | _ =>
    cases n with
    | build => cases h
    | _ => exact .inl h

namespace SameBare

theorem build (h : u.SameBare v) (name : String) (config : Config) (os ps : List Observer) :
    Agree (u.build name config os) (v.build name config ps) := by
  obtain ⟨hu, hur⟩ := u.bare_build name config os
  obtain ⟨hv, hvr⟩ := v.bare_build name config ps
  refine ⟨h.of_bare (by rw [hu, h.bare, hv]) (calls_build ..) (calls_build ..), ?_⟩
  rw [hur, h.bare, hvr]

theorem make (h : u.SameBare v) (d : Event.Draft) : Agree (u.make d) (v.make d) := by
  have hseq : u.nextSeq = v.nextSeq := h.same (f := World.nextSeq) fun _ => rfl
  refine ⟨h.of_bare ?_ rfl rfl, ?_⟩
  · rw [bare_make, bare_make, h.bare, hseq]
  · rw [World.make, World.make, hseq, h.now]

theorem move (h : u.SameBare v) (hu : u.Reachable) (hv : v.Reachable) (hb : m.bare = n.bare)
    (hd : u.isRelayMove m = true) (hc : u.lateReturns? m = v.lateReturns? n) :
    Agree (u.move m, u.reply m) (v.move n, v.reply n) := by
  rcases Move.bare_eq hb with rfl | ⟨name, config, os, ps, rfl, rfl⟩
  · cases m with
    | build name config os => exact h.build name config os os
    | nameRelay name r =>
      exact ⟨h.commute (fun w => bare_nameRelay w name r) fun _ => rfl, rfl⟩
    | forgetRelay name => exact ⟨h.commute (fun w => bare_forgetRelay w name) fun _ => rfl, rfl⟩
    | forgetHandle name => exact ⟨h.commute (fun w => bare_forgetHandle w name) fun _ => rfl, rfl⟩
    | register r name sink => exact h.register r name sink
    | unregister r id =>
      obtain ⟨hbare, hreply⟩ := h.unregister r id
      exact ⟨hbare, congrArg Reply.flag hreply⟩
    | remove k =>
      obtain ⟨hbare, hreply⟩ := h.remove hu.callsShut hv.callsShut k
      exact ⟨hbare, congrArg Reply.flag hreply⟩
    | publish r m => exact ⟨h.publish r m, rfl⟩
    | beginShutdown r => exact ⟨(h.beginShutdown r none).sameBare, rfl⟩
    | giveUp c => exact ⟨h.giveUp c, rfl⟩
    | make d =>
      obtain ⟨hbare, hevent⟩ := h.make d
      exact ⟨hbare, congrArg (fun e => Reply.marks [.event e]) hevent⟩
    | pass => cases hd
    | step t =>
      cases t with
      | call c => exact ⟨h.stepCall c, rfl⟩
      | listener => cases hd
      | worker id =>
        exact ⟨h.stepWorker hu hv id (sameReturns_of_lateReturns hc), rfl⟩
  · exact h.build name config os ps

end SameBare

def dated (w : World) (time : Nat) : World := { w with now := time }

/-- Worlds that differ in observers and in the time only. -/
def SameBareUntimed (u v : World) : Prop := u.SameBare (v.dated u.now)

theorem SameBare.dated (h : u.SameBare v) (time : Nat) : (u.dated time).SameBare (v.dated time) :=
  h.of_bare (congrArg (World.dated · time) h.bare) rfl rfl

namespace SameBareUntimed

theorem symm (h : u.SameBareUntimed v) : v.SameBareUntimed u := (SameBare.dated h v.now).symm

theorem sameBare (h : u.SameBareUntimed v) (hn : u.now = v.now) : u.SameBare v := by
  rw [SameBareUntimed, hn] at h
  exact h

theorem of_sameBare (h : u.SameBare v) : u.SameBareUntimed v := by
  rw [SameBareUntimed, h.now]
  exact h

theorem unseen (h : u.SameBareUntimed v) (hd : u.relayMove? m = none) :
    (u.move m).SameBareUntimed v := by
  have hd : u.isRelayMove m = false := by simpa [relayMove?] using hd
  cases m with
  | pass time => exact SameBare.dated h (max u.now time)
  | step t =>
    cases t with
    | call c =>
      have hsettled : ∀ k, u.call? c = some k → k.phase.unsettled = false := by
        intro k hk
        simpa [isRelayMove, isUnsettled, hk] using hd
      have hstep := SameBare.stepCall_left h hsettled
      rw [← (sparesListeners_stepCall u c).clock] at hstep
      exact hstep
    | listener r i =>
      have hstep : (u.stepListener r i).SameBare (v.dated u.now) :=
        SameBare.of_bare h ((bare_stepListener u r i).trans h.bare)
          (sameCore_stepListener u r i).calls
          rfl
      rw [← now_stepListener u r i] at hstep
      exact hstep
    | worker => cases hd
  | build | nameRelay | forgetRelay | register | unregister | remove | forgetHandle | publish
  | beginShutdown | giveUp | make => cases hd

theorem seen (h : u.SameBareUntimed v) (hu : u.Reachable) (hv : v.Reachable) {d : RelayMove}
    (hm : u.relayMove? m = some d) (hn : v.relayMove? n = some d) :
    (u.move m).SameBareUntimed (v.move n) ∧ u.reply? m = v.reply? n := by
  obtain ⟨hum, hdm⟩ := relayMove?_eq_some hm
  obtain ⟨hvn, hdn⟩ := relayMove?_eq_some hn
  obtain ⟨hnow, hbare, hcome⟩ := RelayMove.mk.inj (hdm.symm.trans hdn)
  obtain ⟨hsameBare, hreply⟩ := (h.sameBare hnow).move hu hv hbare hum hcome
  refine ⟨.of_sameBare hsameBare, ?_⟩
  rw [reply?, if_pos hum, reply?, if_pos hvn]
  exact congrArg some hreply

theorem play_unseen (h : u.SameBareUntimed v) (hd : u.relayMoves ms = []) :
    (u.play ms).SameBareUntimed v ∧ u.replies ms = [] := by
  induction ms generalizing u with
  | nil => exact ⟨h, rfl⟩
  | cons m ms ih =>
    cases hm : u.relayMove? m with
    | none =>
      rw [relayMoves, gather_cons_none ms hm] at hd
      rw [replies, gather_cons_none ms (reply?_eq_none hm)]
      exact ih (h.unseen hm) hd
    | some d =>
      rw [relayMoves, gather_cons_some ms hm] at hd
      cases hd

/-- Runs with the same relay moves go together: such a move is matched with the next one of the
other run, and what lies between makes no difference. -/
theorem play (h : u.SameBareUntimed v) (hu : u.Reachable) (hv : v.Reachable) (hms : u.Permits ms)
    (hns : v.Permits ns) (hd : u.relayMoves ms = v.relayMoves ns) :
    (u.play ms).SameBareUntimed (v.play ns) ∧ u.replies ms = v.replies ns := by
  induction ms generalizing u v ns with
  | nil =>
    obtain ⟨hsame, hreplies⟩ := h.symm.play_unseen hd.symm
    exact ⟨hsame.symm, hreplies.symm⟩
  | cons m ms ih =>
    obtain ⟨hm, hms⟩ := hms
    cases hum : u.relayMove? m with
    | none =>
      rw [relayMoves, gather_cons_none ms hum] at hd
      rw [replies, gather_cons_none ms (reply?_eq_none hum)]
      exact ih (h.unseen hum) (hu.tail m hm) hv hms hns hd
    | some d =>
      rw [relayMoves, gather_cons_some ms hum] at hd
      induction ns generalizing v with
      | nil => cases hd
      | cons n ns ihn =>
        obtain ⟨hn, hns⟩ := hns
        cases hvn : v.relayMove? n with
        | none =>
          rw [relayMoves, gather_cons_none ns hvn] at hd
          have hreplies : v.replies (n :: ns) = (v.move n).replies ns :=
            gather_cons_none ns (reply?_eq_none hvn)
          rw [hreplies]
          exact ihn (h.symm.unseen hvn).symm (hv.tail n hn) hns hd
        | some e =>
          rw [relayMoves, gather_cons_some ns hvn] at hd
          obtain ⟨rfl, htail⟩ := List.cons.inj hd
          obtain ⟨hsame, hreply⟩ := h.seen hu hv hum hvn
          obtain ⟨hplay, hreplies⟩ := ih hsame (hu.tail m hm) (hv.tail n hn) hms hns htail
          refine ⟨hplay, ?_⟩
          rw [replies, gather, hreply]
          exact congrArg ((v.reply? n).toList ++ ·) hreplies

end SameBareUntimed
end World

/-- A run from the empty world, move by move. -/
structure Performs (ms : List Move) (w : World) : Prop where
  permits : ({} : World).Permits ms
  ends : ({} : World).play ms = w

namespace Performs

theorem reachable (h : Performs ms w) : w.Reachable := h.ends ▸ World.run_play h.permits

theorem visited (h : Performs ms w) : w.Visited := by
  obtain ⟨ps, hwalked⟩ := World.walked_of_reachable h.reachable
  exact ⟨none, ps, hwalked⟩

theorem sameBareUntimed (hu : Performs ms u) (hv : Performs ns v)
    (hd : ({} : World).relayMoves ms = ({} : World).relayMoves ns) :
    u.SameBareUntimed v ∧ ({} : World).replies ms = ({} : World).replies ns := by
  have hstart : World.SameBareUntimed {} {} := .of_sameBare ⟨rfl, rfl, fun c => .none⟩
  obtain ⟨hsame, hreplies⟩ := hstart.play .refl .refl hu.permits hv.permits hd
  rw [hu.ends, hv.ends] at hsame
  exact ⟨hsame, hreplies⟩

theorem heard (h : Performs ms w) {q : Relay} (hq : w.relay? r = some q) {named : Bool}
    (hn : ∀ o, w.observer? r i = some o → o.isNamed = named) :
    w.heard r i = q.bus.retell named 0 (({} : World).looks r i ms) := by
  obtain ⟨hpermits, rfl⟩ := h
  exact World.heard_play .refl hpermits hq hn

theorem heard_of_none (h : Performs ms w) (hq : w.relay? r = none) : w.heard r i = [] := by
  obtain ⟨ps, hwalked⟩ := World.walked_of_reachable h.reachable
  exact (hwalked.unheard (by rw [World.listener?, hq]; rfl)).1

end Performs

namespace World

theorem closed_bare (w : World) (r : Nat) : w.bare.closed r = w.closed r := by
  rw [closed, relay?_bare, Option.map_map]
  rfl

theorem events_bare (w : World) (r : Nat) : w.bare.events r = w.events r := by
  rw [events, relay?_bare, Option.map_map]
  rfl

theorem notesOf_bare (w : World) (id : SubscriberId) : w.bare.notesOf id = w.notesOf id := by
  rw [notesOf, notesOf, bare, Array.toList_filter, List.filter_filter]
  refine List.filter_congr fun n _ => ?_
  cases n <;> simp [Note.concerns, Note.sparesDeliveries]

namespace SameBareUntimed

theorem concur (h : u.SameBareUntimed v) : u.Concur v := ⟨h.calls.size, h.calls.calls⟩

theorem same {α : Type} {f : World → α} (hf : ∀ w, f w.bare = f w)
    (ht : ∀ w time, f (w.dated time) = f w) (h : u.SameBareUntimed v) : f u = f v :=
  (SameBare.same hf h).trans (ht v u.now)

/-- Until the last report is on the bus of its relay, a call has come back in both or in none. -/
theorem result_cases (h : u.SameBareUntimed v) (hu : u.Visited) (hv : v.Visited) (c : Nat) :
    u.result? c = v.result? c ∨ (u.result? c = none ∨ v.result? c = none) ∧
      ∃ k, u.call? c = some k ∧ u.reported k.relay = true := by
  rcases SameBare.returns h c with ⟨hx, hy⟩ | ⟨x, hx, hy⟩ | ⟨⟨x, hx⟩, hy⟩ | ⟨hx, x, hy⟩
  · exact .inl (hx.trans hy.symm)
  · exact .inl (hx.trans hy.symm)
  · exact .inr ⟨.inr hy, h.concur.reported hu hv hx hy⟩
  · obtain ⟨k, hk, hreported⟩ := h.symm.concur.reported hv hu hy hx
    obtain ⟨j, hj, hm⟩ := h.symm.concur.call?_left hk
    have hevents : u.events k.relay = v.events k.relay :=
      h.same (f := (World.events · k.relay)) (fun w => events_bare w _) fun _ _ => rfl
    refine .inr ⟨.inl hx, j, hj, ?_⟩
    rw [← hm.relay, reported, hevents]
    exact hreported

end SameBareUntimed
end World

/-- Observers have no influence on a relay, nor on each other. Take two runs with the same relay
moves at the same times, whatever their observers do: every reply is the same, and so is every
result of shutdown, unless the last report is made and only one of the calls has come back; so are
the active subscribers, the events on each bus, the queues and the workers, and the deliveries with
their outcomes and times. Observers whose listeners look at their bus alike, one in each run, are
called with the same events and told of the same losses, if none of them or both panic when asked
for their names. -/
theorem observers_detached (hu : Performs ms u) (hv : Performs ns v)
    (hd : ({} : World).relayMoves ms = ({} : World).relayMoves ns) :
    ({} : World).replies ms = ({} : World).replies ns ∧
    (∀ c, u.result? c = v.result? c ∨ (u.result? c = none ∨ v.result? c = none) ∧
      ∃ k, u.call? c = some k ∧ u.reported k.relay = true) ∧
    (∀ r, u.active r = v.active r ∧ u.closed r = v.closed r ∧ u.events r = v.events r) ∧
    u.subscribers = v.subscribers ∧ (∀ id, u.notesOf id = v.notesOf id) ∧
    ∀ r i j, (∀ o p, u.observer? r i = some o → v.observer? r j = some p →
        o.isNamed = p.isNamed) →
      ({} : World).looks r i ms = ({} : World).looks r j ns → u.heard r i = v.heard r j := by
  obtain ⟨h, hreplies⟩ := hu.sameBareUntimed hv hd
  refine ⟨hreplies, h.result_cases hu.visited hv.visited, fun r => ⟨?_, ?_, ?_⟩, ?_, fun id => ?_,
    fun r i j hnames hlooks => ?_⟩
  · exact h.same (f := (World.active · r)) (fun w => World.active_bare w r) fun _ _ => rfl
  · exact h.same (f := (World.closed · r)) (fun w => World.closed_bare w r) fun _ _ => rfl
  · exact h.same (f := (World.events · r)) (fun w => World.events_bare w r) fun _ _ => rfl
  · exact h.same (f := World.subscribers) (fun _ => rfl) fun _ _ => rfl
  · exact h.same (f := (World.notesOf · id)) (fun w => World.notesOf_bare w id) fun _ _ => rfl
  · rcases World.SameBare.relay? h r with ⟨hq, hp⟩ | ⟨q, p, hq, hp, he⟩
    · rw [hu.heard_of_none hq, hv.heard_of_none hp]
    · have hbus : q.core.bus = p.core.bus := by rw [he]
      have hbus : q.bus = p.bus := hbus
      obtain ⟨named, hun, hvn⟩ : ∃ named, (∀ o, u.observer? r i = some o → o.isNamed = named) ∧
          ∀ p, v.observer? r j = some p → p.isNamed = named := by
        cases hv : v.observer? r j with
        | none => exact ⟨((u.observer? r i).map (·.isNamed)).getD true, by simp +contextual, nofun⟩
        | some p =>
          exact ⟨p.isNamed, fun o ho => hnames o p ho hv, fun p' hp => by rw [Option.some.inj hp]⟩
      rw [hu.heard hq hun, hv.heard hp hvn, hbus, hlooks]

namespace World

/-- Which moves are relay moves, with what each has beside the move itself. Unlike relay moves,
stamps can be compared by computing them. -/
def stamps (w : World) : List Move → List (Option (Nat × Option Nat))
  | [] => []
  | m :: ms =>
    (if w.isRelayMove m then some (w.now, w.lateReturns? m) else none) :: (w.move m).stamps ms

theorem relayMoves_eq_of_stamps (w : World) (ms : List Move) :
    w.relayMoves ms = (List.zipWith (fun m s => s.map fun p => RelayMove.mk p.1 m.bare p.2)
      ms (w.stamps ms)).reduceOption := by
  induction ms generalizing w with
  | nil => rfl
  | cons m ms ih =>
    rw [relayMoves, stamps, List.zipWith_cons_cons]
    cases hd : w.isRelayMove m with
    | false =>
      have hnone : w.relayMove? m = none := by rw [relayMove?, if_neg (by simp [hd])]
      rw [gather_cons_none ms hnone]
      exact ih (w.move m)
    | true =>
      have hsome : w.relayMove? m = some ⟨w.now, m.bare, w.lateReturns? m⟩ := by
        rw [relayMove?, if_pos hd]
      rw [gather_cons_some ms hsome]
      exact congrArg (_ :: ·) (ih (w.move m))

end World

namespace Audit

def observer : Observer := { key := "audit", name := "audit" }

/-- It takes ten milliseconds over each event and panics then. -/
def slow : Observer where
  key := "slow"
  name := "slow"
  sleep := fun _ => 10
  panic := fun _ => some .payload

def config : Config := { busCapacity := 1 }
def sink : Sink := { key := "sink", name := "sink" }

/-- The observer alone: it sees the events of a registration and of a publication, and then three
more of which two are gone. -/
def alone : List Move :=
  [.build "relay" config [observer], .register 0 "relay" sink, .step (.listener 0 0),
    .publish 0 .empty, .step (.worker ⟨0⟩), .step (.listener 0 0), .pass 10, .beginShutdown 0,
    .step (.worker ⟨0⟩), .step (.call 0), .step (.listener 0 0), .step (.listener 0 0)]

def beside : List Move :=
  [.build "relay" config [slow, observer], .register 0 "relay" sink, .step (.listener 0 0),
    .step (.listener 0 1), .publish 0 .empty, .step (.worker ⟨0⟩), .step (.listener 0 1),
    .pass 10, .step (.listener 0 0), .beginShutdown 0, .step (.listener 0 0),
    .step (.worker ⟨0⟩), .step (.call 0), .step (.listener 0 1), .step (.listener 0 1)]

theorem stamps_alone : ({} : World).stamps alone =
    [some (0, none), some (0, none), none, some (0, none), some (0, none), none, none,
      some (10, none), some (10, none), some (10, none), none, none] := by
  decide +kernel

theorem stamps_beside : ({} : World).stamps beside =
    [some (0, none), some (0, none), none, none, some (0, none), some (0, none), none, none,
      none, some (10, none), none, some (10, none), some (10, none), none, none] := by
  decide +kernel

theorem performs_alone : Performs alone (({} : World).play alone) := by
  refine ⟨?_, rfl⟩
  have hstep : ∀ {w : World} {t : Task}, w.ready t = true → w.Allows (.step t) := fun h => h
  exact ⟨trivial, rfl, hstep (by decide +kernel), ⟨"relay", rfl⟩, hstep (by decide +kernel),
    hstep (by decide +kernel), trivial, ⟨"relay", rfl⟩,
    hstep (by decide +kernel), hstep (by decide +kernel), hstep (by decide +kernel),
    hstep (by decide +kernel), trivial⟩

theorem performs_beside : Performs beside (({} : World).play beside) := by
  refine ⟨?_, rfl⟩
  have hstep : ∀ {w : World} {t : Task}, w.ready t = true → w.Allows (.step t) := fun h => h
  exact ⟨trivial, rfl, hstep (by decide +kernel), hstep (by decide +kernel), ⟨"relay", rfl⟩,
    hstep (by decide +kernel), hstep (by decide +kernel), trivial, hstep (by decide +kernel),
    ⟨"relay", rfl⟩,
    hstep (by decide +kernel), hstep (by decide +kernel), hstep (by decide +kernel),
    hstep (by decide +kernel), hstep (by decide +kernel), trivial⟩

end Audit

/-- The slow observer panics. The other one, alone or beside it, is called with the first two
events, is told that it has missed two, and is called with the last one. -/
theorem observers_detached_beside :
    (({} : World).play Audit.beside).panics 0 0 = [.payload] ∧
    (({} : World).play Audit.alone).heard 0 0 = (({} : World).play Audit.beside).heard 0 1 ∧
    (({} : World).play Audit.alone).events 0 = (({} : World).play Audit.beside).events 0 ∧
    (({} : World).play Audit.alone).notesOf ⟨0⟩ = (({} : World).play Audit.beside).notesOf ⟨0⟩ ∧
    ∃ d e f, (({} : World).play Audit.alone).heard 0 0 =
      [.event d, .event e, .lagged 2, .event f] := by
  have hmoves : ({} : World).relayMoves Audit.alone = ({} : World).relayMoves Audit.beside := by
    rw [World.relayMoves_eq_of_stamps, World.relayMoves_eq_of_stamps, Audit.stamps_alone,
      Audit.stamps_beside]
    rfl
  have hlooks : ({} : World).looks 0 0 Audit.alone = ({} : World).looks 0 1 Audit.beside := by
    decide +kernel
  have hnames : ∀ o p, (({} : World).play Audit.alone).observer? 0 0 = some o →
      (({} : World).play Audit.beside).observer? 0 1 = some p → o.isNamed = p.isNamed := by
    intro o p ho hp
    obtain rfl : Audit.observer = o := Option.some.inj ho
    obtain rfl : Audit.observer = p := Option.some.inj hp
    rfl
  obtain ⟨-, -, hrelays, -, hnotes, hheard⟩ :=
    observers_detached Audit.performs_alone Audit.performs_beside hmoves
  exact ⟨by decide +kernel, hheard 0 0 1 hnames hlooks, (hrelays 0).2.2, hnotes ⟨0⟩, _, _, _, rfl⟩

end Fanout
