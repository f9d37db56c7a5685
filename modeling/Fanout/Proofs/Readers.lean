import Mathlib.Logic.Relation
import Fanout.Proofs.Ring

/-! # All who read a ring

Events are sent on a ring one at a time until nobody is left to send. Between any two of them
anybody may begin to read it, and each reader may ask for its next event whenever it likes. What a
reader is told depends on the ring and on its own place there, and on no other reader.
-/
namespace Fanout

namespace Broadcast

open Bus

variable {β : Type} [Broadcast β]

/-- A reader asks for one event: what it is told, if anything has come, and its position then. -/
def ask (b : β) (closed : Bool) (next : Nat) : Option Mark × Nat :=
  match read b next with
  | .event e next => (some (.event e), next)
  | .lagged count next => (some (.lagged count), next)
  | .nothing => (if closed then some .closed else none, next)

structure Reader where
  start : Nat
  next : Nat
  told : List Mark := []

def Reader.at (next : Nat) : Reader := { start := next, next := next }

def Reader.ask (x : Reader) (b : β) (closed : Bool) : Reader :=
  { x with next := (Broadcast.ask b closed x.next).2
           told := x.told ++ (Broadcast.ask b closed x.next).1.toList }

/-- A reader has been told of everything between its start and its position, and after that of
nothing but the end. -/
structure Reader.Follows (b : β) (closed : Bool) (x : Reader) : Prop where
  start_le : x.start ≤ x.next
  le : x.next ≤ (sent b).length
  told : ∃ ms k, x.told = ms ++ List.replicate k .closed ∧
    Tiles ms (((sent b).drop x.start).take (x.next - x.start)) ∧
    (0 < k → closed = true ∧ x.next = (sent b).length)

/-- A ring with all who read it. -/
structure WithReaders (β : Type) where
  bus : β
  closed : Bool := false
  readers : List Reader := []

namespace WithReaders

inductive Step : WithReaders β → WithReaders β → Prop where
  | publish {b : β} {xs : List Reader} (e : Event) : Step ⟨b, false, xs⟩ ⟨send b e, false, xs⟩
  | close {b : β} {closed : Bool} {xs : List Reader} : Step ⟨b, closed, xs⟩ ⟨b, true, xs⟩
  | subscribe {b : β} {closed : Bool} {xs : List Reader} :
    Step ⟨b, closed, xs⟩ ⟨b, closed, xs ++ [.at (sent b).length]⟩
  | receive {b : β} {closed : Bool} {xs : List Reader} {i : Nat} {x : Reader} :
    xs[i]? = some x → Step ⟨b, closed, xs⟩ ⟨b, closed, xs.set i (x.ask b closed)⟩

abbrev Run : WithReaders β → WithReaders β → Prop := Relation.ReflTransGen Step

def Reached (n : Nat) (A : WithReaders β) : Prop := Run { bus := create n } A

def only (A : WithReaders β) (i : Nat) : WithReaders β := { A with readers := A.readers[i]?.toList }

end WithReaders

variable {b c : β} {closed : Bool} {next : Nat} {x : Reader}

namespace Reader.Follows

theorem of_tiles (hstart : x.start ≤ x.next) (hle : x.next ≤ (sent b).length)
    (htiles : Tiles x.told (((sent b).drop x.start).take (x.next - x.start))) :
    x.Follows b closed :=
  ⟨hstart, hle, x.told, 0, (List.append_nil _).symm, htiles, nofun⟩

theorem new (b : β) (closed : Bool) : (Reader.at (sent b).length).Follows b closed := by
  refine of_tiles (Nat.le_refl _) (Nat.le_refl _) ?_
  rw [Reader.at, Nat.sub_self, List.take_zero]
  exact .nil

theorem tiles (h : x.Follows b closed) (hpos : 0 < unread b x.next) :
    Tiles x.told (((sent b).drop x.start).take (x.next - x.start)) := by
  obtain ⟨ms, k, htold, htiles, hend⟩ := h.told
  have hzero : k = 0 := by
    by_contra hne
    have hnext := (hend (Nat.pos_of_ne_zero hne)).2
    rw [unread, hnext, Nat.sub_self] at hpos
    exact Nat.lt_irrefl 0 hpos
  rw [htold, hzero, List.replicate_zero, List.append_nil]
  exact htiles

theorem close (h : x.Follows b closed) : x.Follows b true := by
  obtain ⟨hstart, hle, ms, k, htold, htiles, hend⟩ := h
  exact ⟨hstart, hle, ms, k, htold, htiles, fun hk => ⟨rfl, (hend hk).2⟩⟩

end Reader.Follows

section Lawful

variable [LawfulBroadcast β]

theorem ask_of_lost (h : slots b < unread b next) : ask b closed next =
    (some (.lagged (unread b next - slots b)), (sent b).length - slots b) := by
  have hr : read b next = .lagged (unread b next - slots b) ((sent b).length - slots b) :=
    LawfulBroadcast.read_lost b next h
  rw [ask, hr]

theorem ask_of_kept (hsome : 0 < unread b next) (hkept : unread b next ≤ slots b)
    (closed : Bool) : ∃ e, (sent b)[next]? = some e ∧ ask b closed next =
      (some (.event e), next + 1) := by
  rcases read_cases b next with ⟨hlag, -⟩ | ⟨e, he, -, hr⟩ | ⟨hle, -⟩
  · omega
  · exact ⟨e, he, by rw [ask, hr]⟩
  · rw [unread] at hsome
    omega

theorem ask_of_none (h : unread b next = 0) :
    ask b closed next = (if closed then some .closed else none, next) := by
  have hr : read b next = .nothing :=
    LawfulBroadcast.read_none b next (Nat.le_of_sub_eq_zero h)
  rw [ask, hr]

/-- What is older than the ring makes no difference to anyone. -/
theorem ask_eq_of_kept (hslots : slots c = slots b) (hlen : (sent c).length = (sent b).length)
    (hkept : ∀ i, (sent b).length ≤ i + slots b → (sent c)[i]? = (sent b)[i]?) :
    ask c closed next = ask b closed next := by
  have hunread : unread c next = unread b next := by rw [unread, unread, hlen]
  rcases Nat.lt_or_ge (slots b) (unread b next) with hlost | hle
  · rw [ask_of_lost hlost, ask_of_lost (by rw [hslots, hunread]; exact hlost), hslots, hunread,
      hlen]
  · rcases Nat.eq_zero_or_pos (unread b next) with hnone | hpos
    · rw [ask_of_none hnone, ask_of_none (hunread.trans hnone)]
    · obtain ⟨e, he, hb⟩ := ask_of_kept hpos hle closed
      obtain ⟨d, hd, hc⟩ := ask_of_kept (b := c) (hunread ▸ hpos)
        (by rw [hslots, hunread]; exact hle) closed
      have hsame : (sent c)[next]? = (sent b)[next]? := by
        apply hkept
        rw [unread] at hle
        omega
      obtain rfl := Option.some.inj (hd.symm.trans (hsame.trans he))
      rw [hb, hc]

namespace Reader.Follows

theorem ask_lost (h : x.Follows b closed) (hlost : slots b < unread b x.next) :
    (x.ask b closed).Follows b closed := by
  have hle := h.start_le
  have hlen : ((sent b).drop x.start).length = (sent b).length - x.start := List.length_drop
  have hcount : unread b x.next = (sent b).length - x.start - (x.next - x.start) := by
    rw [unread]
    omega
  have hnext : x.start ≤ (sent b).length - slots b := by
    rw [unread] at hlost
    omega
  have hread := (h.tiles (Nat.zero_lt_of_lt hlost)).read_lagged (hlen ▸ hcount ▸ hlost)
  rw [hlen, ← hcount, Nat.sub_right_comm] at hread
  rw [Reader.ask, ask_of_lost hlost]
  exact of_tiles hnext (Nat.sub_le ..) hread

theorem ask_kept (h : x.Follows b closed) (hpos : 0 < unread b x.next)
    (hkept : unread b x.next ≤ slots b) : (x.ask b closed).Follows b closed := by
  have hle := h.start_le
  obtain ⟨e, he, hask⟩ := ask_of_kept hpos hkept closed
  have hlt : x.next < (sent b).length := (List.getElem?_eq_some_iff.mp he).1
  have hfind : ((sent b).drop x.start)[x.next - x.start]? = some e := by
    rw [List.getElem?_drop, Nat.add_sub_cancel' hle, he]
  have hread := (h.tiles hpos).read_event hfind
  rw [← Nat.sub_add_comm hle] at hread
  rw [Reader.ask, hask]
  exact of_tiles (Nat.le_succ_of_le hle) hlt hread

theorem ask_none (h : x.Follows b closed) (hnone : unread b x.next = 0) :
    (x.ask b closed).Follows b closed := by
  obtain ⟨hstart, hle, ms, k, htold, htiles, hend⟩ := h
  have hnext : x.next = (sent b).length := Nat.le_antisymm hle (Nat.le_of_sub_eq_zero hnone)
  rw [Reader.ask, ask_of_none hnone]
  cases closed with
  | false => exact ⟨hstart, hle, ms, k, by simpa using htold, htiles, hend⟩
  | true =>
    refine ⟨hstart, hle, ms, k + 1, ?_, htiles, fun _ => ⟨rfl, hnext⟩⟩
    simp [htold, List.replicate_succ']

theorem ask (h : x.Follows b closed) : (x.ask b closed).Follows b closed := by
  rcases Nat.eq_zero_or_pos (unread b x.next) with hnone | hpos
  · exact h.ask_none hnone
  · rcases Nat.lt_or_ge (slots b) (unread b x.next) with hlost | hkept
    · exact h.ask_lost hlost
    · exact h.ask_kept hpos hkept

theorem send (h : x.Follows b false) (e : Event) : x.Follows (Broadcast.send b e) false := by
  obtain ⟨hstart, hle, ms, k, htold, htiles, hend⟩ := h
  have hsent := LawfulBroadcast.sent_send b e
  refine ⟨hstart, ?_, ms, k, htold, ?_, fun hk => ?_⟩
  · rw [hsent, List.length_append]
    exact Nat.le_add_right_of_le hle
  · have hlen : x.next - x.start ≤ ((sent b).drop x.start).length := by
      rw [List.length_drop]
      exact Nat.sub_le_sub_right hle _
    rw [hsent, List.drop_append_of_le_length (Nat.le_trans hstart hle),
      List.take_append_of_le_length hlen]
    exact htiles
  · cases (hend hk).1

end Reader.Follows

namespace WithReaders

variable {A B : WithReaders β} {n i : Nat}

theorem Step.slots (h : Step A B) : Broadcast.slots B.bus = Broadcast.slots A.bus := by
  cases h with
  | publish e => exact LawfulBroadcast.slots_send ..
  | close | subscribe | receive => rfl

theorem Reached.isLeast_slots (h : A.Reached n) :
    IsLeast {m | m.isPowerOfTwo ∧ max n 1 ≤ m} (Broadcast.slots A.bus) := by
  induction h with
  | refl => exact LawfulBroadcast.isLeast_slots n
  | tail _ hs ih => exact hs.slots.symm ▸ ih

theorem Step.follows (h : Step A B) (ha : ∀ x ∈ A.readers, x.Follows A.bus A.closed) :
    ∀ x ∈ B.readers, x.Follows B.bus B.closed := by
  cases h with
  | publish e => exact fun x hx => (ha x hx).send e
  | close => exact fun x hx => (ha x hx).close
  | subscribe =>
    intro x hx
    rcases List.mem_append.mp hx with hx | hx
    · exact ha x hx
    · obtain rfl := List.mem_singleton.mp hx
      exact Reader.Follows.new ..
  | receive hi =>
    intro x hx
    rcases List.mem_or_eq_of_mem_set hx with hx | rfl
    · exact ha x hx
    · exact (ha _ (List.mem_of_getElem? hi)).ask

theorem Reached.follows (h : A.Reached n) : ∀ x ∈ A.readers, x.Follows A.bus A.closed := by
  induction h with
  | refl => exact nofun
  | tail _ hs ih => exact hs.follows ih

end WithReaders

end Lawful

namespace WithReaders

variable {A B : WithReaders β} {n : Nat}

theorem Step.only (h : Step A B) (i : Nat) : A.only i = B.only i ∨ Step (A.only i) (B.only i) := by
  cases h with
  | publish e => exact .inr (.publish e)
  | close => exact .inr .close
  | @subscribe b closed xs =>
    rcases Nat.lt_trichotomy i xs.length with hlt | rfl | hgt
    · left
      simp [WithReaders.only, List.getElem?_append_left hlt]
    · right
      have hnew := @Step.subscribe β _ b closed []
      simpa [WithReaders.only] using hnew
    · left
      simp [WithReaders.only, Nat.le_of_lt hgt]
      omega
  | @receive b closed xs j x hj =>
    by_cases hij : j = i
    · subst hij
      right
      have hask := @Step.receive β _ b closed [x] 0 x rfl
      obtain ⟨hlt, -⟩ := List.getElem?_eq_some_iff.mp hj
      have hset := List.getElem?_set_self (a := x.ask b closed) hlt
      show Step ⟨b, closed, xs[j]?.toList⟩ ⟨b, closed, (xs.set j (x.ask b closed))[j]?.toList⟩
      rw [hj, hset]
      exact hask
    · left
      simp [WithReaders.only, List.getElem?_set_ne hij]

theorem Run.only (h : Run A B) (i : Nat) : Run (A.only i) (B.only i) := by
  induction h with
  | refl => exact .refl
  | tail _ hs ih =>
    rcases hs.only i with he | hs
    · exact he ▸ ih
    · exact ih.tail hs

/-- A reader is where it would be if there had never been another one. -/
theorem Reached.only (h : A.Reached n) (i : Nat) : (A.only i).Reached n := Run.only h i

theorem run_publish (b : β) (xs : List Reader) (es : List Event) :
    Run ⟨b, false, xs⟩ ⟨es.foldl send b, false, xs⟩ := by
  induction es generalizing b with
  | nil => exact .refl
  | cons e es ih => exact .head (.publish e) (ih (send b e))

end WithReaders

end Broadcast

namespace Bus

theorem foldl_push (b : Bus) (es : List Event) :
    es.foldl push b = { b with events := b.events ++ es.toArray } := by
  induction es generalizing b with
  | nil => simp
  | cons e es ih => simp [ih, push]

theorem asks_drain (b : Bus) (closed : Bool) (start fuel : Nat) (next : Nat) (told : List Mark) :
    (Broadcast.Reader.ask · b closed)^[(b.drain next fuel).1.length] ⟨start, next, told⟩ =
      ⟨start, (b.drain next fuel).2, told ++ (b.drain next fuel).1⟩ := by
  induction fuel generalizing next told with
  | zero => simp [drain]
  | succ fuel ih =>
    rw [drain]
    have hread : Broadcast.read b next = b.read next := rfl
    cases hr : b.read next with
    | nothing => simp
    | event e n =>
      have hask : Broadcast.Reader.ask ⟨start, next, told⟩ b closed =
          ⟨start, n, told ++ [.event e]⟩ := by
        simp [Broadcast.Reader.ask, Broadcast.ask, hread, hr]
      simp [Function.iterate_succ_apply, hask, ih]
    | lagged count n =>
      have hask : Broadcast.Reader.ask ⟨start, next, told⟩ b closed =
          ⟨start, n, told ++ [.lagged count]⟩ := by
        simp [Broadcast.Reader.ask, Broadcast.ask, hread, hr]
      simp [Function.iterate_succ_apply, hask, ih]

theorem unread_drain (b : Bus) (fuel next : Nat) (h : b.unread next < fuel) :
    b.unread (b.drain next fuel).2 = 0 := by
  induction fuel generalizing next with
  | zero => omega
  | succ fuel ih =>
    rw [drain]
    rcases b.read_cases next with ⟨hlag, hr⟩ | ⟨e, he, -, hr⟩ | ⟨hle, hr⟩
    · rw [hr]
      apply ih
      simp only [unread] at h hlag ⊢
      omega
    · rw [hr]
      apply ih
      have hlt : next < b.size := (Array.getElem?_eq_some_iff.mp he).1
      simp only [unread] at h ⊢
      omega
    · rw [hr, unread]
      exact Nat.sub_eq_zero_of_le hle

end Bus
end Fanout
