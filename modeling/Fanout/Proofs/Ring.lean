import Mathlib.Order.Bounds.Basic
import Fanout.Bus

/-! # What a reader of a broadcast ring is told

A reader finds the event at its position, unless the ring has lost it: then the reader is told how
many are gone and goes on with the oldest one kept. So the events that it finds and the stretches
that it lost are laid end to end in the order in which they were sent.
-/
namespace Fanout

/-- A broadcast ring, with all that was ever sent on it. -/
class Broadcast (β : Type) where
  create : Nat → β
  send : β → Event → β
  slots : β → Nat
  sent : β → List Event
  read : β → Nat → Bus.Found

/-- What is relied on of a broadcast ring. -/
class LawfulBroadcast (β : Type) [Broadcast β] : Prop where
  isLeast_slots (n : Nat) :
    IsLeast {m | m.isPowerOfTwo ∧ max n 1 ≤ m} (Broadcast.slots (Broadcast.create n : β))
  sent_create (n : Nat) : Broadcast.sent (Broadcast.create n : β) = []
  slots_send (b : β) (e : Event) : Broadcast.slots (Broadcast.send b e) = Broadcast.slots b
  sent_send (b : β) (e : Event) : Broadcast.sent (Broadcast.send b e) = Broadcast.sent b ++ [e]
  /-- The last events sent are kept, as many as there are slots. -/
  read_kept (b : β) (next : Nat) (e : Event) : (Broadcast.sent b)[next]? = some e →
    (Broadcast.sent b).length - next ≤ Broadcast.slots b →
    Broadcast.read b next = .event e (next + 1)
  read_lost (b : β) (next : Nat) : Broadcast.slots b < (Broadcast.sent b).length - next →
    Broadcast.read b next = .lagged ((Broadcast.sent b).length - next - Broadcast.slots b)
      ((Broadcast.sent b).length - Broadcast.slots b)
  read_none (b : β) (next : Nat) : (Broadcast.sent b).length ≤ next →
    Broadcast.read b next = .nothing

namespace Broadcast

variable {β : Type} [Broadcast β]

def unread (b : β) (next : Nat) : Nat := (sent b).length - next

theorem read_cases [LawfulBroadcast β] (b : β) (next : Nat) :
    (slots b < unread b next ∧
      read b next = .lagged (unread b next - slots b) ((sent b).length - slots b)) ∨
    (∃ e, (sent b)[next]? = some e ∧ unread b next ≤ slots b ∧
      read b next = .event e (next + 1)) ∨
    ((sent b).length ≤ next ∧ read b next = .nothing) := by
  rcases Nat.lt_or_ge (slots b) (unread b next) with hlost | hkept
  · exact .inl ⟨hlost, LawfulBroadcast.read_lost b next hlost⟩
  · cases he : (sent b)[next]? with
    | some e => exact .inr (.inl ⟨e, rfl, hkept, LawfulBroadcast.read_kept b next e he hkept⟩)
    | none =>
      have hend := List.getElem?_eq_none_iff.mp he
      exact .inr (.inr ⟨hend, LawfulBroadcast.read_none b next hend⟩)

end Broadcast

namespace Bus

theorem isLeast_ringSize (n : Nat) : IsLeast {m | m.isPowerOfTwo ∧ n ≤ m} (ringSize n) := by
  rw [ringSize]
  by_cases hn : n ≤ 1
  · rw [if_pos hn]
    refine ⟨⟨⟨0, rfl⟩, hn⟩, ?_⟩
    rintro m ⟨hm, -⟩
    exact Nat.pos_of_isPowerOfTwo hm
  · rw [if_neg hn]
    have hpow : 2 * Nat.pow 2 (n - 1).log2 = Nat.pow 2 ((n - 1).log2 + 1) := Nat.mul_comm ..
    rw [hpow]
    refine ⟨⟨⟨_, rfl⟩, ?_⟩, ?_⟩
    · have hlt : n - 1 < Nat.pow 2 ((n - 1).log2 + 1) := Nat.lt_log2_self
      omega
    · rintro m ⟨⟨k, rfl⟩, hk⟩
      have hlog : (n - 1).log2 < k := (Nat.log2_lt (by omega)).mpr (by omega)
      exact Nat.pow_le_pow_right Nat.zero_lt_two hlog

instance : Broadcast Bus where
  create := ofCapacity
  send := push
  slots := slots
  sent b := b.events.toList
  read := read

def unread (b : Bus) (next : Nat) : Nat := b.size - next

instance : LawfulBroadcast Bus where
  isLeast_slots n := isLeast_ringSize (max n 1)
  sent_create _ := rfl
  slots_send _ _ := rfl
  sent_send _ _ := Array.toList_push
  read_kept b next e he hkept := by
    have hfind : b.events[next]? = some e := Array.getElem?_toList.symm.trans he
    have hle : b.size - next ≤ b.slots := hkept
    show b.read next = _
    rw [read, if_neg (Nat.not_lt.mpr hle), hfind]
  read_lost b next hlost := if_pos hlost
  read_none b next hend := by
    have hnone : b.events[next]? = none := Array.getElem?_eq_none_iff.mpr hend
    have hend : b.size ≤ next := hend
    have hle : b.size - next ≤ b.slots := by omega
    show b.read next = _
    rw [read, if_neg (Nat.not_lt.mpr hle), hnone]

theorem read_of_lost {b : Bus} {next : Nat} (h : b.slots < b.unread next) :
    b.read next = .lagged (b.unread next - b.slots) (b.size - b.slots) :=
  LawfulBroadcast.read_lost b next h

theorem read_cases (b : Bus) (next : Nat) :
    (b.slots < b.unread next ∧
      b.read next = .lagged (b.unread next - b.slots) (b.size - b.slots)) ∨
    (∃ e, b.events[next]? = some e ∧ b.unread next ≤ b.slots ∧
      b.read next = .event e (next + 1)) ∨
    (b.size ≤ next ∧ b.read next = .nothing) := by
  simp only [← Array.getElem?_toList]
  exact Broadcast.read_cases b next

/-- Marks tile a list of events: each event in its place, and between them stretches that were
lost, each with its length. -/
inductive Tiles : List Mark → List Event → Prop where
  | nil : Tiles [] []
  | event {ms : List Mark} {es : List Event} (e : Event) : Tiles ms es →
    Tiles (ms ++ [.event e]) (es ++ [e])
  | lagged {ms : List Mark} {es : List Event} (lost : List Event) : lost ≠ [] → Tiles ms es →
    Tiles (ms ++ [.lagged lost.length]) (es ++ lost)

def Mark.event? : Mark → Option Event
  | .event e => some e
  | .lagged _ | .closed => none

theorem Tiles.sublist {ms : List Mark} {es : List Event} (h : Tiles ms es) :
    (ms.filterMap Mark.event?).Sublist es := by
  induction h with
  | nil => exact .slnil
  | event e _ ih =>
    rw [List.filterMap_append]
    exact ih.append (List.Sublist.refl _)
  | lagged lost _ _ ih =>
    rw [List.filterMap_append]
    exact ih.append (List.nil_sublist lost)

/-- Where nothing was lost, every event was found. -/
theorem Tiles.eq_of_no_lag {ms : List Mark} {es : List Event} (h : Tiles ms es)
    (hn : ∀ n, Mark.lagged n ∉ ms) : ms = es.map .event := by
  induction h with
  | nil => rfl
  | event e _ ih =>
    rw [ih fun n hm => hn n (List.mem_append_left _ hm), List.map_append]
    rfl
  | lagged lost => exact absurd (List.mem_append_right _ (List.mem_singleton.mpr rfl)) (hn _)

theorem Tiles.read_event {ms : List Mark} {es : List Event} {n : Nat} {e : Event}
    (h : Tiles ms (es.take n)) (he : es[n]? = some e) :
    Tiles (ms ++ [.event e]) (es.take (n + 1)) := by
  rw [List.take_add_one, he]
  exact h.event e

theorem Tiles.read_lagged {ms : List Mark} {es : List Event} {n slots : Nat}
    (h : Tiles ms (es.take n)) (hl : slots < es.length - n) :
    Tiles (ms ++ [.lagged (es.length - n - slots)]) (es.take (es.length - slots)) := by
  let lost := (es.drop n).take (es.length - n - slots)
  have hlen : lost.length = es.length - n - slots := by
    rw [List.length_take, List.length_drop]
    omega
  have htake : es.take (es.length - slots) = es.take n ++ lost := by
    rw [← List.take_add]
    congr 1
    omega
  have hne : lost ≠ [] := by
    intro hnil
    rw [hnil, List.length_nil] at hlen
    omega
  rw [htake, ← hlen]
  exact h.lagged lost hne

end Bus
end Fanout
