import Fanout.Proofs.Fields

/-! # Equality of values

Two values are equal when they are the same tree but for the signs of zeros. So equality is an
equivalence, it goes down to whatever stands at a place of both values, and a part may be replaced
by an equal one.
-/
namespace Fanout

def Number.Signed.unsigned {f : Number.BinaryFormat} (x : Number.Signed f) : Number.Signed f :=
  ⟨x.negative && !x.magnitude.isZero, x.magnitude⟩

theorem Number.Signed.same_iff_unsigned_eq {f : Number.BinaryFormat} {x y : Number.Signed f} :
    x.same y = true ↔ x.unsigned = y.unsigned := by
  simp only [Number.Signed.same, Number.Signed.unsigned, Number.Signed.mk.injEq, Bool.and_eq_true,
    Bool.or_eq_true, beq_iff_eq]
  constructor
  · rintro ⟨hm, hs⟩
    refine ⟨?_, hm⟩
    rw [← hm]
    rcases hs with hs | hz
    · rw [hs]
    · rw [hz, Bool.not_true, Bool.and_false, Bool.and_false]
  · rintro ⟨hs, hm⟩
    refine ⟨hm, ?_⟩
    rw [← hm] at hs
    cases hz : x.magnitude.isZero with
    | true => exact .inr rfl
    | false => exact .inl (by simpa [hz] using hs)

def Double.zero (negative : Bool) : Double := ⟨negative, ⟨0, 0, by decide⟩⟩

theorem Double.same_zero (b c : Bool) : (Double.zero b).same (Double.zero c) = true := by
  cases b <;> cases c <;> rfl

def Numeral.unsigned : Numeral → Numeral
  | .whole n => .whole n
  | .float x => .float x.unsigned

theorem Numeral.same_iff_unsigned_eq {m n : Numeral} :
    m.same n = true ↔ m.unsigned = n.unsigned := by
  cases m <;> cases n <;>
    simp [Numeral.same, Numeral.unsigned, Number.Signed.same_iff_unsigned_eq]

namespace Value

mutual

/-- A value with the sign of every zero in it erased. -/
def unsigned : Value → Value
  | .number n => .number n.unsigned
  | .array items => .array (unsignedItems items)
  | .object fields => .object (unsignedFields fields)
  | v => v

def unsignedItems : List Value → List Value
  | [] => []
  | v :: rest => v.unsigned :: unsignedItems rest

def unsignedFields : List (String × Value) → List (String × Value)
  | [] => []
  | (k, v) :: rest => (k, v.unsigned) :: unsignedFields rest

end

variable {u v w c d : Value} {items : List Value} {fields : List (String × Value)}

theorem unsignedItems_eq_map (items : List Value) : unsignedItems items = items.map unsigned := by
  induction items with
  | nil => rfl
  | cons v rest ih => rw [unsignedItems, ih, List.map_cons]

theorem unsignedFields_eq_map (fields : List (String × Value)) :
    unsignedFields fields = fields.map fun f => (f.1, f.2.unsigned) := by
  induction fields with
  | nil => rfl
  | cons f rest ih => rw [unsignedFields, ih, List.map_cons]

theorem lookup_unsignedFields (key : String) (fields : List (String × Value)) :
    lookup key (unsignedFields fields) = (lookup key fields).map unsigned := by
  induction fields with
  | nil => rfl
  | cons f rest ih =>
    rw [unsignedFields, lookup_cons, lookup_cons, ih, apply_ite (Option.map unsigned)]
    rfl

theorem Ascending.unsignedFields (h : Ascending fields) : Ascending (unsignedFields fields) := by
  rw [unsignedFields_eq_map]
  exact List.pairwise_map.mpr h

theorem sameItems_iff {xs ys : List Value}
    (ih : ∀ x ∈ xs, ∀ w, x.same w = true ↔ x.unsigned = w.unsigned) :
    sameItems xs ys = true ↔ unsignedItems xs = unsignedItems ys := by
  induction xs generalizing ys with
  | nil => cases ys <;> simp [sameItems, unsignedItems]
  | cons x xs ihs =>
    cases ys with
    | nil => simp [sameItems, unsignedItems]
    | cons y ys =>
      rw [sameItems, Bool.and_eq_true, ih x List.mem_cons_self,
        ihs fun z hz => ih z (List.mem_cons_of_mem x hz), unsignedItems, unsignedItems,
        List.cons.injEq]

theorem sameFields_iff {fs gs : List (String × Value)}
    (ih : ∀ f ∈ fs, ∀ w, f.2.same w = true ↔ f.2.unsigned = w.unsigned) :
    sameFields fs gs = true ↔ unsignedFields fs = unsignedFields gs := by
  induction fs generalizing gs with
  | nil => cases gs <;> simp [sameFields, unsignedFields]
  | cons f fs ihs =>
    cases gs with
    | nil => simp [sameFields, unsignedFields]
    | cons g gs =>
      rw [sameFields, Bool.and_eq_true, Bool.and_eq_true, beq_iff_eq, ih f List.mem_cons_self,
        ihs fun h hh => ih h (List.mem_cons_of_mem f hh), unsignedFields, unsignedFields,
        List.cons.injEq, Prod.mk.injEq]

theorem same_iff_unsigned_eq : v.same w = true ↔ v.unsigned = w.unsigned := by
  induction v using tree_induction generalizing w with
  | number m =>
    cases w with
    | number n =>
      rw [same, unsigned, unsigned, Value.number.injEq]
      exact Numeral.same_iff_unsigned_eq
    | _ => simp [same, unsigned]
  | array xs ih =>
    cases w with
    | array ys =>
      rw [same, unsigned, unsigned, Value.array.injEq]
      exact sameItems_iff fun x hx _ => ih x hx
    | _ => simp [same, unsigned]
  | object fs ih =>
    cases w with
    | object gs =>
      rw [same, unsigned, unsigned, Value.object.injEq]
      exact sameFields_iff fun f hf _ => ih f hf
    | _ => simp [same, unsigned]
  | _ => cases w <;> simp [same, unsigned]

theorem same_refl (v : Value) : v.same v = true := same_iff_unsigned_eq.mpr rfl

theorem same_symm (h : v.same w = true) : w.same v = true :=
  same_iff_unsigned_eq.mpr (same_iff_unsigned_eq.mp h).symm

theorem same_trans (h : u.same v = true) (k : v.same w = true) : u.same w = true :=
  same_iff_unsigned_eq.mpr ((same_iff_unsigned_eq.mp h).trans (same_iff_unsigned_eq.mp k))

/-- Equal values, or none on either side. -/
abbrev Agree : Option Value → Option Value → Prop := Option.Rel fun v w => v.same w = true

theorem agree_iff {a b : Option Value} : Agree a b ↔ a.map unsigned = b.map unsigned := by
  cases a <;> cases b <;> simp [Agree, same_iff_unsigned_eq]

inductive Step where
  | key (k : String)
  | index (i : Nat)
deriving DecidableEq, Repr

def child? : Value → Step → Option Value
  | .object fields, .key k => lookup k fields
  | .array items, .index i => items[i]?
  | _, _ => none

def at? (v : Value) : List Step → Option Value
  | [] => some v
  | s :: path => (v.child? s).bind (·.at? path)

theorem child?_unsigned (v : Value) (s : Step) :
    v.unsigned.child? s = (v.child? s).map unsigned := by
  cases v with
  | object fields =>
    cases s with
    | key k => exact lookup_unsignedFields k fields
    | index i => rfl
  | array items =>
    cases s with
    | key k => rfl
    | index i =>
      rw [unsigned, child?, unsignedItems_eq_map]
      exact List.getElem?_map
  | _ => rfl

theorem at?_unsigned (v : Value) (path : List Step) :
    v.unsigned.at? path = (v.at? path).map unsigned := by
  induction path generalizing v with
  | nil => rfl
  | cons s path ih =>
    rw [at?, child?_unsigned, at?]
    cases v.child? s with
    | none => rfl
    | some c => exact ih c

theorem at?_same (h : v.same w = true) (path : List Step) : Agree (v.at? path) (w.at? path) := by
  rw [agree_iff, ← at?_unsigned, ← at?_unsigned, same_iff_unsigned_eq.mp h]

def setField (k : String) (w : Value) : List (String × Value) → List (String × Value)
  | [] => []
  | f :: rest => if f.1 = k then (k, w) :: rest else f :: setField k w rest

def setChild : Value → Step → Value → Value
  | .object fields, .key k, w => .object (setField k w fields)
  | .array items, .index i, w => .array (items.set i w)
  | v, _, _ => v

def put (d : Value) : List Step → Value → Value
  | [], _ => d
  | s :: path, v => (v.child? s).elim v fun c => v.setChild s (put d path c)

theorem sameFields_setField {k : String} (hc : lookup k fields = some c) (h : c.same d = true) :
    sameFields fields (setField k d fields) = true := by
  induction fields with
  | nil => exact absurd hc nofun
  | cons f rest ih =>
    rw [lookup_cons] at hc
    rw [setField]
    split
    · rename_i hk
      rw [if_pos hk, Option.some.injEq] at hc
      have hrest : sameFields rest rest = true :=
        (sameFields_iff fun _ _ _ => same_iff_unsigned_eq).mpr rfl
      rw [sameFields, hk, beq_self_eq_true, hc, h, hrest]
      rfl
    · rename_i hk
      rw [if_neg hk] at hc
      rw [sameFields, beq_self_eq_true, same_refl, ih hc]
      rfl

theorem same_setChild {s : Step} (hc : v.child? s = some c) (h : c.same d = true) :
    v.same (v.setChild s d) = true := by
  cases v with
  | object fields =>
    cases s with
    | key k => exact sameFields_setField hc h
    | index i => exact same_refl _
  | array items =>
    cases s with
    | key k => exact same_refl _
    | index i =>
      obtain ⟨hi, rfl⟩ := List.getElem?_eq_some_iff.mp hc
      rw [same_iff_unsigned_eq, setChild, unsigned, unsigned, unsignedItems_eq_map,
        unsignedItems_eq_map, List.map_set, ← same_iff_unsigned_eq.mp h, ← List.map_set,
        List.set_getElem_self]
  | _ => exact same_refl _

theorem same_put {path : List Step} (hc : v.at? path = some c) (h : c.same d = true) :
    v.same (put d path v) = true := by
  induction path generalizing v with
  | nil =>
    obtain rfl := Option.some.inj hc
    exact h
  | cons s path ih =>
    obtain ⟨e, he, hc⟩ := Option.bind_eq_some_iff.mp hc
    rw [put, he]
    exact same_setChild he (ih hc)

end Value
end Fanout
