import Fanout.Number.Decimal

/-! # Structured values

Payloads are trees of scalars, arrays and objects. A number is an integer of one
machine word, with or without a sign, or a finite double; the two classes never mix.
An object is a list of fields; a value is ordered when every object in it lists its keys
in strictly ascending order, which is the one form that messages hold.
-/
namespace Fanout

/-- An integer of 64 bits, with a sign or without: from `-2^63` up to `2^64 - 1`. -/
structure Whole where
  val : Int
  inRange : -9223372036854775808 ≤ val ∧ val ≤ 18446744073709551615
deriving DecidableEq, Repr

def Whole.ofInt? (i : Int) : Option Whole :=
  if h : -9223372036854775808 ≤ i ∧ i ≤ 18446744073709551615 then some ⟨i, h⟩ else none

def Whole.ofNat (n : Nat) : Whole :=
  ⟨min n 18446744073709551615, by omega, by omega⟩

abbrev Double := Number.Signed Number.double

inductive Numeral where
  | whole (n : Whole)
  | float (x : Double)
deriving DecidableEq, Repr

inductive Value where
  | null
  | bool (b : Bool)
  | number (n : Numeral)
  | string (s : String)
  | array (items : List Value)
  | object (fields : List (String × Value))
deriving Repr, Inhabited

namespace Value

def ofNat (n : Nat) : Value := .number (.whole (.ofNat n))

/-- Only finite numbers have a place among values; the others become null. -/
def ofReading : Number.Reading Number.double → Value
  | .finite x => .number (.float x)
  | _ => .null

def kind : Value → String
  | .null => "null"
  | .bool _ => "bool"
  | .number _ => "number"
  | .string _ => "string"
  | .array _ => "array"
  | .object _ => "object"

end Value

/-- Integers never equal floats; the sign of a zero does not count. -/
def Numeral.same : Numeral → Numeral → Bool
  | .whole m, .whole n => m == n
  | .float x, .float y => x.same y
  | _, _ => false

namespace Value

mutual

/-- Equality of ordered values: structural but for the numbers. -/
def same : Value → Value → Bool
  | .null, .null => true
  | .bool a, .bool b => a == b
  | .number m, .number n => m.same n
  | .string s, .string t => s == t
  | .array xs, .array ys => sameItems xs ys
  | .object xs, .object ys => sameFields xs ys
  | _, _ => false

def sameItems : List Value → List Value → Bool
  | [], [] => true
  | x :: xs, y :: ys => same x y && sameItems xs ys
  | _, _ => false

def sameFields : List (String × Value) → List (String × Value) → Bool
  | [], [] => true
  | (k, x) :: xs, (l, y) :: ys => k == l && same x y && sameFields xs ys
  | _, _ => false

end

/-- Keys ascend in the order of their code points, which is that of their UTF-8 bytes. -/
def Ascending (fields : List (String × Value)) : Prop :=
  fields.Pairwise fun a b => a.1 < b.1

mutual

def Ordered : Value → Prop
  | .array items => OrderedItems items
  | .object fields => Ascending fields ∧ OrderedFields fields
  | _ => True

def OrderedItems : List Value → Prop
  | [] => True
  | v :: rest => v.Ordered ∧ OrderedItems rest

def OrderedFields : List (String × Value) → Prop
  | [] => True
  | (_, v) :: rest => v.Ordered ∧ OrderedFields rest

end

/-- Sets a field of an ascending list; a field of the same key is replaced. -/
def insert (key : String) (value : Value) : List (String × Value) → List (String × Value)
  | [] => [(key, value)]
  | (k, v) :: rest =>
    if key < k then (key, value) :: (k, v) :: rest
    else if key = k then (key, value) :: rest
    else (k, v) :: insert key value rest

def lookup (key : String) (fields : List (String × Value)) : Option Value :=
  (fields.find? fun f => f.1 == key).map (·.2)

mutual

/-- The ordered form: at every level the last of equal keys stays. -/
def order : Value → Value
  | .array items => .array (orderItems items)
  | .object fields => .object (orderFields fields [])
  | v => v

def orderItems : List Value → List Value
  | [] => []
  | v :: rest => v.order :: orderItems rest

/-- Fields are set one after the other, from the first to the last. -/
def orderFields : List (String × Value) → List (String × Value) → List (String × Value)
  | [], done => done
  | (k, v) :: rest, done => orderFields rest (insert k v.order done)

end

theorem mem_insert {key : String} {value : Value} {fields : List (String × Value)}
    {f : String × Value} (h : f ∈ insert key value fields) : f = (key, value) ∨ f ∈ fields := by
  induction fields with
  | nil => simpa [insert] using h
  | cons g rest ih =>
    obtain ⟨k, v⟩ := g
    simp only [insert] at h
    split at h
    · simpa using h
    · split at h
      · exact (List.mem_cons.1 h).imp_right (List.mem_cons_of_mem _)
      · rcases List.mem_cons.1 h with rfl | h
        · exact Or.inr List.mem_cons_self
        · exact (ih h).imp_right (List.mem_cons_of_mem _)

theorem ascending_insert {key : String} {value : Value} {fields : List (String × Value)}
    (h : Ascending fields) : Ascending (insert key value fields) := by
  induction fields with
  | nil => simp [insert, Ascending]
  | cons g rest ih =>
    obtain ⟨k, v⟩ := g
    obtain ⟨above, tail⟩ := List.pairwise_cons.1 h
    simp only [insert]
    split
    · rename_i low
      refine List.pairwise_cons.2 ⟨fun f hf => ?_, h⟩
      rcases List.mem_cons.1 hf with rfl | hf
      · exact low
      · exact Std.lt_trans low (above f hf)
    · split
      · rename_i same
        exact List.pairwise_cons.2 ⟨fun f hf => same ▸ above f hf, tail⟩
      · rename_i low same
        refine List.pairwise_cons.2 ⟨fun f hf => ?_, ih tail⟩
        rcases mem_insert hf with rfl | hf
        · exact Std.lt_of_le_of_ne (Std.not_lt.1 low) (Ne.symm same)
        · exact above f hf

theorem orderedFields_iff {fields : List (String × Value)} :
    OrderedFields fields ↔ ∀ f ∈ fields, f.2.Ordered := by
  induction fields with
  | nil => simp [OrderedFields]
  | cons g rest ih => simp [OrderedFields, ih]

theorem orderedFields_insert {key : String} {value : Value} {fields : List (String × Value)}
    (hv : value.Ordered) (h : OrderedFields fields) : OrderedFields (insert key value fields) := by
  rw [orderedFields_iff] at h ⊢
  intro f hf
  rcases mem_insert hf with rfl | hf
  · exact hv
  · exact h f hf

mutual

theorem ordered_order : (v : Value) → v.order.Ordered
  | .null | .bool _ | .number _ | .string _ => by simp [order, Ordered]
  | .array items => by simpa [order, Ordered] using ordered_orderItems items
  | .object fields => by
    simpa only [order, Ordered] using
      ordered_orderFields fields [] List.Pairwise.nil (by simp [OrderedFields])

theorem ordered_orderItems : (items : List Value) → OrderedItems (orderItems items)
  | [] => by simp [orderItems, OrderedItems]
  | v :: rest => by
    simpa only [orderItems, OrderedItems] using ⟨ordered_order v, ordered_orderItems rest⟩

theorem ordered_orderFields : (fields done : List (String × Value)) → Ascending done →
    OrderedFields done →
    Ascending (orderFields fields done) ∧ OrderedFields (orderFields fields done)
  | [], _, ha, ho => by simpa only [orderFields] using ⟨ha, ho⟩
  | (k, v) :: rest, done, ha, ho => by
    simpa only [orderFields] using ordered_orderFields rest (insert k v.order done)
      (ascending_insert ha) (orderedFields_insert (ordered_order v) ho)

end

end Value
end Fanout
