import Fanout.Fault
import Fanout.Value.Tagged

/-! # Messages

A message is an ordered object: unique keys in ascending order, at every level. So the
way it was built leaves no trace, and equality and texts depend on its fields alone.
-/
namespace Fanout

structure Message where
  fields : List (String × Value)
  ordered : (Value.object fields).Ordered
deriving Repr

namespace Message

def empty : Message := ⟨[], by simp [Value.Ordered, Value.Ascending, Value.OrderedFields]⟩

instance : Inhabited Message := ⟨empty⟩

def set (m : Message) (key : String) (value : Value) : Message :=
  ⟨Value.insert key value.order m.fields, by
    have h := m.ordered
    simp only [Value.Ordered] at h ⊢
    exact ⟨Value.ascending_insert h.1,
      Value.orderedFields_insert (Value.ordered_order value) h.2⟩⟩

/-- Fields are set from the first pair to the last, so the last of equal keys stays. -/
def ofList (pairs : List (String × Value)) : Message :=
  pairs.foldl (fun m f => m.set f.1 f.2) empty

def ofValue? : Value → Except RelayError Message
  | .object fields =>
    .ok ⟨Value.orderFields fields [], by
      simpa only [Value.order] using Value.ordered_order (.object fields)⟩
  | v => .error (.notAnObject v.kind)

def toValue (m : Message) : Value := .object m.fields
def get? (m : Message) (key : String) : Option Value := Value.lookup key m.fields
def toList (m : Message) : List (String × Value) := m.fields
def keys (m : Message) : List String := m.fields.map (·.1)
def size (m : Message) : Nat := m.fields.length
def isEmpty (m : Message) : Bool := m.fields.isEmpty
def same (m n : Message) : Bool := m.toValue.same n.toValue

def compact (m : Message) : String := m.toValue.compact

/-- Like the tagged text of an object, without the tag. -/
def debug (m : Message) : String :=
  String.ofList ('\x7b' :: Value.taggedFields m.fields ++ ['\x7d'])

def debugLines (m : Message) : String :=
  String.ofList (Value.block '\x7b' '\x7d' 0 m.fields.isEmpty (Value.taggedFieldLines 1 m.fields))

/-- Messages under names; the latest of a name counts. -/
abbrev Shelf := List (String × Message)

def Shelf.get (shelf : Shelf) (name : String) : Message :=
  (shelf.lookup name).getD empty

def Shelf.put (shelf : Shelf) (name : String) (m : Message) : Shelf :=
  (name, m) :: shelf

end Message
end Fanout
