import Fanout.Text.Quoted
import Fanout.Value.Compact

/-! # Tagged text of values

Every value names its kind: `Number(1)`, `String("a")`, `Array [Null]`. On one line, or with
each entry of an array or object on a line of its own, indented by four blanks a level.
-/
namespace Fanout.Value

def taggedScalar (tag : String) (content : List Char) : List Char :=
  tag.toList ++ '(' :: content ++ [')']

mutual

def taggedChars : Value → List Char
  | .null => "Null".toList
  | .bool b => taggedScalar "Bool" (if b then "true".toList else "false".toList)
  | .number n => taggedScalar "Number" n.chars
  | .string s => taggedScalar "String" (Text.quotedChars s.toList)
  | .array items => "Array [".toList ++ taggedItems items ++ [']']
  | .object fields => "Object \x7b".toList ++ taggedFields fields ++ ['\x7d']

def taggedItems : List Value → List Char
  | [] => []
  | [v] => v.taggedChars
  | v :: w :: rest => v.taggedChars ++ ", ".toList ++ taggedItems (w :: rest)

def taggedFields : List (String × Value) → List Char
  | [] => []
  | [(k, v)] => Text.quotedChars k.toList ++ ": ".toList ++ v.taggedChars
  | (k, v) :: f :: rest =>
    Text.quotedChars k.toList ++ ": ".toList ++ v.taggedChars ++ ", ".toList ++
      taggedFields (f :: rest)

end

def indent (level : Nat) : List Char := List.replicate (4 * level) ' '

/-- Brackets that stand alone around indented entries, and close at once around none. -/
def block (opening closing : Char) (level : Nat) (empty : Bool) (body : List Char) : List Char :=
  if empty then [opening, closing] else opening :: '\n' :: body ++ indent level ++ [closing]

mutual

def taggedLines (level : Nat) : Value → List Char
  | .array items =>
    "Array ".toList ++ block '[' ']' level items.isEmpty (taggedItemLines (level + 1) items)
  | .object fields =>
    "Object ".toList ++
      block '\x7b' '\x7d' level fields.isEmpty (taggedFieldLines (level + 1) fields)
  | .null => taggedChars .null
  | .bool b => taggedChars (.bool b)
  | .number n => taggedChars (.number n)
  | .string s => taggedChars (.string s)

def taggedItemLines (level : Nat) : List Value → List Char
  | [] => []
  | v :: rest =>
    indent level ++ v.taggedLines level ++ ",\n".toList ++ taggedItemLines level rest

def taggedFieldLines (level : Nat) : List (String × Value) → List Char
  | [] => []
  | (k, v) :: rest =>
    indent level ++ Text.quotedChars k.toList ++ ": ".toList ++ v.taggedLines level ++
      ",\n".toList ++ taggedFieldLines level rest

end

end Fanout.Value
