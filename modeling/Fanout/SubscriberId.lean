import Fanout.Text.Quoted

/-! # Identifiers of subscribers

An identifier is a serial number that no other subscriber has. Its text has the form of a
universally unique identifier: thirty hexadecimal digits of the serial number around the
version digit `4` and the variant digit `8`, in groups of 8, 4, 4, 4 and 12.
-/
namespace Fanout

structure SubscriberId where
  serial : Nat
deriving DecidableEq, Repr, Inhabited

namespace SubscriberId

/-- Hexadecimal digits, padded with zeros to the given width. -/
def hexDigits (width n : Nat) : List Char :=
  let digits := Nat.toDigits 16 n
  List.replicate (width - digits.length) '0' ++ digits

def chars (id : SubscriberId) : List Char :=
  let d := hexDigits 30 id.serial
  let head := d.length - 22
  d.take head ++ '-' :: (d.drop head).take 4 ++ '-' :: '4' :: (d.drop (head + 4)).take 3 ++
    '-' :: '8' :: (d.drop (head + 7)).take 3 ++ '-' :: d.drop (head + 10)

def text (id : SubscriberId) : String := String.ofList id.chars

def isLowerHex (c : Char) : Bool := c.isDigit || ('a' ≤ c && c ≤ 'f')

/-- The shape of a lower-case, hyphenated identifier of version 4. -/
def wellFormed (cs : List Char) : Bool :=
  cs.length = 36 &&
  ((List.range 36).zip cs).all fun (i, c) =>
    if i = 8 ∨ i = 13 ∨ i = 18 ∨ i = 23 then c = '-'
    else if i = 14 then c = '4'
    else if i = 19 then c = '8' || c = '9' || c = 'a' || c = 'b'
    else isLowerHex c

/-- The first identifiers, from zero on. -/
def first (n : Nat) : List SubscriberId := (List.range n).map (⟨·⟩)

end SubscriberId
end Fanout
