import Fanout.Value

/-! # Compact text of values

One line without blanks. Strings escape the quote, the backslash and the controls below
the space; everything else stands for itself.
-/
namespace Fanout

def Numeral.chars : Numeral → List Char
  | .whole n => (if n.val < 0 then ['-'] else []) ++ Nat.toDigits 10 n.val.natAbs
  | .float x => x.chars

namespace Value

def hexUnit (n : Nat) : List Char :=
  [n / 4096 % 16, n / 256 % 16, n / 16 % 16, n % 16].map Nat.digitChar

def compactChar (c : Char) : List Char :=
  if c = '"' then ['\\', '"']
  else if c = '\\' then ['\\', '\\']
  else if c.toNat = 0x08 then ['\\', 'b']
  else if c.toNat = 0x0C then ['\\', 'f']
  else if c = '\n' then ['\\', 'n']
  else if c = '\r' then ['\\', 'r']
  else if c = '\t' then ['\\', 't']
  else if c.toNat < 0x20 then ['\\', 'u'] ++ hexUnit c.toNat
  else [c]

def compactString (s : String) : List Char := '"' :: s.toList.flatMap compactChar ++ ['"']

mutual

def compactChars : Value → List Char
  | .null => "null".toList
  | .bool b => if b then "true".toList else "false".toList
  | .number n => n.chars
  | .string s => compactString s
  | .array items => '[' :: compactItems items ++ [']']
  | .object fields => '\x7b' :: compactFields fields ++ ['\x7d']

def compactItems : List Value → List Char
  | [] => []
  | [v] => v.compactChars
  | v :: w :: rest => v.compactChars ++ ',' :: compactItems (w :: rest)

def compactFields : List (String × Value) → List Char
  | [] => []
  | [(k, v)] => compactString k ++ ':' :: v.compactChars
  | (k, v) :: f :: rest =>
    compactString k ++ ':' :: v.compactChars ++ ',' :: compactFields (f :: rest)

end

def compact (v : Value) : String := String.ofList v.compactChars

end Value
end Fanout
