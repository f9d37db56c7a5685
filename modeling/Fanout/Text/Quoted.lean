import Fanout.Text.Shapeless

/-! # Quoted text

A quoted text stands between double quotes on one line. Quote and backslash take a
backslash, four controls have short names, and every other shapeless character is
written by its code point, so two texts never share a quoted form.
-/
namespace Fanout.Text

/-- `\u`, then the code point in lower-case hexadecimal digits between braces. -/
def codePointEscape (c : Char) : List Char :=
  ['\\', 'u', '\x7b'] ++ Nat.toDigits 16 c.toNat ++ ['\x7d']

def quotedChar (c : Char) : List Char :=
  if c = '"' then ['\\', '"']
  else if c = '\\' then ['\\', '\\']
  else if c.toNat = 0 then ['\\', '0']
  else if c = '\t' then ['\\', 't']
  else if c = '\r' then ['\\', 'r']
  else if c = '\n' then ['\\', 'n']
  else if isShapeless c then codePointEscape c
  else [c]

def quotedChars (cs : List Char) : List Char :=
  '"' :: cs.flatMap quotedChar ++ ['"']

def quote (s : String) : String := String.ofList (quotedChars s.toList)

@[simp] theorem toList_quote (s : String) : (quote s).toList = quotedChars s.toList :=
  String.toList_ofList

end Fanout.Text
