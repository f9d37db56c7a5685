import Fanout.Value

/-! # Reading values

A recursive reader of object notation. Blanks are skipped between tokens. An integer
literal within one machine word is an integer; any other literal, and the negative zero,
is a float. Fields are kept as they stand, repeated keys included.
-/
namespace Fanout.Value

def isBlank (c : Char) : Bool := c = ' ' || c = '\t' || c = '\n' || c = '\r'

def skipBlanks (cs : List Char) : List Char := cs.dropWhile isBlank

def hexDigit? (c : Char) : Option Nat :=
  if '0' ≤ c ∧ c ≤ '9' then some (c.toNat - '0'.toNat)
  else if 'a' ≤ c ∧ c ≤ 'f' then some (c.toNat - 'a'.toNat + 10)
  else if 'A' ≤ c ∧ c ≤ 'F' then some (c.toNat - 'A'.toNat + 10)
  else none

def hexUnit? (a b c d : Char) : Option Nat :=
  match hexDigit? a, hexDigit? b, hexDigit? c, hexDigit? d with
  | some a, some b, some c, some d => some (((a * 16 + b) * 16 + c) * 16 + d)
  | _, _, _, _ => none

def shortEscape? : Char → Option Char
  | '"' => some '"'
  | '\\' => some '\\'
  | '/' => some '/'
  | 'b' => some '\x08'
  | 'f' => some '\x0c'
  | 'n' => some '\n'
  | 'r' => some '\r'
  | 't' => some '\t'
  | _ => none

/-- The rest of a string behind its opening quote, and what follows the closing one. `high`
is the first half of a surrogate pair whose second half has to come next. -/
def readString (high : Option Nat) : List Char → Option (List Char × List Char)
  | [] => none
  | '"' :: rest => if high.isNone then some ([], rest) else none
  | '\\' :: 'u' :: a :: b :: c :: d :: rest =>
    match hexUnit? a b c d, high with
    | some u, none =>
      if 0xD800 ≤ u ∧ u < 0xDC00 then readString (some u) rest
      else if 0xDC00 ≤ u ∧ u < 0xE000 then none
      else (readString none rest).map fun r => (Char.ofNat u :: r.1, r.2)
    | some u, some h =>
      if 0xDC00 ≤ u ∧ u < 0xE000 then
        let code := 0x10000 + (h - 0xD800) * 0x400 + (u - 0xDC00)
        (readString none rest).map fun r => (Char.ofNat code :: r.1, r.2)
      else none
    | none, _ => none
  | '\\' :: c :: rest =>
    match shortEscape? c, high with
    | some e, none => (readString none rest).map fun r => (e :: r.1, r.2)
    | _, _ => none
  | c :: rest =>
    if high.isSome || c.toNat < 0x20 then none
    else (readString none rest).map fun r => (c :: r.1, r.2)

def isNumberChar (c : Char) : Bool :=
  c.isDigit || c = '-' || c = '+' || c = '.' || c = 'e' || c = 'E'

def floatOf? (negative : Bool) (body : List Char) : Option Value :=
  (Number.readDecimal? body).bind fun d =>
    (d.magnitude? Number.double).map fun m => .number (.float ⟨negative, m⟩)

def numberOf? (literal : List Char) : Option Value :=
  let (negative, body) := match literal with
    | '-' :: r => (true, r)
    | r => (false, r)
  if !body.isEmpty && body.all Char.isDigit then
    let n : Int := Number.digitsValue body
    let whole := if negative then (if n = 0 then none else Whole.ofInt? (-n)) else Whole.ofInt? n
    match whole with
    | some w => some (.number (.whole w))
    | none => floatOf? negative body
  else floatOf? negative body

def word? (word : String) (value : Value) (cs : List Char) : Option (Value × List Char) :=
  let w := word.toList
  if w.isPrefixOf cs then some (value, cs.drop w.length) else none

mutual

def readValue : Nat → List Char → Option (Value × List Char)
  | 0, _ => none
  | fuel + 1, cs =>
    match skipBlanks cs with
    | '"' :: rest => (readString none rest).map fun r => (.string (String.ofList r.1), r.2)
    | '[' :: rest =>
      match skipBlanks rest with
      | ']' :: rest => some (.array [], rest)
      | rest => (readItems fuel rest).map fun r => (.array r.1, r.2)
    | '\x7b' :: rest =>
      match skipBlanks rest with
      | '\x7d' :: rest => some (.object [], rest)
      | rest => (readFields fuel rest).map fun r => (.object r.1, r.2)
    | 'n' :: rest => word? "null" .null ('n' :: rest)
    | 't' :: rest => word? "true" (.bool true) ('t' :: rest)
    | 'f' :: rest => word? "false" (.bool false) ('f' :: rest)
    | rest => (numberOf? (rest.takeWhile isNumberChar)).map (·, rest.dropWhile isNumberChar)

def readItems : Nat → List Char → Option (List Value × List Char)
  | 0, _ => none
  | fuel + 1, cs =>
    (readValue fuel cs).bind fun (v, rest) =>
      match skipBlanks rest with
      | ',' :: rest => (readItems fuel rest).map fun r => (v :: r.1, r.2)
      | ']' :: rest => some ([v], rest)
      | _ => none

def readFields : Nat → List Char → Option (List (String × Value) × List Char)
  | 0, _ => none
  | fuel + 1, cs =>
    match skipBlanks cs with
    | '"' :: rest =>
      (readString none rest).bind fun (key, rest) =>
        match skipBlanks rest with
        | ':' :: rest =>
          (readValue fuel rest).bind fun (v, rest) =>
            match skipBlanks rest with
            | ',' :: rest =>
              (readFields fuel rest).map fun r => ((String.ofList key, v) :: r.1, r.2)
            | '\x7d' :: rest => some ([(String.ofList key, v)], rest)
            | _ => none
        | _ => none
    | _ => none

end

/-- Every call consumes a character or is followed by one that does, so twice the length
of the text bounds the depth. -/
def read? (s : String) : Option Value :=
  let cs := s.toList
  (readValue (2 * cs.length + 2) cs).bind fun (v, rest) =>
    if (skipBlanks rest).isEmpty then some v else none

end Fanout.Value
