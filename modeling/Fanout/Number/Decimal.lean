import Fanout.Number.Binary

/-! # Decimal notation of binary numbers

Reading takes digits and a power of ten to the nearest number of a format. Writing uses
the fewest digits that read back as the same number, of those the nearest, and lays them
out positionally or with an exponent.
-/
namespace Fanout.Number

/-- `digits * 10 ^ exponent`. -/
structure Decimal where
  digits : Nat
  exponent : Int
deriving DecidableEq, Repr

namespace Decimal

abbrev powerOfTen (n : Nat) : Nat := Nat.pow 10 n

/-- Powers of ten beyond this one are out of reach of the formats on either side. -/
def reach : Int := 400

def magnitude? (f : BinaryFormat) (d : Decimal) : Option (Magnitude f) :=
  let top := d.exponent + (Nat.toDigits 10 d.digits).length
  if d.digits = 0 ∨ top < -reach then Magnitude.round? f 0 1
  else if reach < top then none
  else if 0 ≤ d.exponent then Magnitude.round? f (d.digits * powerOfTen d.exponent.toNat) 1
  else Magnitude.round? f d.digits (powerOfTen (-d.exponent).toNat)

/-- The exponent of the leading decimal digit of a positive fraction. -/
def leading (num den : Nat) : Int :=
  if den ≤ num then (Nat.toDigits 10 (num / den)).length - 1
  else
    let l := (Nat.toDigits 10 (den / num)).length
    if den = num * powerOfTen (l - 1) then -((l : Int) - 1) else -(l : Int)

/-- The fractions that round to a magnitude: between `low / den` and `high / den`, ends
included when the significand is even. -/
structure Interval where
  low : Nat
  value : Nat
  high : Nat
  den : Nat
  closed : Bool
deriving Repr

def Interval.of {f : BinaryFormat} (x : Magnitude f) : Interval :=
  let step := powerOfTwo x.scale
  let value := 4 * x.significand * step
  let below :=
    if x.significand = powerOfTwo (f.precision - 1) ∧ x.scale ≠ 0 then step else 2 * step
  ⟨value - below, value, value + 2 * step, 4 * powerOfTwo f.unit, x.significand % 2 = 0⟩

def num (d : Decimal) : Nat := d.digits * powerOfTen d.exponent.toNat
def den (d : Decimal) : Nat := powerOfTen (-d.exponent).toNat

def Interval.contains (i : Interval) (d : Decimal) : Bool :=
  let v := d.num * i.den
  let low := i.low * d.den
  let high := i.high * d.den
  if i.closed then low ≤ v && v ≤ high else low < v && v < high

/-- The neighbours of the value among the multiples of `10 ^ exponent`. -/
def Interval.neighbours (i : Interval) (exponent : Int) : Decimal × Decimal :=
  let q := i.value * powerOfTen (-exponent).toNat / (i.den * powerOfTen exponent.toNat)
  (⟨q, exponent⟩, ⟨q + 1, exponent⟩)

def distance (a b : Nat) : Nat := (a - b) + (b - a)

/-- Of two neighbours the nearer to the value; at equal distance the even one. -/
def Interval.nearer (i : Interval) (a b : Decimal) : Decimal :=
  let da := distance (a.num * i.den) (i.value * a.den)
  let db := distance (b.num * i.den) (i.value * b.den)
  if da < db then a else if db < da then b else if a.digits % 2 = 0 then a else b

def Interval.pick (i : Interval) (exponent : Int) : Option Decimal :=
  let (a, b) := i.neighbours exponent
  match a.digits != 0 && i.contains a, i.contains b with
  | true, true => some (i.nearer a b)
  | true, false => some a
  | false, true => some b
  | false, false => none

/-- Tries ever finer grids, from one digit on. -/
def Interval.search (i : Interval) (exponent : Int) : Nat → Decimal
  | 0 => (i.neighbours exponent).1
  | fuel + 1 => (i.pick exponent).getD (i.search (exponent - 1) fuel)

def strip (d : Decimal) : Nat → Decimal
  | 0 => d
  | fuel + 1 =>
    if d.digits ≠ 0 ∧ d.digits % 10 = 0 then strip ⟨d.digits / 10, d.exponent + 1⟩ fuel else d

/-- Seventeen digits tell any two doubles apart; zero is `0`. -/
def shortest {f : BinaryFormat} (x : Magnitude f) : Decimal :=
  if x.significand = 0 then ⟨0, 0⟩
  else
    let i := Interval.of x
    (i.search (leading i.value i.den) 17).strip 17

/-- Numbers whose leading digit has an exponent in this range are written positionally. -/
structure Layout where
  plainFrom : Int
  plainBelow : Int
deriving Repr

/-- Positional from `0.00001` up to sixteen digits before the point. -/
def layout : Layout := ⟨-5, 16⟩

/-- Positional text of digits whose leading one stands for `10 ^ e`; always with a fraction. -/
def plain (digits : List Char) (e : Int) : List Char :=
  if e < 0 then ['0', '.'] ++ List.replicate ((-e).toNat - 1) '0' ++ digits
  else
    let whole := e.toNat + 1
    let integer := digits.take whole ++ List.replicate (whole - digits.length) '0'
    let rest := digits.drop whole
    integer ++ ['.'] ++ (if rest.isEmpty then ['0'] else rest)

/-- One digit before the point, no point when it is alone, and a signed exponent. -/
def scientific (digits : List Char) (e : Int) : List Char :=
  let head := digits.take 1
  let rest := digits.drop 1
  head ++ (if rest.isEmpty then [] else '.' :: rest) ++
    ['e', if e < 0 then '-' else '+'] ++ Nat.toDigits 10 e.natAbs

def chars (d : Decimal) : List Char :=
  let digits := Nat.toDigits 10 d.digits
  let e := d.exponent + digits.length - 1
  if layout.plainFrom ≤ e ∧ e < layout.plainBelow then plain digits e
  else scientific digits e

end Decimal

def Signed.chars {f : BinaryFormat} (x : Signed f) : List Char :=
  (if x.negative then ['-'] else []) ++ (Decimal.shortest x.magnitude).chars

/-- What a numeric text may stand for. -/
inductive Reading (f : BinaryFormat) where
  | finite (x : Signed f)
  | infinite (negative : Bool)
  | undefined
deriving DecidableEq, Repr

def digitsValue (cs : List Char) : Nat :=
  cs.foldl (fun n c => n * 10 + (c.toNat - '0'.toNat)) 0

/-- Digits with an optional point and an optional exponent; some digit has to be there. -/
def readDecimal? (cs : List Char) : Option Decimal :=
  let whole := cs.takeWhile Char.isDigit
  let afterWhole := cs.dropWhile Char.isDigit
  let (part, afterPart) := match afterWhole with
    | '.' :: r => (r.takeWhile Char.isDigit, r.dropWhile Char.isDigit)
    | r => ([], r)
  let decimal (e : Int) : Option Decimal :=
    if whole.isEmpty && part.isEmpty then none
    else some ⟨digitsValue (whole ++ part), e - part.length⟩
  let power (r : List Char) : Option Nat :=
    if r.isEmpty || !r.all Char.isDigit then none else some (digitsValue r)
  match afterPart with
  | [] => decimal 0
  | c :: r =>
    if c = 'e' ∨ c = 'E' then
      match r with
      | '-' :: r => (power r).bind fun n => decimal (-(n : Int))
      | '+' :: r => (power r).bind fun n => decimal n
      | r => (power r).bind fun n => decimal n
    else none

/-- The nearest number of the format; a decimal beyond it is infinite. -/
def Reading.ofDecimal (f : BinaryFormat) (negative : Bool) (d : Decimal) : Reading f :=
  match d.magnitude? f with
  | some m => .finite ⟨negative, m⟩
  | none => .infinite negative

/-- A sign, then a decimal or one of the words for infinity and for no number, in any case. -/
def Reading.read? (f : BinaryFormat) (s : String) : Option (Reading f) :=
  let (negative, body) := match s.toList with
    | '-' :: r => (true, r)
    | '+' :: r => (false, r)
    | r => (false, r)
  let word := String.ofList (body.map Char.toLower)
  if word = "inf" ∨ word = "infinity" then some (.infinite negative)
  else if word = "nan" then some .undefined
  else (readDecimal? body).map (Reading.ofDecimal f negative)

/-- In a wider format the number is the same; what is finite stays finite there. -/
def Reading.convert {f : BinaryFormat} (g : BinaryFormat) : Reading f → Reading g
  | .finite x => match x.convert? g with
    | some y => .finite y
    | none => .infinite x.negative
  | .infinite negative => .infinite negative
  | .undefined => .undefined

end Fanout.Number
