/-! # Binary floating-point numbers

A format keeps significands of `precision` bits on a grid of powers of two whose finest
step is `2 ^ -unit`. Rounding works on exact fractions of natural numbers: the nearest
member of the grid, a tie to the even significand, nothing beyond the largest scale.
-/
namespace Fanout.Number

structure BinaryFormat where
  precision : Nat
  unit : Nat
  maxScale : Nat
deriving DecidableEq, Repr

def single : BinaryFormat := ⟨24, 149, 253⟩
def double : BinaryFormat := ⟨53, 1074, 2045⟩

/-- The nearest natural number to `num / den`, a half to the even neighbour. -/
def roundHalfEven (num den : Nat) : Nat :=
  let q := num / den
  let r := 2 * (num % den)
  if r < den then q else if den < r then q + 1 else q + q % 2

abbrev powerOfTwo (n : Nat) : Nat := Nat.pow 2 n

def bitLength (n : Nat) : Nat := if n = 0 then 0 else n.log2 + 1

/-- A non-negative member of a format: `significand * 2 ^ scale` steps of `2 ^ -unit`.
The significand is full unless the scale is already the finest. -/
structure Magnitude (f : BinaryFormat) where
  significand : Nat
  scale : Nat
  fits : significand < powerOfTwo f.precision ∧ scale ≤ f.maxScale ∧
    (scale = 0 ∨ powerOfTwo (f.precision - 1) ≤ significand)
deriving DecidableEq, Repr

namespace Magnitude
variable {f : BinaryFormat}

def ofParts? (significand scale : Nat) : Option (Magnitude f) :=
  if h : significand < powerOfTwo f.precision ∧ scale ≤ f.maxScale ∧
      (scale = 0 ∨ powerOfTwo (f.precision - 1) ≤ significand)
  then some ⟨significand, scale, h⟩ else none

/-- The magnitude nearest to `num / den`; none when it lies beyond the format. A significand
that rounds up to the next power of two moves to the next scale. -/
def round? (f : BinaryFormat) (num den : Nat) : Option (Magnitude f) :=
  let steps := num * powerOfTwo f.unit
  let scale := bitLength (steps / den) - f.precision
  let significand := roundHalfEven steps (den * powerOfTwo scale)
  if significand = powerOfTwo f.precision then ofParts? (powerOfTwo (f.precision - 1)) (scale + 1)
  else ofParts? significand scale

def isZero (x : Magnitude f) : Bool := x.significand == 0

end Magnitude

/-- A finite number of a format. Zero has both signs. -/
structure Signed (f : BinaryFormat) where
  negative : Bool
  magnitude : Magnitude f
deriving DecidableEq, Repr

namespace Signed
variable {f : BinaryFormat}

/-- Numeric equality: the sign of zero does not count. -/
def same (x y : Signed f) : Bool :=
  x.magnitude == y.magnitude && (x.negative == y.negative || x.magnitude.isZero)

def convert? (g : BinaryFormat) (x : Signed f) : Option (Signed g) :=
  (Magnitude.round? g (x.magnitude.significand * powerOfTwo x.magnitude.scale)
    (powerOfTwo f.unit)).map
    (⟨x.negative, ·⟩)

end Signed
end Fanout.Number
