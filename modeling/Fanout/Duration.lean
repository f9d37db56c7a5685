/-! # Durations

A duration is a count of nanoseconds. Its text uses the largest of the four units that
it fills at least once, with the rest as an exact decimal fraction: `5s`, `1.5ms`, `0ns`.
-/
namespace Fanout

structure Duration where
  nanoseconds : Nat
deriving DecidableEq, Repr, Inhabited

namespace Duration

def zero : Duration := ⟨0⟩
def perSecond : Nat := 1000000000
def perMillisecond : Nat := 1000000
def perMicrosecond : Nat := 1000

def ofMillis (ms : Nat) : Duration := ⟨ms * perMillisecond⟩
def ofParts (seconds nanos : Nat) : Duration := ⟨seconds * perSecond + nanos⟩

def seconds (d : Duration) : Nat := d.nanoseconds / perSecond
def subsecond (d : Duration) : Nat := d.nanoseconds % perSecond

def millis (d : Duration) : Nat := d.nanoseconds / perMillisecond
/-- Whole milliseconds, rounded up: a timer never fires early. -/
def millisUp (d : Duration) : Nat := (d.nanoseconds + (perMillisecond - 1)) / perMillisecond

theorem ofParts_seconds_subsecond (d : Duration) : ofParts d.seconds d.subsecond = d := by
  simp only [ofParts, seconds, subsecond, Nat.div_add_mod']

/-- A unit of so many nanoseconds, a one with `places` zeros. -/
structure Scale where
  size : Nat
  places : Nat
  suffix : List Char
deriving DecidableEq, Repr

def scale (d : Duration) : Scale :=
  if perSecond ≤ d.nanoseconds then ⟨perSecond, 9, ['s']⟩
  else if perMillisecond ≤ d.nanoseconds then ⟨perMillisecond, 6, ['m', 's']⟩
  else if perMicrosecond ≤ d.nanoseconds then ⟨perMicrosecond, 3, ['µ', 's']⟩
  else ⟨1, 0, ['n', 's']⟩

/-- The lowest `places` decimal digits of a number, highest first. -/
def lowDigits : Nat → Nat → List Char
  | 0, _ => []
  | places + 1, n => lowDigits places (n / 10) ++ [(n % 10).digitChar]

/-- Trailing zeros go, and the point with them when nothing is left. -/
def fraction (places rest : Nat) : List Char :=
  match ((lowDigits places rest).reverse.dropWhile (· = '0')).reverse with
  | [] => []
  | digits => '.' :: digits

def chars (d : Duration) : List Char :=
  let u := d.scale
  Nat.toDigits 10 (d.nanoseconds / u.size) ++
    fraction u.places (d.nanoseconds % u.size) ++ u.suffix

def text (d : Duration) : String := String.ofList d.chars

@[simp] theorem toList_text (d : Duration) : d.text.toList = d.chars := String.toList_ofList

end Duration
end Fanout
