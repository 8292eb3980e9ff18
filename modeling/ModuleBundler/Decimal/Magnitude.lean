/-! Doubles taken apart. A finite double is a sign and a magnitude, a natural
number times a power of two; every double nearer to a real number than its
neighbours lies in the interval whose ends are halfway to them. -/
namespace ModuleBundler.Decimal

/-- The value `significand * 2 ^ exponent`. -/
structure Magnitude where
  significand : Nat
  exponent : Int
  deriving DecidableEq, Repr

/-- What a double stands for. -/
inductive Reading where
  | finite (negative : Bool) (size : Magnitude)
  | infinite (negative : Bool)
  | notANumber
  deriving DecidableEq, Repr

/-- Fields of the 64-bit format: one sign bit, eleven of exponent, 52 of fraction. -/
def read (x : Float) : Reading :=
  let bits := x.toBits.toNat
  let fraction : Nat := bits % Nat.pow 2 52
  let exponent : Nat := bits / Nat.pow 2 52 % Nat.pow 2 11
  let negative := bits / Nat.pow 2 63 == 1
  if exponent = 2047 then
    if fraction = 0 then .infinite negative else .notANumber
  else if exponent = 0 then .finite negative ⟨fraction, -1074⟩
  else .finite negative ⟨Nat.pow 2 52 + fraction, (exponent : Int) - 1075⟩

namespace Magnitude

/-- The numbers that round to a magnitude, in quarters of its last binary place. Below a power of
two the spacing halves, so that there the lower end is nearer. -/
structure Interval where
  low : Nat
  high : Nat
  closed : Bool

def interval (m : Magnitude) : Interval where
  low := 4 * m.significand - if m.significand = Nat.pow 2 52 ∧ m.exponent ≠ -1074 then 1 else 2
  high := 4 * m.significand + 2
  closed := m.significand % 2 == 0

/-- `a * 2 ^ p` against `b * 10 ^ s`, both made natural by a common factor: the numerators. -/
def scaled (a : Nat) (p : Int) (b : Nat) (s : Int) : Nat × Nat :=
  (a * Nat.pow 2 p.toNat * Nat.pow 10 (-s).toNat, b * Nat.pow 10 s.toNat * Nat.pow 2 (-p).toNat)

/-- Whether `coefficient * 10 ^ place` rounds to the magnitude. -/
def roundsFrom (m : Magnitude) (coefficient : Nat) (place : Int) : Bool :=
  let within := m.interval
  let (low, point) := scaled within.low (m.exponent - 2) coefficient place
  let (high, _) := scaled within.high (m.exponent - 2) coefficient place
  if within.closed then low ≤ point && point ≤ high else low < point && point < high

/-- The greatest power of ten that does not exceed a positive magnitude. The binary length bounds
it within one on each side. -/
def decimalExponent (m : Magnitude) : Int :=
  let guess := (Int.ofNat m.significand.log2 + m.exponent) * 30103 / 100000
  let fits (e : Int) : Bool :=
    let (size, power) := scaled m.significand m.exponent 1 e
    power ≤ size
  ([guess + 1, guess].find? fits).getD (guess - 1)

/-- The magnitude as a natural number, if it is one. -/
def natural? (m : Magnitude) : Option Nat :=
  let unit := Nat.pow 2 (-m.exponent).toNat
  if m.significand % unit = 0 then some (m.significand / unit * Nat.pow 2 m.exponent.toNat)
  else none

end Magnitude

/-- A double as an integer, if it is one. -/
def exactWhole? (x : Float) : Option Int :=
  match read x with
  | .finite negative m => m.natural?.map fun n => if negative then -(n : Int) else n
  | _ => none

end ModuleBundler.Decimal
