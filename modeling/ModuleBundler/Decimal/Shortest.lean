import ModuleBundler.Decimal.Magnitude

/-! The fewest digits that read back. For each number of digits the two
neighbours of the value on that decimal grid are tried; the first grid with a
neighbour inside the rounding interval wins, and of two the nearer. Seventeen
digits always suffice. -/
namespace ModuleBundler.Decimal

/-- Greatest number of decimal digits that a whole number is read from or shown with. -/
def digitLimit : Nat := 4300

/-- The value `coefficient * 10 ^ place`. -/
structure Digits where
  coefficient : Nat
  place : Int
  deriving DecidableEq, Repr

namespace Digits

/-- Moves the zeros at the end of the coefficient into the place. -/
def normalize (d : Digits) : Digits :=
  if positive : 0 < d.coefficient ∧ d.coefficient % 10 = 0 then
    normalize ⟨d.coefficient / 10, d.place + 1⟩
  else d
  termination_by d.coefficient
  decreasing_by
    have := positive.1
    show d.coefficient / 10 < d.coefficient
    omega

end Digits

namespace Magnitude

/-- The neighbour on the grid of `count` digits that reads back, if one does. -/
def onGrid? (m : Magnitude) (count : Nat) : Option Digits :=
  let place := m.decimalExponent - count + 1
  let (size, unit) := scaled m.significand m.exponent 1 place
  let below := size / unit
  let rest := size % unit
  let lower := m.roundsFrom below place
  let upper := m.roundsFrom (below + 1) place
  if lower && upper then
    let up := unit < 2 * rest || (2 * rest == unit && below % 2 == 1)
    some ⟨if up then below + 1 else below, place⟩
  else if lower then some ⟨below, place⟩
  else if upper then some ⟨below + 1, place⟩
  else none

/-- Digits of a positive magnitude, as few as read back. -/
def shortest (m : Magnitude) : Digits :=
  (((List.range 17).findSome? fun i => m.onGrid? (i + 1)).getD
    ⟨m.significand, 0⟩).normalize

/-- The magnitude rounded to a whole number, a half going to the even neighbour. -/
def whole (m : Magnitude) : Nat :=
  let (size, unit) := scaled m.significand m.exponent 1 0
  let rest := size % unit
  if unit < 2 * rest || (2 * rest == unit && size / unit % 2 == 1) then size / unit + 1
  else size / unit

end Magnitude
end ModuleBundler.Decimal
