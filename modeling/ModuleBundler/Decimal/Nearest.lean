import ModuleBundler.Decimal.Shortest

/-! Numerals to doubles. A decimal numeral or an integer becomes the double
nearest to it, a half going to the even significand. A numeral beyond the range
becomes an infinity; an integer beyond it has no double. -/
namespace ModuleBundler.Decimal

/-- The double nearest to a decimal. Far outside the range the answer needs no arithmetic: the
binary length of the coefficient tells its decimal one to within a place. -/
def Digits.toFloat (d : Digits) : Float :=
  let length : Int := Int.ofNat d.coefficient.log2 * 30103 / 100000 + d.place
  if d.coefficient = 0 ∨ length < -340 then 0.0
  else if length > 340 then 1.0 / 0.0
  else Float.ofScientific d.coefficient (d.place < 0) d.place.natAbs

/-- The double nearest to an integer, if it lies within the range. -/
def floatOfInt? (n : Int) : Option Float :=
  if n.natAbs.log2 > 1024 then none
  else
    let x := Float.ofInt n
    if x.isInf then none else some x

/-- The integer nearest to a double, a half going to the even neighbour. -/
def nearestWhole? (x : Float) : Option Int :=
  match read x with
  | .finite negative m => some (if negative then -(m.whole : Int) else m.whole)
  | _ => none

/-- The integer next to a double on the side of zero. -/
def truncated? (x : Float) : Option Int := exactWhole? (if x < 0.0 then x.ceil else x.floor)

/-- A number of a setting or a request: whole numbers keep their kind. -/
inductive Number where
  | whole (n : Int)
  | real (x : Float)

namespace Number

def toFloat? : Number → Option Float
  | whole n => floatOfInt? n
  | real x => some x

/-- Neither zero counts as set; a value that is no number does. -/
def isZero : Number → Bool
  | whole n => n == 0
  | real x => x == 0.0

end Number
end ModuleBundler.Decimal
