import ModuleBundler.Decimal.Shortest

/-! How messages and log lines write a double: the fewest digits that read back,
positional from `0.0001` up to below `10 ^ 16` and with a signed exponent of at
least two digits outside, always with a point or an exponent. -/
namespace ModuleBundler.Decimal

/-- The names of the values that are no number. -/
structure SpecialNames where
  infinity : String
  notANumber : String

/-- The names that messages use. -/
def SpecialNames.plain : SpecialNames := ⟨"inf", "nan"⟩

/-- The names that JSON lines use. -/
def SpecialNames.json : SpecialNames := ⟨"Infinity", "NaN"⟩

def zeros (count : Nat) : String := String.ofList (List.replicate count '0')

/-- Normalised digits of a positive value, laid out. -/
def Digits.layout (d : Digits) : String :=
  let text := toString d.coefficient
  let point : Int := text.length + d.place
  if -4 < point ∧ point ≤ 16 then
    if d.place ≥ 0 then text ++ zeros d.place.toNat ++ ".0"
    else if point > 0 then
      String.ofList (text.toList.take point.toNat) ++ "." ++
        String.ofList (text.toList.drop point.toNat)
    else "0." ++ zeros (-point).toNat ++ text
  else
    let exponent := point - 1
    let size := toString exponent.natAbs
    String.ofList (text.toList.take 1) ++
      (if text.length > 1 then "." ++ String.ofList (text.toList.drop 1) else "") ++
      (if exponent < 0 then "e-" else "e+") ++ zeros (2 - size.length) ++ size

def signed (negative : Bool) (text : String) : String := if negative then "-" ++ text else text

/-- A double in full, with the given names for the values that are no number. -/
def text (names : SpecialNames) (x : Float) : String :=
  match read x with
  | .notANumber => names.notANumber
  | .infinite negative => signed negative names.infinity
  | .finite negative m =>
    signed negative (if m.significand = 0 then "0.0" else m.shortest.layout)

/-- A double rounded to a whole number, without a point. -/
def wholeText (x : Float) : String :=
  match read x with
  | .notANumber => "nan"
  | .infinite negative => signed negative "inf"
  | .finite negative m => signed negative (toString m.whole)

end ModuleBundler.Decimal
