import ModuleBundler.Decimal.Nearest
import ModuleBundler.Proofs.Decimal.Interval

/-! The 64-bit format. The fields of a double are the digits of one natural number, so a
double is told by its sign and its magnitude, and packing these is undone by unpacking. -/
namespace ModuleBundler.Decimal

open Float.Model Float.Model.UnpackedFloat

/-- The sign of a number that is negative or not. -/
def signOf (negative : Bool) : Sign := if negative then .negative else .positive

/-- The double of a sign and a magnitude. -/
def pack (sign : Sign) (m : Magnitude) : Float :=
  .ofModel (.pack (if positive : 0 < m.significand then
    .finite sign m.significand m.exponent positive else .zero sign))

/-- The exponent field; the least exponent has two, with and without a first bit. -/
def Magnitude.field (m : Magnitude) : ℕ :=
  if 2 ^ 52 ≤ m.significand then (m.exponent + 1075).toNat else 0

theorem toNat_append {w v : ℕ} (x : BitVec w) (y : BitVec v) :
    (x ++ y).toNat = x.toNat * 2 ^ v + y.toNat := by
  rw [BitVec.toNat_append, ← Nat.shiftLeft_add_eq_or_of_lt y.isLt, Nat.shiftLeft_eq]

theorem toNat_packComponents (sign : Sign) (exponent : BitVec 11) (fraction : BitVec 52) :
    (packComponents Format.binary64 sign exponent fraction).toNat =
      sign.toBitVec.toNat * 2 ^ 63 + exponent.toNat * 2 ^ 52 + fraction.toNat := by
  have fields : (packComponents Format.binary64 sign exponent fraction).toNat =
      ((sign.toBitVec ++ exponent) ++ fraction).toNat := rfl
  rw [fields, toNat_append, toNat_append]
  ring

theorem toNat_unpackExponent (bits : BitVec 64) :
    (@unpackExponent Format.binary64 bits).toNat = bits.toNat / 2 ^ 52 % 2 ^ 11 := by
  change (bits.toNat >>> 52) % 2 ^ 11 = _
  rw [Nat.shiftRight_eq_div_pow]

theorem toNat_unpackSign (bits : BitVec 64) :
    (@unpackSign Format.binary64 bits).toNat = bits.toNat / 2 ^ 63 % 2 := by
  change (bits.toNat >>> 63) % 2 = _
  rw [Nat.shiftRight_eq_div_pow]

theorem ofBitVec_toBitVec (sign : Sign) : Sign.ofBitVec sign.toBitVec = sign := by
  cases sign <;> rfl

theorem unpackSign_packComponents (sign : Sign) (exponent : BitVec 11) (fraction : BitVec 52) :
    unpackSign (packComponents Format.binary64 sign exponent fraction) = sign.toBitVec := by
  refine BitVec.eq_of_toNat_eq ((toNat_unpackSign _).trans ?_)
  rw [toNat_packComponents]
  have := exponent.isLt
  have := fraction.isLt
  have := sign.toBitVec.isLt
  omega

namespace Magnitude

variable {m : Magnitude}

theorem IsDouble.field_lt (double : m.IsDouble) : m.field < 2047 := by
  have := double.greatest
  unfold field
  split <;> omega

theorem IsDouble.pack_finite (double : m.IsDouble) (positive : 0 < m.significand) (sign : Sign) :
    UnpackedFloat.pack Format.binary64 (.finite sign m.significand m.exponent positive) =
      packComponents Format.binary64 sign (BitVec.ofNat 11 m.field)
        (BitVec.ofNat 52 m.significand) := by
  have range : 2 ^ Format.binary64.exponentBits = 2048 := rfl
  have bias : Format.binary64.exponentBias = 1023 := rfl
  have width : Format.binary64.mantissaBits = 53 := rfl
  have biased : (m.exponent + (1023 : ℕ) + (52 : ℕ)).toNat = (m.exponent + 1075).toNat := by
    congr 1
    omega
  have high := double.greatest
  have most : m.significand.log2 < 53 := (Nat.log2_lt positive.ne').mpr double.bits
  have full := Nat.le_log2 (k := 52) positive.ne'
  delta UnpackedFloat.pack
  dsimp only
  rw [range, bias, biased, width, if_neg (by omega), field]
  by_cases first : 2 ^ 52 ≤ m.significand
  · have first' := full.mpr first
    rw [if_pos (by omega), if_pos first]
  · have first' := mt full.mp first
    rw [if_neg (by omega), if_neg first]

theorem finite_congr {sign sign' : Sign} {k k' : ℕ} {e e' : ℤ} {positive : 0 < k}
    {positive' : 0 < k'} (signs : sign = sign') (mantissas : k = k') (exponents : e = e') :
    UnpackedFloat.finite sign k e positive = .finite sign' k' e' positive' := by
  subst signs mantissas exponents
  rfl

/-- The fields of a double tell its magnitude. -/
theorem unpack_of_fields {bits : BitVec 64} {sign : Sign} (double : m.IsDouble)
    (positive : 0 < m.significand) (kept : @unpackSign Format.binary64 bits = sign.toBitVec)
    (size : (@unpackExponent Format.binary64 bits).toNat = m.field)
    (rest : (@unpackMantissa Format.binary64 bits).toNat = m.significand % 2 ^ 52) :
    UnpackedFloat.unpack Format.binary64 bits =
      .finite sign m.significand m.exponent positive := by
  have proper : @unpackExponent Format.binary64 bits ≠ -1#11 := by
    intro special
    have := double.field_lt
    have top : (@unpackExponent Format.binary64 bits).toNat = 2047 :=
      congrArg BitVec.toNat special
    omega
  have bias : Format.binary64.exponentBias = 1023 := rfl
  have most := double.bits
  have least := double.least
  delta UnpackedFloat.unpack
  dsimp only
  rw [if_neg proper]
  unfold field at size
  by_cases first : 2 ^ 52 ≤ m.significand
  · rw [if_pos first] at size
    have normal : @unpackExponent Format.binary64 bits ≠ 0#11 := by
      intro none
      have zero : (@unpackExponent Format.binary64 bits).toNat = 0 := congrArg BitVec.toNat none
      omega
    rw [if_neg normal]
    refine finite_congr (kept ▸ ofBitVec_toBitVec sign) ?_ ?_
    · have one : (1#1).toNat = 1 := rfl
      rw [toNat_append, rest, one]
      change 1 * 2 ^ 52 + _ = _
      omega
    · rw [size, bias]
      omega
  · rw [if_neg first] at size
    have subnormal : @unpackExponent Format.binary64 bits = 0#11 := BitVec.eq_of_toNat_eq size
    have some : ¬ @unpackMantissa Format.binary64 bits = 0#52 := by
      intro none
      have zero : (@unpackMantissa Format.binary64 bits).toNat = 0 := congrArg BitVec.toNat none
      omega
    rw [if_pos subnormal, dif_neg some]
    refine finite_congr (kept ▸ ofBitVec_toBitVec sign) ?_ ?_
    · rw [rest]
      omega
    · have exponent := double.full.resolve_left first
      rw [size, bias, exponent]
      rfl

theorem unpack_pack (double : m.IsDouble) (positive : 0 < m.significand) (sign : Sign) :
    UnpackedFloat.unpack Format.binary64 (UnpackedFloat.pack Format.binary64
        (.finite sign m.significand m.exponent positive)) =
      .finite sign m.significand m.exponent positive := by
  rw [double.pack_finite]
  refine unpack_of_fields double positive (unpackSign_packComponents ..) ?_ ?_
  · rw [unpackExponent_packComponents, BitVec.toNat_ofNat]
    exact Nat.mod_eq_of_lt (double.field_lt.trans (by decide))
  · rw [unpackMantissa_packComponents, BitVec.toNat_ofNat]

theorem pack_eq (positive : 0 < m.significand) (sign : Sign) :
    pack sign m = .ofModel (.pack (.finite sign m.significand m.exponent positive)) := by
  unfold pack
  rw [dif_pos positive]

theorem pack_of_zero (zero : m.significand = 0) (sign : Sign) :
    pack sign m = .ofModel (.pack (.zero sign)) := by
  unfold pack
  rw [dif_neg (Nat.not_lt.mpr zero.le)]

theorem toNat_pack (double : m.IsDouble) (sign : Sign) :
    (pack sign m).toBits.toNat =
      sign.toBitVec.toNat * 2 ^ 63 + m.field * 2 ^ 52 + m.significand % 2 ^ 52 := by
  obtain zero | positive := Nat.eq_zero_or_pos m.significand
  · have packed : (Float.ofModel (.pack (.zero sign))).toBits.toNat =
        (packComponents Format.binary64 sign 0#11 0#52).toNat := rfl
    rw [pack_of_zero zero, packed, toNat_packComponents, field, zero]
    rfl
  · have packed :
        (Float.ofModel (.pack (.finite sign m.significand m.exponent positive))).toBits.toNat =
        (UnpackedFloat.pack Format.binary64
          (.finite sign m.significand m.exponent positive)).toNat := rfl
    rw [pack_eq positive, packed, double.pack_finite, toNat_packComponents, BitVec.toNat_ofNat,
      BitVec.toNat_ofNat, Nat.mod_eq_of_lt (double.field_lt.trans (by decide))]

end Magnitude

theorem eq_of_toBits {x y : Float} (same : x.toBits.toNat = y.toBits.toNat) : x = y := by
  obtain ⟨⟨bits, valid⟩⟩ := x
  obtain ⟨⟨bits', valid'⟩⟩ := y
  obtain rfl : bits = bits' := UInt64.toNat_inj.mp same
  rfl

/-- A finite double is told by the sign and the magnitude that are read off it. -/
theorem pack_read {x : Float} {negative : Bool} {m : Magnitude}
    (reads : read x = .finite negative m) : m.IsDouble ∧ pack (signOf negative) m = x := by
  have range := x.toBits.toNat_lt
  have sign : (signOf (x.toBits.toNat / 2 ^ 63 == 1)).toBitVec.toNat = x.toBits.toNat / 2 ^ 63 := by
    have bit : x.toBits.toNat / 2 ^ 63 < 2 := by omega
    obtain none | one : x.toBits.toNat / 2 ^ 63 = 0 ∨ x.toBits.toNat / 2 ^ 63 = 1 := by omega
    · rw [none]
      rfl
    · rw [one]
      rfl
  unfold read at reads
  simp only [Nat.pow_eq] at reads
  split_ifs at reads with special empty least
  · obtain ⟨rfl, rfl⟩ := Reading.finite.inj reads
    have fraction := Nat.mod_lt x.toBits.toNat (y := 2 ^ 52) (by decide)
    have double : Magnitude.IsDouble ⟨x.toBits.toNat % 2 ^ 52, -1074⟩ :=
      ⟨le_rfl, by dsimp only; omega, by dsimp only; omega, .inr rfl⟩
    refine ⟨double, eq_of_toBits ?_⟩
    rw [Magnitude.toNat_pack double, sign, Magnitude.field]
    dsimp only
    rw [if_neg (by omega)]
    omega
  · obtain ⟨rfl, rfl⟩ := Reading.finite.inj reads
    have fraction := Nat.mod_lt x.toBits.toNat (y := 2 ^ 52) (by decide)
    have double : Magnitude.IsDouble ⟨2 ^ 52 + x.toBits.toNat % 2 ^ 52,
        ((x.toBits.toNat / 2 ^ 52 % 2 ^ 11 : ℕ) : ℤ) - 1075⟩ :=
      ⟨by dsimp only; omega, by dsimp only; omega, by dsimp only; omega,
        .inl (by dsimp only; omega)⟩
    refine ⟨double, eq_of_toBits ?_⟩
    rw [Magnitude.toNat_pack double, sign, Magnitude.field]
    dsimp only
    rw [if_pos (by omega)]
    omega

/-- A double that is finite is read as a magnitude. -/
theorem read_of_isFinite {x : Float} (finite : x.isFinite = true) :
    ∃ negative m, read x = .finite negative m := by
  have proper : x.toBits.toNat / 2 ^ 52 % 2 ^ 11 ≠ 2047 := by
    intro top
    have special : @unpackExponent Format.binary64 x.toBits.toBitVec = -1#11 :=
      BitVec.eq_of_toNat_eq ((toNat_unpackExponent _).trans top)
    have unpacked : x.isFinite =
        (UnpackedFloat.unpack Format.binary64 x.toBits.toBitVec).isFinite := rfl
    rw [unpacked] at finite
    delta UnpackedFloat.unpack at finite
    dsimp only at finite
    rw [if_pos special] at finite
    by_cases infinite : @unpackMantissa Format.binary64 x.toBits.toBitVec = 0#52
    · rw [if_pos infinite] at finite
      cases finite
    · rw [if_neg infinite] at finite
      cases finite
  unfold read
  simp only [Nat.pow_eq]
  rw [if_neg proper]
  split
  · exact ⟨_, _, rfl⟩
  · exact ⟨_, _, rfl⟩

end ModuleBundler.Decimal
