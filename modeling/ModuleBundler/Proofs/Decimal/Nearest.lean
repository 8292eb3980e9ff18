import Mathlib.Data.Nat.Cast.Field
import ModuleBundler.Proofs.Decimal.Bits
import ModuleBundler.Proofs.Decimal.Rounding

/-! Decimals to doubles. A decimal in the interval of a magnitude becomes the double of
that magnitude, both where the conversion multiplies doubles and where it computes with
natural numbers. -/
namespace ModuleBundler.Decimal

open Float.Model Float.Model.UnpackedFloat

namespace Magnitude

variable {m : Magnitude}

/-- The magnitude of a natural number whose digits after the first 53 are zero. -/
def ofNatural (k : ℕ) : Magnitude :=
  ⟨k * 2 ^ (52 - k.log2) / 2 ^ (k.log2 - 52), (k.log2 : ℤ) - 52⟩

theorem full_ofNatural {k : ℕ} (positive : 0 < k) : 2 ^ 52 ≤ (ofNatural k).significand := by
  have places : 52 + (k.log2 - 52) = k.log2 + (52 - k.log2) := by omega
  change 2 ^ 52 ≤ k * 2 ^ (52 - k.log2) / 2 ^ (k.log2 - 52)
  rw [Nat.le_div_iff_mul_le (by positivity), ← Nat.pow_add, places, Nat.pow_add]
  exact Nat.mul_le_mul_right _ (Nat.log2_self_le positive.ne')

theorem ofNatural_pos {k : ℕ} (positive : 0 < k) : 0 < (ofNatural k).significand :=
  Nat.lt_of_lt_of_le (by decide) (full_ofNatural positive)

theorem isDouble_ofNatural {k : ℕ} (positive : 0 < k) (small : k.log2 ≤ 1023) :
    (ofNatural k).IsDouble := by
  refine ⟨by dsimp only [ofNatural]; omega, by dsimp only [ofNatural]; omega, ?_,
    .inl (full_ofNatural positive)⟩
  have places : k.log2 + 1 + (52 - k.log2) = 53 + (k.log2 - 52) := by omega
  change k * 2 ^ (52 - k.log2) / 2 ^ (k.log2 - 52) < 2 ^ 53
  rw [Nat.div_lt_iff_lt_mul (by positivity), ← Nat.pow_add, ← places, Nat.pow_add]
  exact Nat.mul_lt_mul_of_pos_right Nat.lt_log2_self (by positivity)

theorem value_ofNatural {k : ℕ} (zeros : 2 ^ (k.log2 - 52) ∣ k) : (ofNatural k).value = k := by
  have unit := pow_toNat (two_ne_zero : (2 : ℚ) ≠ 0) ((k.log2 : ℤ) - 52)
  have above : ((k.log2 : ℤ) - 52).toNat = k.log2 - 52 := by omega
  have below : (-((k.log2 : ℤ) - 52)).toNat = 52 - k.log2 := by omega
  rw [above, below] at unit
  unfold value ofNatural
  dsimp only
  rw [Nat.cast_div (zeros.mul_right _) (by positivity)]
  push_cast
  rw [unit]
  field_simp

/-- Rounding a natural number times a power of two. -/
theorem Within.round {k : ℕ} {e : ℤ} {sign : Sign} (within : m.Within (k * 2 ^ e))
    (double : m.IsDouble) (positive : 0 < m.significand) (some : 0 < k) :
    UnpackedFloat.round Format.binary64 sign k e =
      .finite sign m.significand m.exponent positive := by
  unfold UnpackedFloat.round decreaseExponent
  dsimp only
  generalize shift : (e - Format.binary64.targetExponent (totalExponent k e)).toNat = n
  have unit : (2 : ℚ) ^ e = 2 ^ (e - n) * 2 ^ n := by
    rw [← zpow_natCast, ← zpow_add₀ two_ne_zero, sub_add_cancel]
  have total : totalExponent (k <<< n) (e - n) = totalExponent k e := by
    have first : (k <<< n).log2 = k.log2 + n := by
      rw [Nat.shiftLeft_eq, Nat.log2_eq_iff (by positivity), Nat.pow_add, Nat.add_right_comm,
        Nat.pow_add]
      exact ⟨Nat.mul_le_mul_right _ (Nat.log2_self_le some.ne'),
        Nat.mul_lt_mul_of_pos_right Nat.lt_log2_self (by positivity)⟩
    rw [totalExponent, totalExponent, first]
    omega
  refine within.roundWithAccuracy double positive sign ?_ ?_
  · rw [unit, mul_left_comm, mul_div_cancel_left₀ _ (by positivity)]
    have exact := Stands.exact (k <<< n)
    rw [Nat.shiftLeft_eq] at *
    push_cast at exact
    exact exact
  · rw [total]
    omega

theorem unpack_toModel_pack (double : m.IsDouble) (positive : 0 < m.significand) (sign : Sign) :
    (pack sign m).toModel.unpack = .finite sign m.significand m.exponent positive := by
  rw [pack_eq positive]
  exact unpack_pack double positive sign

theorem neg_pack (double : m.IsDouble) : -pack .positive m = pack .negative m := by
  obtain zero | positive := Nat.eq_zero_or_pos m.significand
  · rw [pack_of_zero zero, pack_of_zero zero]
    rfl
  · have negated : -pack .positive m =
        .ofModel (.pack (pack .positive m).toModel.unpack.neg) := rfl
    rw [negated, unpack_toModel_pack double positive, pack_eq positive]
    rfl

/-! ### Products and quotients of doubles -/

section Factors

variable {a b : Magnitude}

theorem Within.mul_pack (within : m.Within (a.value * b.value)) (double : m.IsDouble)
    (positive : 0 < m.significand) (factor : a.IsDouble) (factor' : b.IsDouble)
    (full : 2 ^ 52 ≤ a.significand) (some : 0 < b.significand) :
    pack .positive a * pack .positive b = pack .positive m := by
  have some' : 0 < a.significand := by omega
  have product : pack .positive a * pack .positive b = .ofModel (.pack
    (UnpackedFloat.mul Format.binary64 (pack .positive a).toModel.unpack
      (pack .positive b).toModel.unpack)) := rfl
  rw [product, unpack_toModel_pack factor some', unpack_toModel_pack factor' some,
    within.mul double positive some' some (full.trans (Nat.le_mul_of_pos_right _ some)),
    pack_eq positive]

theorem Within.div_pack (within : m.Within (a.value / b.value)) (double : m.IsDouble)
    (positive : 0 < m.significand) (factor : a.IsDouble) (factor' : b.IsDouble)
    (some : 0 < a.significand) (some' : 0 < b.significand) :
    pack .positive a / pack .positive b = pack .positive m := by
  have quotient : pack .positive a / pack .positive b = .ofModel (.pack
    (UnpackedFloat.div Format.binary64 (pack .positive a).toModel.unpack
      (pack .positive b).toModel.unpack)) := rfl
  rw [quotient, unpack_toModel_pack factor some, unpack_toModel_pack factor' some',
    within.div double positive some some', pack_eq positive]

end Factors

end Magnitude

/-! ### Conversion by doubles -/

open Magnitude (ofNatural)

theorem log2_le {c : ℕ} (positive : 0 < c) (small : c < 2 ^ 53) : c.log2 ≤ 52 :=
  Nat.le_of_lt_succ ((Nat.log2_lt positive.ne').mpr small)

theorem value_ofNatural_of_lt {c : ℕ} (positive : 0 < c) (small : c < 2 ^ 53) :
    (ofNatural c).value = c := by
  refine Magnitude.value_ofNatural ?_
  rw [Nat.sub_eq_zero_of_le (log2_le positive small)]
  exact one_dvd c

theorem toFloat_toUInt64 {c : ℕ} (positive : 0 < c) (small : c < 2 ^ 53) :
    c.toUInt64.toFloat = pack .positive (ofNatural c) := by
  have word : c.toUInt64.toNat = c := Nat.mod_eq_of_lt (small.trans (by decide))
  have double := Magnitude.isDouble_ofNatural positive ((log2_le positive small).trans (by decide))
  have some := Magnitude.ofNatural_pos positive
  have within : (ofNatural c).Within (c * 2 ^ (0 : ℤ)) := by
    have own := Magnitude.within_value some
    rwa [value_ofNatural_of_lt positive small, ← mul_one (c : ℚ), ← zpow_zero (2 : ℚ)] at own
  have converted : c.toUInt64.toFloat = .ofModel (.pack
      (UnpackedFloat.normalize Format.binary64 (c.toUInt64.toNat : ℤ) 0 .positive)) := rfl
  have order : compare (c : ℤ) 0 = .gt := compare_gt_iff_gt.mpr (by exact_mod_cast positive)
  rw [converted, word, UnpackedFloat.normalize, order]
  dsimp only
  rw [Int.toNat_natCast, within.round double some positive, Magnitude.pack_eq some]

theorem power_eq_pack : ∀ e : Fin Float.exactlyRepresentablePowersOfTen.size,
    Float.exactlyRepresentablePowersOfTen[e.val] = pack .positive (ofNatural (10 ^ e.val)) := by
  decide +kernel

theorem power_log2 {e : ℕ} (small : e < 23) : (10 ^ e).log2 < e + 53 := by
  rw [Nat.log2_lt (by positivity)]
  calc 10 ^ e = 2 ^ e * 5 ^ e := Nat.mul_pow 2 5 e
    _ < 2 ^ e * 2 ^ 53 := by
      have five : 5 ^ e ≤ 5 ^ 22 := Nat.pow_le_pow_right (by decide) (by omega)
      have bound : 5 ^ 22 < 2 ^ 53 := by decide
      exact Nat.mul_lt_mul_of_pos_left (five.trans_lt bound) (by positivity)
    _ = 2 ^ (e + 53) := (Nat.pow_add ..).symm

theorem power_zeros {e : ℕ} (small : e < 23) : 2 ^ ((10 ^ e).log2 - 52) ∣ 10 ^ e := by
  have log := power_log2 small
  have even : 2 ^ e ∣ 10 ^ e := pow_dvd_pow_of_dvd (by decide) e
  exact (Nat.pow_dvd_pow 2 (by omega)).trans even

theorem value_of_nonneg {c : ℕ} {place : ℤ} (whole : 0 ≤ place) :
    Digits.value ⟨c, place⟩ = c * 10 ^ place.natAbs := by
  have split : place = (place.natAbs : ℤ) := by omega
  conv_lhs => rw [split]
  rw [Digits.value, zpow_natCast]

theorem value_of_neg {c : ℕ} {place : ℤ} (below : place < 0) :
    Digits.value ⟨c, place⟩ = c / 10 ^ place.natAbs := by
  have split : place = -(place.natAbs : ℤ) := by omega
  conv_lhs => rw [split]
  rw [Digits.value, zpow_neg, zpow_natCast, ← div_eq_mul_inv]

section Conversion

variable {m : Magnitude} {c : ℕ} {place : ℤ}

theorem ofScientific_fast (double : m.IsDouble) (positive : 0 < m.significand) (some : 0 < c)
    (within : m.Within (Digits.value ⟨c, place⟩)) (fast : c < 2 ^ 53 ∧ place.natAbs ≤ 22) :
    Float.ofScientific c (place < 0) place.natAbs = pack .positive m := by
  have power : place.natAbs < 23 := Nat.lt_succ_of_le fast.2
  have table := power_eq_pack ⟨place.natAbs, power⟩
  have value : (ofNatural (10 ^ place.natAbs)).value = 10 ^ place.natAbs := by
    rw [Magnitude.value_ofNatural (power_zeros power)]
    push_cast
    rfl
  have ten : 0 < 10 ^ place.natAbs := by positivity
  have full := Magnitude.full_ofNatural some
  have full' := Magnitude.full_ofNatural ten
  have factor := Magnitude.isDouble_ofNatural some ((log2_le some fast.1).trans (by decide))
  have factor' := Magnitude.isDouble_ofNatural ten ((power_log2 power).le.trans (by omega))
  unfold Float.ofScientific
  rw [dif_pos fast, toFloat_toUInt64 some fast.1]
  dsimp only at table ⊢
  rw [table]
  by_cases below : place < 0
  · rw [if_pos (decide_eq_true below)]
    rw [value_of_neg below, ← value, ← value_ofNatural_of_lt some fast.1] at within
    exact within.div_pack double positive factor factor' (by omega) (by omega)
  · rw [if_neg (by simpa using below)]
    rw [value_of_nonneg (not_lt.mp below), ← value, ← value_ofNatural_of_lt some fast.1] at within
    exact within.mul_pack double positive factor factor' full (by omega)

/-! ### Conversion by natural numbers -/

theorem place_natAbs (place : ℤ) : (if decide (place < 0) = true then Int.negOfNat place.natAbs
    else Int.ofNat place.natAbs) = place := by
  by_cases below : place < 0
  · rw [if_pos (decide_eq_true below), Int.negOfNat_eq, Int.ofNat_eq_natCast]
    omega
  · rw [if_neg (by simpa using below), Int.ofNat_eq_natCast]
    omega

theorem ofScientific_slow (double : m.IsDouble) (positive : 0 < m.significand) (some : 0 < c)
    (within : m.Within (Digits.value ⟨c, place⟩)) (slow : ¬ (c < 2 ^ 53 ∧ place.natAbs ≤ 22))
    (range : place.natAbs ≤ 2048) :
    Float.ofScientific c (place < 0) place.natAbs = pack .positive m := by
  have limit : (2 : ℤ) ^ Format.binary64.exponentBits = 2048 := rfl
  have width : Format.binary64.mantissaBits = 53 := rfl
  unfold Float.ofScientific
  rw [dif_neg slow]
  dsimp only
  rw [place_natAbs, Float.Model.ofScientific, UnpackedFloat.ofScientific, dif_neg some.ne',
    if_neg (by omega), if_neg (by omega), Magnitude.pack_eq positive]
  by_cases below : place < 0
  · have power : (-place).toNat = place.natAbs := by omega
    have quotient : Digits.value ⟨c, place⟩ =
        c * 2 ^ (0 : ℤ) / ((10 ^ (-place).toNat : ℕ) * 2 ^ (0 : ℤ)) := by
      rw [value_of_neg below, power, zpow_zero, mul_one, mul_one]
      push_cast
      rfl
    rw [quotient] at within
    rw [if_neg (not_le.mpr below), within.div double positive]
  · have power : place.toNat = place.natAbs := by omega
    have product : Digits.value ⟨c, place⟩ =
        (c <<< 53 : ℕ) * 2 ^ (-(53 : ℕ) : ℤ) * ((10 ^ place.toNat : ℕ) * 2 ^ (0 : ℤ)) := by
      rw [value_of_nonneg (not_lt.mp below), power, Nat.shiftLeft_eq, zpow_zero, mul_one]
      push_cast
      norm_num
      ring
    have full : 2 ^ 52 ≤ c <<< 53 * 10 ^ place.toNat := by
      rw [Nat.shiftLeft_eq]
      have ten : 0 < 10 ^ place.toNat := by positivity
      nlinarith
    rw [product] at within
    rw [if_pos (not_lt.mp below)]
    exact congrArg (fun u => Float.ofModel (.pack u)) (within.mul double positive _ _ full)

theorem ofScientific_of_within (double : m.IsDouble) (positive : 0 < m.significand) (some : 0 < c)
    (within : m.Within (Digits.value ⟨c, place⟩)) (range : place.natAbs ≤ 2048) :
    Float.ofScientific c (place < 0) place.natAbs = pack .positive m := by
  by_cases fast : c < 2 ^ 53 ∧ place.natAbs ≤ 22
  · exact ofScientific_fast double positive some within fast
  · exact ofScientific_slow double positive some within fast range

/-! ### The range -/

theorem Magnitude.Within.lt_power {x : ℚ} (within : m.Within x) (double : m.IsDouble) :
    x < 10 ^ (310 : ℤ) :=
  calc x < 2 ^ (53 + m.exponent) := double.lt_zpow within
    _ ≤ 2 ^ (1024 : ℤ) := zpow_le_zpow_right₀ one_le_two (by have := double.greatest; omega)
    _ ≤ 2 * 2 ^ (1024 : ℤ) := le_mul_of_one_le_left (by positivity) one_le_two
    _ ≤ 10 ^ (310 : ℤ) := (guess_bounds 1024 (by decide) (by decide)).2

theorem Magnitude.Within.power_le {x : ℚ} (within : m.Within x) (double : m.IsDouble)
    (positive : 0 < m.significand) : 10 ^ (-326 : ℤ) ≤ x := by
  have one : (1 : ℚ) ≤ m.significand := by exact_mod_cast positive
  have half := within.half_le positive
  rw [le_div_iff₀ m.unit_pos] at half
  calc (10 : ℚ) ^ (-326 : ℤ) = 10⁻¹ * 10 ^ (-325 : ℤ) := by
        rw [mul_comm, ← zpow_sub_one₀ (by norm_num)]
        rfl
    _ ≤ 1 / 2 * 2 ^ (-1074 : ℤ) :=
      mul_le_mul (by norm_num) (guess_bounds (-1074) le_rfl (by decide)).1 (by positivity)
        (by norm_num)
    _ ≤ 1 / 2 * 2 ^ m.exponent := by
      gcongr
      · exact one_le_two
      · exact double.least
    _ ≤ (m.significand - 1 / 2) * 2 ^ m.exponent := by
      have unit := m.unit_pos
      gcongr
      linarith
    _ ≤ x := half

/-- The digits of a decimal in the interval of a double put it well inside the range. -/
theorem length_within (double : m.IsDouble) (positive : 0 < m.significand) (some : 0 < c)
    (small : c < 2 ^ 64) (within : m.Within (Digits.value ⟨c, place⟩)) :
    -340 ≤ (c.log2 : ℤ) * 30103 / 100000 + place ∧
      (c.log2 : ℤ) * 30103 / 100000 + place ≤ 340 := by
  obtain ⟨low, high⟩ := guess_natural some small
  generalize (c.log2 : ℤ) * 30103 / 100000 = guess at *
  have ten : (0 : ℚ) < 10 ^ place := by positivity
  constructor
  · have bound : (10 : ℚ) ^ (-326 : ℤ) < 10 ^ (guess + 2 + place) := by
      rw [zpow_add₀ (by norm_num)]
      exact (within.power_le double positive).trans_lt (mul_lt_mul_of_pos_right high ten)
    have places := (zpow_lt_zpow_iff_right₀ (by norm_num)).mp bound
    omega
  · have bound : (10 : ℚ) ^ (guess - 1 + place) < 10 ^ (310 : ℤ) := by
      rw [zpow_add₀ (by norm_num)]
      exact (mul_le_mul_of_nonneg_right low ten.le).trans_lt (within.lt_power double)
    have places := (zpow_lt_zpow_iff_right₀ (by norm_num)).mp bound
    omega

/-- A decimal in the interval of a magnitude becomes its double. -/
theorem toFloat_of_within (double : m.IsDouble) (positive : 0 < m.significand)
    (small : c < 2 ^ 64) (within : m.Within (Digits.value ⟨c, place⟩)) :
    Digits.toFloat ⟨c, place⟩ = pack .positive m := by
  have some : 0 < c := within.coefficient_pos positive
  have short : c.log2 < 64 := (Nat.log2_lt some.ne').mpr small
  obtain ⟨low, high⟩ := length_within double positive some small within
  unfold Digits.toFloat
  dsimp only
  rw [Int.ofNat_eq_natCast, if_neg (by omega), if_neg (by omega)]
  exact ofScientific_of_within double positive some within (by omega)

end Conversion

/-! ### Powers of two -/

theorem Magnitude.IsDouble.isInf_pack {m : Magnitude} (double : m.IsDouble)
    (positive : 0 < m.significand) (sign : Sign) : (pack sign m).isInf = false := by
  rw [Float.isInf, Float.Model.isInf, unpack_toModel_pack double positive]
  rfl

/-- A natural number is its own double if its digits after the first 53 are zero. -/
theorem ofNat_eq_pack {k : ℕ} (some : 0 < k) (small : k.log2 ≤ 1023)
    (zeros : 2 ^ (k.log2 - 52) ∣ k) : Float.ofNat k = pack .positive (ofNatural k) := by
  have double := Magnitude.isDouble_ofNatural some small
  have positive := Magnitude.ofNatural_pos some
  have whole : Digits.value ⟨k, 0⟩ = (ofNatural k).value := by
    rw [Magnitude.value_ofNatural zeros, Digits.value, zpow_zero, mul_one]
  exact ofScientific_of_within double positive some (whole ▸ Magnitude.within_value positive)
    (by decide)

/-- Every power of two below the thousand and twenty-fourth has a double. -/
theorem floatOfInt?_pow {n : ℕ} (low : n < 1024) :
    floatOfInt? (Int.ofNat (Nat.pow 2 n)) = some (Float.ofNat (Nat.pow 2 n)) := by
  have some : 0 < 2 ^ n := Nat.two_pow_pos n
  have log : (2 ^ n).log2 = n := Nat.log2_two_pow
  have zeros : 2 ^ ((2 ^ n).log2 - 52) ∣ 2 ^ n := by
    rw [log]
    exact Nat.pow_dvd_pow 2 (Nat.sub_le n 52)
  have finite : (Float.ofInt (Int.ofNat (Nat.pow 2 n))).isInf = false := by
    change (Float.ofNat (2 ^ n)).isInf = false
    rw [ofNat_eq_pack some (by omega) zeros]
    exact (Magnitude.isDouble_ofNatural some (by omega)).isInf_pack (Magnitude.ofNatural_pos some) _
  have log' : (Int.ofNat (Nat.pow 2 n)).natAbs.log2 = n := log
  rw [floatOfInt?, log', if_neg (by omega)]
  dsimp only
  rw [finite]
  rfl

end ModuleBundler.Decimal
