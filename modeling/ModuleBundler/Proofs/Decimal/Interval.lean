import Mathlib.Algebra.Order.Field.Power
import Mathlib.Tactic.FieldSimp
import Mathlib.Tactic.Linarith
import Mathlib.Tactic.Positivity
import Mathlib.Tactic.Ring
import ModuleBundler.Decimal.Shortest

/-! The interval of the numbers that round to a magnitude, over the rational numbers.
Programs compare a decimal with the ends of the interval by natural numbers; here the
ends are numbers themselves, half a unit of the last place away, and the comparison is
one of rational numbers. -/
namespace ModuleBundler.Decimal

/-- The number that digits and a place stand for. -/
def Digits.value (d : Digits) : ℚ := d.coefficient * 10 ^ d.place

namespace Magnitude

/-- The number that a magnitude stands for. -/
def value (m : Magnitude) : ℚ := m.significand * 2 ^ m.exponent

/-- A magnitude as the 64-bit format has it: 53 bits, and the first of them set unless the exponent
is the least. -/
structure IsDouble (m : Magnitude) : Prop where
  least : -1074 ≤ m.exponent
  greatest : m.exponent ≤ 971
  bits : m.significand < 2 ^ 53
  full : 2 ^ 52 ≤ m.significand ∨ m.exponent = -1074

/-- The lower end of the interval. -/
def low (m : Magnitude) : ℚ := m.interval.low * 2 ^ (m.exponent - 2)

/-- The upper end of the interval. -/
def high (m : Magnitude) : ℚ := m.interval.high * 2 ^ (m.exponent - 2)

/-- The numbers between the ends of the interval; the ends belong to an even significand. -/
structure Within (m : Magnitude) (x : ℚ) : Prop where
  low_le : m.low ≤ x
  le_high : x ≤ m.high
  apart : m.significand % 2 ≠ 0 → m.low < x ∧ x < m.high

/-! ### Comparison by natural numbers -/

/-- What both sides of a comparison are multiplied with. -/
def common (p s : ℤ) : ℚ := 10 ^ (-s).toNat * 2 ^ (-p).toNat

theorem common_pos (p s : ℤ) : 0 < common p s := by
  unfold common
  positivity

theorem pow_toNat {base : ℚ} (nonzero : base ≠ 0) (p : ℤ) :
    base ^ p.toNat = base ^ p * base ^ (-p).toNat := by
  have split : (p.toNat : ℤ) = p + ((-p).toNat : ℤ) := by omega
  rw [← zpow_natCast, ← zpow_natCast, split, zpow_add₀ nonzero]

theorem scaled_fst (a b : ℕ) (p s : ℤ) :
    ((scaled a p b s).1 : ℚ) = a * 2 ^ p * common p s := by
  have cast : ((scaled a p b s).1 : ℚ) = a * 2 ^ p.toNat * 10 ^ (-s).toNat := by
    simp only [scaled, Nat.pow_eq, Nat.cast_mul, Nat.cast_pow, Nat.cast_ofNat]
  rw [cast, pow_toNat two_ne_zero, common]
  ring

theorem scaled_snd (a b : ℕ) (p s : ℤ) :
    ((scaled a p b s).2 : ℚ) = b * 10 ^ s * common p s := by
  have cast : ((scaled a p b s).2 : ℚ) = b * 10 ^ s.toNat * 2 ^ (-p).toNat := by
    simp only [scaled, Nat.pow_eq, Nat.cast_mul, Nat.cast_pow, Nat.cast_ofNat]
  rw [cast, pow_toNat (by norm_num), common]
  ring

section Comparison

variable {a b : ℕ} {p s : ℤ}

theorem scaled_le_iff :
    (scaled a p b s).1 ≤ (scaled a p b s).2 ↔ (a : ℚ) * 2 ^ p ≤ b * 10 ^ s := by
  rw [← Nat.cast_le (α := ℚ), scaled_fst, scaled_snd, mul_le_mul_iff_left₀ (common_pos p s)]

theorem scaled_ge_iff :
    (scaled a p b s).2 ≤ (scaled a p b s).1 ↔ (b : ℚ) * 10 ^ s ≤ a * 2 ^ p := by
  rw [← Nat.cast_le (α := ℚ), scaled_fst, scaled_snd, mul_le_mul_iff_left₀ (common_pos p s)]

theorem scaled_lt_iff :
    (scaled a p b s).1 < (scaled a p b s).2 ↔ (a : ℚ) * 2 ^ p < b * 10 ^ s := by
  rw [← not_le, ← not_le, scaled_ge_iff]

theorem scaled_gt_iff :
    (scaled a p b s).2 < (scaled a p b s).1 ↔ (b : ℚ) * 10 ^ s < a * 2 ^ p := by
  rw [← not_le, ← not_le, scaled_le_iff]

end Comparison

/-- The comparison of natural numbers decides whether a decimal lies in the interval. -/
theorem roundsFrom_iff {m : Magnitude} {coefficient : ℕ} {place : ℤ} :
    m.roundsFrom coefficient place = true ↔ m.Within (Digits.value ⟨coefficient, place⟩) := by
  have point : (scaled m.interval.low (m.exponent - 2) coefficient place).2 =
      (scaled m.interval.high (m.exponent - 2) coefficient place).2 := rfl
  unfold roundsFrom
  by_cases even : m.significand % 2 = 0
  · have closed : m.interval.closed = true := beq_iff_eq.mpr even
    simp only [closed, if_true, Bool.and_eq_true, decide_eq_true_eq, scaled_le_iff]
    rw [point, scaled_ge_iff]
    exact ⟨fun fits => ⟨fits.1, fits.2, fun odd => absurd even odd⟩,
      fun fits => ⟨fits.low_le, fits.le_high⟩⟩
  · have closed : m.interval.closed = false := beq_eq_false_iff_ne.mpr even
    simp only [closed, Bool.false_eq_true, if_false, Bool.and_eq_true, decide_eq_true_eq,
      scaled_lt_iff]
    rw [point, scaled_gt_iff]
    exact ⟨fun fits => ⟨fits.1.le, fits.2.le, fun _ => fits⟩, fun fits => fits.apart even⟩

/-! ### Units of the last place -/

theorem unit_pos (m : Magnitude) : (0 : ℚ) < 2 ^ m.exponent := by positivity

theorem quarter (m : Magnitude) : (2 : ℚ) ^ (m.exponent - 2) = 2 ^ m.exponent / 4 := by
  rw [zpow_sub₀ two_ne_zero]
  norm_num

theorem high_eq (m : Magnitude) : m.high = (m.significand + 1 / 2) * 2 ^ m.exponent := by
  have cast : (m.interval.high : ℚ) = 4 * m.significand + 2 := by
    simp only [interval, Nat.cast_add, Nat.cast_mul, Nat.cast_ofNat]
  rw [high, cast, quarter]
  ring

/-- Half a unit below a significand, or a quarter if the spacing halves there. -/
theorem low_eq {m : Magnitude} (positive : 0 < m.significand) :
    m.low = (m.significand -
      if m.significand = 2 ^ 52 ∧ m.exponent ≠ -1074 then 1 / 4 else 1 / 2) * 2 ^ m.exponent := by
  by_cases edge : m.significand = 2 ^ 52 ∧ m.exponent ≠ -1074
  · have near : m.interval.low = 4 * m.significand - 1 :=
      congrArg (4 * m.significand - ·) (if_pos edge)
    rw [low, quarter, near, if_pos edge, Nat.cast_sub (by omega)]
    push_cast
    ring
  · have far : m.interval.low = 4 * m.significand - 2 :=
      congrArg (4 * m.significand - ·) (if_neg edge)
    rw [low, quarter, far, if_neg edge, Nat.cast_sub (by omega)]
    push_cast
    ring

section Units

variable {m : Magnitude} {x : ℚ}

theorem half_le (positive : 0 < m.significand) :
    (m.significand - 1 / 2) * 2 ^ m.exponent ≤ m.low := by
  rw [low_eq positive, mul_le_mul_iff_left₀ m.unit_pos]
  split <;> linarith

theorem Within.half_le (within : m.Within x) (positive : 0 < m.significand) :
    m.significand - 1 / 2 ≤ x / 2 ^ m.exponent :=
  (le_div_iff₀ m.unit_pos).mpr ((Magnitude.half_le positive).trans within.low_le)

theorem Within.le_half (within : m.Within x) : x / 2 ^ m.exponent ≤ m.significand + 1 / 2 :=
  (div_le_iff₀ m.unit_pos).mpr (within.le_high.trans_eq m.high_eq)

theorem Within.half_lt (within : m.Within x) (positive : 0 < m.significand)
    (odd : m.significand % 2 ≠ 0) : m.significand - 1 / 2 < x / 2 ^ m.exponent :=
  (lt_div_iff₀ m.unit_pos).mpr ((Magnitude.half_le positive).trans_lt (within.apart odd).1)

theorem Within.lt_half (within : m.Within x) (odd : m.significand % 2 ≠ 0) :
    x / 2 ^ m.exponent < m.significand + 1 / 2 :=
  (div_lt_iff₀ m.unit_pos).mpr ((within.apart odd).2.trans_eq m.high_eq)

theorem Within.quarter_le (within : m.Within x) (edge : m.significand = 2 ^ 52)
    (inner : m.exponent ≠ -1074) : 2 ^ 52 - 1 / 4 ≤ x / 2 ^ m.exponent := by
  have positive : 0 < m.significand := by omega
  have bound := within.low_le
  rw [low_eq positive, if_pos ⟨edge, inner⟩, edge] at bound
  rw [le_div_iff₀ m.unit_pos]
  exact_mod_cast bound

theorem Within.pos (within : m.Within x) (positive : 0 < m.significand) : 0 < x := by
  have one : (1 : ℚ) ≤ m.significand := by exact_mod_cast positive
  have units := within.half_le positive
  rw [le_div_iff₀ m.unit_pos] at units
  have unit := m.unit_pos
  nlinarith

theorem Within.coefficient_pos {d : Digits} (within : m.Within d.value)
    (positive : 0 < m.significand) : 0 < d.coefficient := by
  have size := within.pos positive
  by_contra none
  rw [Digits.value, Nat.eq_zero_of_not_pos none, Nat.cast_zero, zero_mul] at size
  exact lt_irrefl _ size

theorem value_between (positive : 0 < m.significand) : m.low < m.value ∧ m.value < m.high := by
  rw [low_eq positive, high_eq, value, mul_lt_mul_iff_left₀ m.unit_pos,
    mul_lt_mul_iff_left₀ m.unit_pos]
  refine ⟨?_, by linarith⟩
  split <;> linarith

theorem within_value (positive : 0 < m.significand) : m.Within m.value :=
  ⟨(value_between positive).1.le, (value_between positive).2.le, fun _ => value_between positive⟩

end Units

end Magnitude

/-! ### Lengths -/

/-- For every binary length of a double the guess at the decimal one is right to within a place. -/
theorem power_near : ∀ n < 1075, 10 ^ (n * 30103 / 100000) ≤ 5 * 2 ^ n ∧
    2 * 2 ^ n ≤ 10 ^ (n * 30103 / 100000 + 2) := by
  decide +kernel

theorem guess_above {n : ℕ} (small : n < 1075) :
    (10 : ℚ) ^ ((n : ℤ) * 30103 / 100000 - 1) ≤ 2 ^ (n : ℤ) ∧
      (2 : ℚ) * 2 ^ (n : ℤ) ≤ 10 ^ ((n : ℤ) * 30103 / 100000 + 2) := by
  obtain ⟨low, high⟩ := power_near n small
  have guess : (n : ℤ) * 30103 / 100000 = (n * 30103 / 100000 : ℕ) := by omega
  rw [guess]
  generalize n * 30103 / 100000 = g at *
  have low' : (10 : ℚ) ^ g ≤ 2 ^ n * 10 := by exact_mod_cast (by omega : 10 ^ g ≤ 2 ^ n * 10)
  rw [zpow_sub_one₀ (by norm_num), zpow_natCast, zpow_natCast, ← div_eq_mul_inv,
    div_le_iff₀ (by norm_num)]
  exact ⟨low', by exact_mod_cast high⟩

/-- Below one the guess is rounded away from the one above. -/
theorem guess_below {n : ℕ} (some : 0 < n) (small : n < 1075) :
    (10 : ℚ) ^ (-(n : ℤ) * 30103 / 100000 - 1) ≤ 2 ^ (-(n : ℤ)) ∧
      (2 : ℚ) * 2 ^ (-(n : ℤ)) ≤ 10 ^ (-(n : ℤ) * 30103 / 100000 + 2) := by
  obtain ⟨low, high⟩ := power_near n small
  have guess : -(n : ℤ) * 30103 / 100000 = -((n * 30103 / 100000 + 1 : ℕ) : ℤ) := by
    have short : n < 100000 := by omega
    have broken : ¬ 100000 ∣ n * 30103 := fun whole =>
      Nat.not_dvd_of_pos_of_lt some short (Nat.Coprime.dvd_of_dvd_mul_right (by decide) whole)
    have product : -(n : ℤ) * 30103 = -(n * 30103 : ℕ) := by omega
    rw [product]
    generalize n * 30103 = k at *
    omega
  rw [guess]
  generalize n * 30103 / 100000 = g at *
  have low' : (2 : ℚ) * 10 ^ (g + 1) ≤ 100 * 2 ^ n := by
    exact_mod_cast (by omega : 2 * 10 ^ (g + 1) ≤ 100 * 2 ^ n)
  have high' : (2 : ℚ) ^ n ≤ 10 ^ (g + 2) := by
    exact_mod_cast (by omega : 2 ^ n ≤ 10 ^ (g + 2))
  have lower : -((g + 1 : ℕ) : ℤ) - 1 = -((g + 2 : ℕ) : ℤ) := by omega
  rw [lower, zpow_neg, zpow_neg, zpow_natCast, zpow_natCast, zpow_add₀ (by norm_num), zpow_neg,
    zpow_natCast]
  refine ⟨inv_anti₀ (by positivity) high', ?_⟩
  calc (2 : ℚ) * (2 ^ n)⁻¹ = 2 / 2 ^ n := (div_eq_mul_inv ..).symm
    _ ≤ 100 / 10 ^ (g + 1) := (div_le_div_iff₀ (by positivity) (by positivity)).mpr low'
    _ = (10 ^ (g + 1))⁻¹ * 10 ^ (2 : ℤ) := by
      rw [div_eq_inv_mul]
      norm_num

theorem guess_bounds (length : ℤ) (least : -1074 ≤ length) (most : length < 1075) :
    (10 : ℚ) ^ (length * 30103 / 100000 - 1) ≤ 2 ^ length ∧
      (2 : ℚ) * 2 ^ length ≤ 10 ^ (length * 30103 / 100000 + 2) := by
  obtain ⟨n, rfl | rfl⟩ := length.eq_nat_or_neg
  · exact guess_above (by omega)
  · obtain rfl | some := Nat.eq_zero_or_pos n
    · exact guess_above (by decide)
    · exact guess_below some (by omega)

theorem log2_bounds {k : ℕ} (positive : 0 < k) :
    (2 : ℚ) ^ k.log2 ≤ k ∧ (k : ℚ) < 2 * 2 ^ k.log2 := by
  have bound := Nat.lt_log2_self (n := k)
  rw [Nat.pow_succ, Nat.mul_comm] at bound
  exact ⟨by exact_mod_cast Nat.log2_self_le positive.ne', by exact_mod_cast bound⟩

/-- The guess at the length of a natural number. -/
theorem guess_natural {c : ℕ} (some : 0 < c) (small : c < 2 ^ 64) :
    (10 : ℚ) ^ ((c.log2 : ℤ) * 30103 / 100000 - 1) ≤ c ∧
      (c : ℚ) < 10 ^ ((c.log2 : ℤ) * 30103 / 100000 + 2) := by
  have short : c.log2 < 64 := (Nat.log2_lt some.ne').mpr small
  obtain ⟨low, high⟩ := guess_bounds c.log2 (by omega) (by omega)
  obtain ⟨least, most⟩ := log2_bounds some
  rw [zpow_natCast] at low high
  exact ⟨low.trans least, most.trans_le high⟩

end ModuleBundler.Decimal
