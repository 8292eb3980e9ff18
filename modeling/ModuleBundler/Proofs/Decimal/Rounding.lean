import ModuleBundler.Decimal.Nearest
import ModuleBundler.Proofs.Decimal.Interval

/-! Rounding to doubles. A mantissa with a round bit and a sticky bit stands for a number
as far as rounding can tell it apart from others, and shifts keep what it stands for. So
products and quotients of doubles round to the magnitude in whose interval they lie. -/
namespace ModuleBundler.Decimal

open Float.Model Float.Model.UnpackedFloat

/-- The mantissa stands for a number in units of its last place: the round bit for a half, the
sticky bit for anything beyond. -/
def Stands (em : ExtendedMantissa) (x : ℚ) : Prop :=
  ∃ rest : ℚ, x = em.mantissa + (if em.roundBit then 1 / 2 else 0) + rest ∧
    0 ≤ rest ∧ rest < 1 / 2 ∧ (em.stickyBit = true ↔ 0 < rest)

namespace Stands

variable {em : ExtendedMantissa} {x : ℚ}

theorem mantissa_le (stands : Stands em x) : em.mantissa ≤ x := by
  obtain ⟨rest, rfl, least, -, -⟩ := stands
  split <;> linarith

theorem lt_mantissa (stands : Stands em x) : x < em.mantissa + 1 := by
  obtain ⟨rest, rfl, -, most, -⟩ := stands
  split <;> linarith

theorem exact (k : ℕ) : Stands (.ofMantissaAndAccuracy k .exact) k := by
  refine ⟨0, ?_, le_refl 0, by norm_num, ?_⟩ <;> simp [ExtendedMantissa.ofMantissaAndAccuracy]

theorem inexact (k : ℕ) {q : ℚ} {order : Ordering} (some : 0 < q) (proper : q < 1)
    (half : order.Compares q (1 / 2)) :
    Stands (.ofMantissaAndAccuracy k (.inexact order)) (k + q) := by
  cases order with
  | lt =>
    exact ⟨q, by simp [ExtendedMantissa.ofMantissaAndAccuracy], some.le, half,
      by simp [ExtendedMantissa.ofMantissaAndAccuracy, some]⟩
  | eq =>
    obtain rfl : q = 1 / 2 := half
    exact ⟨0, by simp [ExtendedMantissa.ofMantissaAndAccuracy], le_refl 0, by norm_num,
      by simp [ExtendedMantissa.ofMantissaAndAccuracy]⟩
  | gt =>
    have large : 1 / 2 < q := half
    refine ⟨q - 1 / 2, ?_, by linarith, by linarith, ?_⟩
    · simp [ExtendedMantissa.ofMantissaAndAccuracy]
    · simpa [ExtendedMantissa.ofMantissaAndAccuracy] using large

theorem compares_half (r : ℕ) {b : ℕ} (positive : 0 < b) :
    (compare (2 * r) b).Compares ((r : ℚ) / b) (1 / 2) := by
  have divisor : (0 : ℚ) < b := by exact_mod_cast positive
  cases order : compare (2 * r) b with
  | lt =>
    have doubled : 2 * (r : ℚ) < b := by exact_mod_cast Nat.compare_eq_lt.mp order
    exact (div_lt_iff₀ divisor).mpr (by linarith)
  | eq =>
    have doubled : 2 * (r : ℚ) = b := by exact_mod_cast Nat.compare_eq_eq.mp order
    exact (div_eq_iff divisor.ne').mpr (by linarith)
  | gt =>
    have doubled : (b : ℚ) < 2 * r := by exact_mod_cast Nat.compare_eq_gt.mp order
    exact (lt_div_iff₀ divisor).mpr (by linarith)

/-- The accuracy of a quotient says how its fraction compares to a half. -/
theorem quotient (a : ℕ) {b : ℕ} (positive : 0 < b) :
    Stands (.ofMantissaAndAccuracy (a / b) (accuracyOfFraction (a % b) b)) (a / b) := by
  have divisor : (0 : ℚ) < b := by exact_mod_cast positive
  have whole : (a : ℚ) / b = (a / b : ℕ) + (a % b : ℕ) / b := by
    have parts : (b * (a / b) + a % b : ℕ) = (a : ℚ) := congrArg Nat.cast (Nat.div_add_mod a b)
    push_cast at parts
    field_simp
    linarith
  have proper : ((a % b : ℕ) : ℚ) / b < 1 := by
    rw [div_lt_one divisor]
    exact_mod_cast Nat.mod_lt a positive
  rw [whole, accuracyOfFraction]
  split
  next none =>
    rw [none, Nat.cast_zero, zero_div, add_zero]
    exact exact _
  next some =>
    have fraction : (0 : ℚ) < (a % b : ℕ) / b :=
      div_pos (by exact_mod_cast Nat.pos_of_ne_zero some) divisor
    exact inexact _ fraction proper (compares_half _ positive)

/-- The last digit becomes the round bit, and what the bits told before is left over. -/
theorem shiftRightOne (stands : Stands em x) : Stands em.shiftRightOne (x / 2) := by
  obtain ⟨rest, rfl, least, most, sticky⟩ := stands
  have parts : (2 * (em.mantissa / 2) + em.mantissa % 2 : ℕ) = (em.mantissa : ℚ) :=
    congrArg Nat.cast (Nat.div_add_mod em.mantissa 2)
  have last : ((em.mantissa % 2 : ℕ) : ℚ) = if em.mantissa % 2 != 0 then 1 else 0 := by
    obtain even | odd := Nat.mod_two_eq_zero_or_one em.mantissa
    · simp [even]
    · simp [odd]
  push_cast at parts
  refine ⟨((if em.roundBit then 1 / 2 else 0) + rest) / 2, ?_, ?_, ?_, ?_⟩
  · rw [← parts, last, ExtendedMantissa.shiftRightOne]
    dsimp only
    split <;> ring
  · split <;> linarith
  · split <;> linarith
  · rw [ExtendedMantissa.shiftRightOne, Bool.or_eq_true, sticky]
    constructor
    · rintro (half | beyond)
      · rw [if_pos half]
        linarith
      · split <;> linarith
    · intro left
      cases half : em.roundBit
      · rw [half, if_neg Bool.false_ne_true] at left
        exact .inr (by linarith)
      · exact .inl rfl

theorem shiftRight (stands : Stands em x) (n : ℕ) : Stands (em >>> n) (x / 2 ^ n) := by
  induction n with
  | zero =>
    rw [pow_zero, div_one]
    exact stands
  | succ n ih =>
    rw [pow_succ, ← div_div]
    exact ih.shiftRightOne

/-- Half a unit to the significand at most, and less if it is odd, decides the rounding. -/
theorem rounded (stands : Stands em x) {s : ℕ} (low : s - 1 / 2 ≤ x) (high : x ≤ s + 1 / 2)
    (odd : s % 2 ≠ 0 → s - 1 / 2 < x ∧ x < s + 1 / 2) : em.roundedMantissa = s := by
  obtain ⟨k, half, sticky⟩ := em
  obtain ⟨rest, rfl, least, most, beyond⟩ := stands
  dsimp only at low high odd beyond
  -- Without a half the mantissa itself is near enough, with more than a half only the next one; in
  -- the middle both are, and the even one stays.
  cases half with
  | false =>
    rw [if_neg Bool.false_ne_true] at low high
    have above : s < k + 1 := by exact_mod_cast (by linarith : (s : ℚ) < k + 1)
    have below : k < s + 1 := by exact_mod_cast (by linarith : (k : ℚ) < s + 1)
    have same : k = s := by omega
    cases sticky <;> exact same
  | true =>
    rw [if_pos rfl] at low high odd
    have above : s < k + 2 := by exact_mod_cast (by linarith : (s : ℚ) < k + 2)
    cases sticky with
    | false =>
      have middle : rest = 0 := le_antisymm (not_lt.mp (mt beyond.mpr Bool.false_ne_true)) least
      rw [middle] at high odd
      have below : k < s + 1 := by exact_mod_cast (by linarith : (k : ℚ) < s + 1)
      have even : s % 2 = 0 := by
        by_contra other
        have above : s < k + 1 :=
          by exact_mod_cast (by linarith [(odd other).1] : (s : ℚ) < k + 1)
        have below : k < s := by exact_mod_cast (by linarith [(odd other).2] : (k : ℚ) < s)
        omega
      change k + k % 2 = s
      omega
    | true =>
      have left := beyond.mp rfl
      have below : k < s := by exact_mod_cast (by linarith : (k : ℚ) < s)
      change k + 1 = s
      omega

end Stands

/-! ### The place of the last digit -/

theorem targetExponent_eq (t : ℤ) : Format.binary64.targetExponent t = max (t - 53) (-1074) := rfl

section Target

variable {k : ℕ} {e p : ℤ} {x : ℚ}

theorem le_totalExponent (upper : x / 2 ^ e < k + 1) (low : 2 ^ p ≤ x) :
    p + 1 ≤ totalExponent k e := by
  have next : ((k + 1 : ℕ) : ℚ) ≤ 2 ^ (k.log2 + 1) := by exact_mod_cast Nat.lt_log2_self
  have bound : (2 : ℚ) ^ p < 2 ^ ((k.log2 + 1 : ℕ) + e) := by
    rw [zpow_add₀ two_ne_zero, zpow_natCast]
    rw [div_lt_iff₀ (by positivity)] at upper
    push_cast at next
    calc (2 : ℚ) ^ p ≤ x := low
      _ < (k + 1) * 2 ^ e := upper
      _ ≤ 2 ^ (k.log2 + 1) * 2 ^ e := by gcongr
  have places := (zpow_lt_zpow_iff_right₀ one_lt_two).mp bound
  rw [totalExponent]
  omega

theorem totalExponent_le (positive : 0 < k) (lower : k ≤ x / 2 ^ e) (high : x < 2 ^ p) :
    totalExponent k e ≤ p := by
  have first := (log2_bounds positive).1
  have bound : (2 : ℚ) ^ ((k.log2 : ℕ) + e) < 2 ^ p := by
    rw [zpow_add₀ two_ne_zero, zpow_natCast]
    rw [le_div_iff₀ (by positivity)] at lower
    calc (2 : ℚ) ^ k.log2 * 2 ^ e ≤ k * 2 ^ e := by gcongr
      _ ≤ x := lower
      _ < 2 ^ p := high
  have places := (zpow_lt_zpow_iff_right₀ one_lt_two).mp bound
  rw [totalExponent]
  omega

theorem le_targetExponent (upper : x / 2 ^ e < k + 1) (low : 2 ^ (52 + p) ≤ x) :
    p ≤ Format.binary64.targetExponent (totalExponent k e) := by
  have places := le_totalExponent upper low
  rw [targetExponent_eq]
  omega

theorem targetExponent_le (lower : k ≤ x / 2 ^ e) (high : x < 2 ^ (53 + p)) (least : -1074 ≤ p)
    (fine : e ≤ Format.binary64.targetExponent (totalExponent k e)) :
    Format.binary64.targetExponent (totalExponent k e) ≤ p := by
  rw [targetExponent_eq] at *
  obtain rfl | positive := Nat.eq_zero_or_pos k
  · -- Nothing is left of the mantissa, so the last place is the least one.
    have none : totalExponent 0 e = 1 + e := by
      rw [totalExponent, Nat.log2_zero]
      omega
    omega
  · have places := totalExponent_le positive lower high
    omega

end Target

/-! ### Rounding -/

theorem shiftToTargetExponent_eq {k : ℕ} {e t : ℤ} {accuracy : Accuracy}
    (target : Format.binary64.targetExponent (totalExponent k e) = t) (fine : e ≤ t) :
    shiftToTargetExponent Format.binary64 k e accuracy =
      (ExtendedMantissa.ofMantissaAndAccuracy k accuracy >>> (t - e).toNat, t) := by
  rw [shiftToTargetExponent, target]
  exact Prod.ext rfl (by dsimp only [shiftToExponent]; omega)

theorem Stands.shifted {k : ℕ} {e t : ℤ} {accuracy : Accuracy} {x : ℚ}
    (stands : Stands (.ofMantissaAndAccuracy k accuracy) (x / 2 ^ e)) (fine : e ≤ t) :
    Stands (ExtendedMantissa.ofMantissaAndAccuracy k accuracy >>> (t - e).toNat) (x / 2 ^ t) := by
  have place : t = e + ((t - e).toNat : ℤ) := by omega
  have unit : (2 : ℚ) ^ t = 2 ^ e * 2 ^ (t - e).toNat := by
    conv_lhs => rw [place]
    rw [zpow_add₀ two_ne_zero, zpow_natCast]
  rw [unit, ← div_div]
  exact stands.shiftRight _

namespace Magnitude

variable {m : Magnitude}

theorem IsDouble.targetExponent (double : m.IsDouble) (positive : 0 < m.significand) :
    Format.binary64.targetExponent (totalExponent m.significand m.exponent) = m.exponent := by
  have most : m.significand.log2 < 53 := (Nat.log2_lt positive.ne').mpr double.bits
  rw [targetExponent_eq, totalExponent]
  obtain full | least := double.full
  · have most' : 52 ≤ m.significand.log2 := (Nat.le_log2 positive.ne').mpr full
    have := double.least
    omega
  · omega

/-- The digits that rounding leaves may be one too many, as `2 ^ 53` is. -/
theorem roundWithAccuracy_of_rounded {sign : Sign} {k r : ℕ} {e t : ℤ} {accuracy : Accuracy}
    {em : ExtendedMantissa} (positive : 0 < m.significand)
    (first : Format.binary64.targetExponent (totalExponent k e) = t) (fine : e ≤ t)
    (rounded : (ExtendedMantissa.ofMantissaAndAccuracy k accuracy >>>
      (t - e).toNat).roundedMantissa = r)
    (second : shiftToTargetExponent Format.binary64 r t .exact = (em, m.exponent))
    (kept : em.mantissa = m.significand) :
    roundWithAccuracy Format.binary64 sign k e accuracy =
      .finite sign m.significand m.exponent positive := by
  have nonzero : em.mantissa ≠ 0 := by omega
  rw [roundWithAccuracy, shiftToTargetExponent_eq first fine]
  dsimp only
  rw [rounded, second]
  dsimp only
  rw [dif_neg nonzero]
  congr 1

theorem IsDouble.lt_zpow {x : ℚ} (double : m.IsDouble) (within : m.Within x) :
    x < 2 ^ (53 + m.exponent) := by
  have bits : (m.significand : ℚ) + 1 ≤ 2 ^ 53 := by exact_mod_cast double.bits
  have units := within.le_half
  rw [div_le_iff₀ m.unit_pos] at units
  calc x ≤ (m.significand + 1 / 2) * 2 ^ m.exponent := units
    _ < 2 ^ 53 * 2 ^ m.exponent := by
      rw [mul_lt_mul_iff_left₀ m.unit_pos]
      linarith
    _ = 2 ^ (53 + m.exponent) := by
      rw [zpow_add₀ two_ne_zero]
      norm_num

/-- Only the quarter below a power of two lies in an interval and has a smaller place. -/
theorem IsDouble.edge {x : ℚ} (double : m.IsDouble) (within : m.Within x)
    (inner : m.exponent ≠ -1074) (below : x < 2 ^ (52 + m.exponent)) :
    m.significand = 2 ^ 52 ∧ 2 ^ 53 - 1 / 2 ≤ x / 2 ^ (m.exponent - 1) ∧
      x / 2 ^ (m.exponent - 1) < 2 ^ 53 := by
  have full := double.full.resolve_right inner
  have positive : 0 < m.significand := by omega
  have halved : x / 2 ^ (m.exponent - 1) = x / 2 ^ m.exponent * 2 := by
    rw [zpow_sub₀ two_ne_zero]
    field_simp
  have units : x / 2 ^ m.exponent < 2 ^ 52 := by
    rw [div_lt_iff₀ m.unit_pos]
    calc x < 2 ^ (52 + m.exponent) := below
      _ = 2 ^ 52 * 2 ^ m.exponent := by
        rw [zpow_add₀ two_ne_zero]
        norm_num
  have least := within.half_le positive
  have bound : m.significand < 2 ^ 52 + 1 := by
    exact_mod_cast (by linarith : (m.significand : ℚ) < 2 ^ 52 + 1)
  have power : m.significand = 2 ^ 52 := by omega
  have near := within.quarter_le power inner
  rw [halved]
  exact ⟨power, by linarith, by linarith⟩

section Rounding

variable {x : ℚ} {sign : Sign} {k : ℕ} {e : ℤ} {accuracy : Accuracy}

theorem mantissa_ofMantissaAndAccuracy :
    (ExtendedMantissa.ofMantissaAndAccuracy k accuracy).mantissa = k := by
  rcases accuracy with _ | (_ | _ | _) <;> rfl

theorem Within.round_inside (within : m.Within x) (double : m.IsDouble)
    (positive : 0 < m.significand)
    (stands : Stands (.ofMantissaAndAccuracy k accuracy) (x / 2 ^ e))
    (fine : e ≤ Format.binary64.targetExponent (totalExponent k e))
    (inside : 2 ^ (52 + m.exponent) ≤ x ∨ m.exponent = -1074) :
    UnpackedFloat.roundWithAccuracy Format.binary64 sign k e accuracy =
      .finite sign m.significand m.exponent positive := by
  have lower := stands.mantissa_le
  have upper := stands.lt_mantissa
  rw [mantissa_ofMantissaAndAccuracy] at lower upper
  have target : Format.binary64.targetExponent (totalExponent k e) = m.exponent := by
    refine le_antisymm (targetExponent_le lower (double.lt_zpow within) double.least fine) ?_
    obtain inside | least := inside
    · exact le_targetExponent upper inside
    · rw [least, targetExponent_eq]
      exact le_max_right _ _
  have rounded := (stands.shifted (target ▸ fine)).rounded (within.half_le positive)
    within.le_half fun odd => ⟨within.half_lt positive odd, within.lt_half odd⟩
  exact roundWithAccuracy_of_rounded positive target (target ▸ fine) rounded
    (shiftToTargetExponent_eq (double.targetExponent positive) le_rfl)
    (by rw [sub_self]; rfl)

/-- Below a power of two the digits before rounding end one place further, and the last of them
carries through. -/
theorem Within.round_edge (within : m.Within x) (double : m.IsDouble)
    (positive : 0 < m.significand)
    (stands : Stands (.ofMantissaAndAccuracy k accuracy) (x / 2 ^ e))
    (fine : e ≤ Format.binary64.targetExponent (totalExponent k e))
    (inner : m.exponent ≠ -1074) (below : x < 2 ^ (52 + m.exponent)) :
    UnpackedFloat.roundWithAccuracy Format.binary64 sign k e accuracy =
      .finite sign m.significand m.exponent positive := by
  have lower := stands.mantissa_le
  have upper := stands.lt_mantissa
  rw [mantissa_ofMantissaAndAccuracy] at lower upper
  obtain ⟨power, near, small⟩ := double.edge within inner below
  have least := double.least
  have target : Format.binary64.targetExponent (totalExponent k e) = m.exponent - 1 := by
    refine le_antisymm (targetExponent_le lower ?_ (by omega) fine) (le_targetExponent upper ?_)
    · rw [show 53 + (m.exponent - 1) = 52 + m.exponent by ring]
      exact below
    · rw [zpow_add₀ two_ne_zero, ← le_div_iff₀ (by positivity)]
      refine le_trans ?_ near
      norm_num
  have rounded := (stands.shifted (target ▸ fine)).rounded (s := 2 ^ 53)
    (by push_cast; exact near) (by push_cast; linarith) (fun odd => absurd (by decide) odd)
  have next : Format.binary64.targetExponent (totalExponent (2 ^ 53) (m.exponent - 1)) =
      m.exponent := by
    have log : (2 ^ 53).log2 = 53 := Nat.log2_two_pow
    rw [targetExponent_eq, totalExponent, log]
    omega
  refine roundWithAccuracy_of_rounded positive target (target ▸ fine) rounded
    (shiftToTargetExponent_eq next (by omega)) ?_
  rw [show (m.exponent - (m.exponent - 1)).toNat = 1 by omega, power]
  rfl

/-- What lies in the interval of a magnitude rounds to it. -/
theorem Within.roundWithAccuracy (within : m.Within x) (double : m.IsDouble)
    (positive : 0 < m.significand) (sign : Sign)
    (stands : Stands (.ofMantissaAndAccuracy k accuracy) (x / 2 ^ e))
    (fine : e ≤ Format.binary64.targetExponent (totalExponent k e)) :
    UnpackedFloat.roundWithAccuracy Format.binary64 sign k e accuracy =
      .finite sign m.significand m.exponent positive := by
  by_cases inside : 2 ^ (52 + m.exponent) ≤ x ∨ m.exponent = -1074
  · exact within.round_inside double positive stands fine inside
  · obtain ⟨below, inner⟩ := not_or.mp inside
    exact within.round_edge double positive stands fine inner (not_le.mp below)

end Rounding

/-! ### Products and quotients -/

section Arithmetic

variable {x : ℚ} {k l : ℕ} {e f : ℤ}

/-- A product of 53 digits or more. -/
theorem Within.mul (within : m.Within (k * 2 ^ e * (l * 2 ^ f))) (double : m.IsDouble)
    (positive : 0 < m.significand) (some : 0 < k) (some' : 0 < l) (full : 2 ^ 52 ≤ k * l) :
    UnpackedFloat.mul Format.binary64 (.finite .positive k e some) (.finite .positive l f some') =
      .finite .positive m.significand m.exponent positive := by
  have units : (k : ℚ) * 2 ^ e * (l * 2 ^ f) / 2 ^ (e + f) = (k * l : ℕ) := by
    rw [zpow_add₀ two_ne_zero]
    push_cast
    field_simp
  refine within.roundWithAccuracy double positive .positive ?_ ?_
  · rw [units]
    exact Stands.exact _
  · have digits : 52 ≤ (k * l).log2 := (Nat.le_log2 (Nat.mul_pos some some').ne').mpr full
    rw [targetExponent_eq, totalExponent]
    omega

/-- The quotient is taken with 53 digits, or down to the least place. -/
theorem divCore_fine (some : 0 < k) (some' : 0 < l) :
    (divCore Format.binary64 k e l f).2.1 ≤ Format.binary64.targetExponent
      (totalExponent (divCore Format.binary64 k e l f).1
        (divCore Format.binary64 k e l f).2.1) := by
  unfold divCore
  dsimp only
  have place :
      min (e - f) (Format.binary64.targetExponent (totalExponent k e - totalExponent l f)) ≤
      max ((k.log2 : ℤ) + e - (l.log2 + f) - 53) (-1074) := by
    rw [targetExponent_eq, totalExponent, totalExponent]
    omega
  have top := min_le_left (e - f)
    (Format.binary64.targetExponent (totalExponent k e - totalExponent l f))
  generalize min (e - f) (Format.binary64.targetExponent (totalExponent k e - totalExponent l f)) =
    t at place top
  rw [targetExponent_eq]
  by_cases least : t ≤ -1074
  · omega
  have long : 53 + l.log2 ≤ k.log2 + (e - f - t).toNat := by omega
  have quotient : 2 ^ 52 ≤ k <<< (e - f - t).toNat / l := by
    rw [Nat.le_div_iff_mul_le some', Nat.shiftLeft_eq]
    calc 2 ^ 52 * l ≤ 2 ^ 52 * 2 ^ (l.log2 + 1) := Nat.mul_le_mul_left _ Nat.lt_log2_self.le
      _ = 2 ^ (53 + l.log2) := by ring
      _ ≤ 2 ^ (k.log2 + (e - f - t).toNat) := Nat.pow_le_pow_right two_pos long
      _ = 2 ^ k.log2 * 2 ^ (e - f - t).toNat := Nat.pow_add ..
      _ ≤ k * 2 ^ (e - f - t).toNat := Nat.mul_le_mul_right _ (Nat.log2_self_le some.ne')
  have digits := (Nat.le_log2 (Nat.pos_of_ne_zero (by omega)).ne').mpr quotient
  rw [totalExponent]
  omega

theorem divCore_stands (some' : 0 < l) :
    Stands (.ofMantissaAndAccuracy (divCore Format.binary64 k e l f).1
        (divCore Format.binary64 k e l f).2.2)
      (k * 2 ^ e / (l * 2 ^ f) / 2 ^ (divCore Format.binary64 k e l f).2.1) := by
  unfold divCore
  dsimp only
  have top := min_le_left (e - f)
    (Format.binary64.targetExponent (totalExponent k e - totalExponent l f))
  generalize min (e - f) (Format.binary64.targetExponent (totalExponent k e - totalExponent l f)) =
    t at top
  have place : e = f + t + ((e - f - t).toNat : ℤ) := by omega
  have units : (k : ℚ) * 2 ^ e / (l * 2 ^ f) / 2 ^ t = (k <<< (e - f - t).toNat : ℕ) / l := by
    rw [Nat.shiftLeft_eq]
    conv_lhs => rw [place]
    rw [zpow_add₀ two_ne_zero, zpow_add₀ two_ne_zero, zpow_natCast]
    push_cast
    field_simp
  rw [units]
  exact Stands.quotient _ some'

theorem Within.div (within : m.Within (k * 2 ^ e / (l * 2 ^ f))) (double : m.IsDouble)
    (positive : 0 < m.significand) (some : 0 < k) (some' : 0 < l) :
    UnpackedFloat.div Format.binary64 (.finite .positive k e some) (.finite .positive l f some') =
      .finite .positive m.significand m.exponent positive :=
  within.roundWithAccuracy double positive .positive (divCore_stands some')
    (divCore_fine some some')

end Arithmetic

end Magnitude
end ModuleBundler.Decimal
