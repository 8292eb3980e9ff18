import Mathlib.Data.Nat.Cast.Order.Field
import ModuleBundler.Proofs.Decimal.Interval

/-! The fewest digits that read back. The search for them stays on the grids next to the
magnitude, and on the one of seventeen digits it cannot fail: the grid is finer there than
the interval is wide. -/
namespace ModuleBundler.Decimal

namespace Digits

theorem value_normalize (d : Digits) : d.normalize.value = d.value := by
  fun_induction normalize d with
  | case1 d zero ih =>
    have tens : d.coefficient = 10 * (d.coefficient / 10) := by omega
    rw [ih, value, value]
    conv_rhs => rw [tens]
    rw [zpow_add₀ (by norm_num)]
    push_cast
    ring
  | case2 d last => rfl

theorem normalize_le (d : Digits) : d.normalize.coefficient ≤ d.coefficient := by
  fun_induction normalize d with
  | case1 d zero ih => exact ih.trans (Nat.div_le_self _ _)
  | case2 d last => exact le_rfl

end Digits

namespace Magnitude

variable {m : Magnitude}

/-! ### The decimal exponent -/

theorem value_bounds (positive : 0 < m.significand) :
    (2 : ℚ) ^ ((m.significand.log2 : ℤ) + m.exponent) ≤ m.value ∧
      m.value < 2 * 2 ^ ((m.significand.log2 : ℤ) + m.exponent) := by
  obtain ⟨low, high⟩ := log2_bounds positive
  rw [zpow_add₀ two_ne_zero, zpow_natCast, value, ← mul_assoc]
  exact ⟨mul_le_mul_of_nonneg_right low m.unit_pos.le, mul_lt_mul_of_pos_right high m.unit_pos⟩

theorem power_le_iff {e : ℤ} :
    (scaled m.significand m.exponent 1 e).2 ≤ (scaled m.significand m.exponent 1 e).1 ↔
      (10 : ℚ) ^ e ≤ m.value := by
  rw [scaled_ge_iff, Nat.cast_one, one_mul, value]

theorem decimalExponent_spec (double : m.IsDouble) (positive : 0 < m.significand) :
    (10 : ℚ) ^ m.decimalExponent ≤ m.value ∧ m.value < 10 ^ (m.decimalExponent + 1) := by
  have bits : m.significand.log2 < 53 := (Nat.log2_lt positive.ne').mpr double.bits
  have least := double.least
  have greatest := double.greatest
  obtain ⟨low, high⟩ := guess_bounds ((m.significand.log2 : ℤ) + m.exponent) (by omega) (by omega)
  obtain ⟨low', high'⟩ := value_bounds positive
  unfold decimalExponent
  simp only [Int.ofNat_eq_natCast, List.find?_cons, List.find?_nil]
  generalize ((m.significand.log2 : ℤ) + m.exponent) * 30103 / 100000 = guess at *
  by_cases next : (10 : ℚ) ^ (guess + 1) ≤ m.value
  · rw [decide_eq_true (power_le_iff.mpr next)]
    change (10 : ℚ) ^ (guess + 1) ≤ m.value ∧ m.value < 10 ^ (guess + 1 + 1)
    rw [add_assoc]
    exact ⟨next, high'.trans_le high⟩
  rw [decide_eq_false (mt power_le_iff.mp next)]
  rw [not_le] at next
  by_cases here : (10 : ℚ) ^ guess ≤ m.value
  · rw [decide_eq_true (power_le_iff.mpr here)]
    exact ⟨here, next⟩
  · rw [decide_eq_false (mt power_le_iff.mp here)]
    change (10 : ℚ) ^ (guess - 1) ≤ m.value ∧ m.value < 10 ^ (guess - 1 + 1)
    rw [sub_add_cancel]
    exact ⟨low.trans low', not_le.mp here⟩

/-! ### The grids -/

/-- The neighbour below on the grid of a place, in units of it. -/
def below (m : Magnitude) (place : ℤ) : ℕ :=
  (scaled m.significand m.exponent 1 place).1 / (scaled m.significand m.exponent 1 place).2

theorem below_spec (place : ℤ) :
    m.below place * 10 ^ place ≤ m.value ∧ m.value < (m.below place + 1 : ℕ) * 10 ^ place := by
  have unit : (0 : ℚ) < 10 ^ place := by positivity
  have size := scaled_fst m.significand 1 m.exponent place
  have step := scaled_snd m.significand 1 m.exponent place
  rw [Nat.cast_one, one_mul] at step
  have common := common_pos m.exponent place
  have positive : 0 < (scaled m.significand m.exponent 1 place).2 := by
    rw [← Nat.cast_pos (α := ℚ), step]
    exact mul_pos unit common
  have quotient : m.value / 10 ^ place = (scaled m.significand m.exponent 1 place).1 /
      (scaled m.significand m.exponent 1 place).2 := by
    rw [size, step, value]
    field_simp
  rw [← le_div_iff₀ unit, ← div_lt_iff₀ unit, quotient]
  refine ⟨Nat.cast_div_le, ?_⟩
  rw [div_lt_iff₀ (by exact_mod_cast positive)]
  exact_mod_cast Nat.mul_comm _ _ ▸ Nat.lt_mul_div_succ _ positive

/-- Half a unit on either side, or a quarter next to a power of two, is more than the step of the
grid of seventeen digits. -/
theorem step_lt (double : m.IsDouble) (positive : 0 < m.significand) {u : ℚ}
    (fine : u * 10 ^ 16 ≤ m.value) : u < m.high - m.low := by
  have unit := m.unit_pos
  have bits : (m.significand : ℚ) < 2 ^ 53 := by exact_mod_cast double.bits
  rw [value] at fine
  have bound : u * 10 ^ 16 < 2 ^ 53 * 2 ^ m.exponent :=
    fine.trans_lt (mul_lt_mul_of_pos_right bits unit)
  rw [high_eq, low_eq positive, ← sub_mul]
  split
  next edge =>
    rw [edge.1] at fine
    push_cast at fine
    norm_num at fine ⊢
    linarith
  next inner =>
    norm_num at bound ⊢
    linarith

variable {count : ℕ} {d : Digits}

theorem onGrid?_cases (found : m.onGrid? count = some d) :
    ∃ c, (c = m.below (m.decimalExponent - count + 1) ∨
        c = m.below (m.decimalExponent - count + 1) + 1) ∧
      m.roundsFrom c (m.decimalExponent - count + 1) = true ∧
      d = ⟨c, m.decimalExponent - count + 1⟩ := by
  unfold onGrid? at found
  dsimp only at found
  rw [← below] at found
  split_ifs at found with both up lower upper
  · rw [Bool.and_eq_true] at both
    exact ⟨_, .inr rfl, both.2, (Option.some.inj found).symm⟩
  · rw [Bool.and_eq_true] at both
    exact ⟨_, .inl rfl, both.1, (Option.some.inj found).symm⟩
  · exact ⟨_, .inl rfl, lower, (Option.some.inj found).symm⟩
  · exact ⟨_, .inr rfl, upper, (Option.some.inj found).symm⟩

theorem exists_onGrid?_of_within {place : ℤ} (grid : place = m.decimalExponent - count + 1)
    (fits : m.roundsFrom (m.below place) place = true ∨
      m.roundsFrom (m.below place + 1) place = true) : ∃ d, m.onGrid? count = some d := by
  unfold onGrid?
  dsimp only
  rw [← grid, ← below]
  split
  · exact ⟨_, rfl⟩
  split
  · exact ⟨_, rfl⟩
  split
  · exact ⟨_, rfl⟩
  next lower upper => exact absurd fits (not_or.mpr ⟨lower, upper⟩)

theorem onGrid?_within (found : m.onGrid? count = some d) : m.Within d.value := by
  obtain ⟨c, -, fits, rfl⟩ := onGrid?_cases found
  exact roundsFrom_iff.mp fits

theorem onGrid?_le (double : m.IsDouble) (positive : 0 < m.significand)
    (found : m.onGrid? count = some d) : d.coefficient ≤ 10 ^ count := by
  obtain ⟨c, near, -, rfl⟩ := onGrid?_cases found
  have size := (below_spec (m := m) (m.decimalExponent - count + 1)).1
  have most := (decimalExponent_spec double positive).2
  have places : m.decimalExponent + 1 = count + (m.decimalExponent - count + 1) := by omega
  rw [places, zpow_add₀ (by norm_num), zpow_natCast] at most
  have bound : m.below (m.decimalExponent - count + 1) < 10 ^ count := by
    have scaled := lt_of_mul_lt_mul_right (size.trans_lt most) (by positivity)
    exact_mod_cast scaled
  change c ≤ 10 ^ count
  omega

theorem exists_onGrid? (double : m.IsDouble) (positive : 0 < m.significand) :
    ∃ d, m.onGrid? 17 = some d := by
  generalize grid : m.decimalExponent - (17 : ℕ) + 1 = place
  have fine : (10 : ℚ) ^ place * 10 ^ 16 ≤ m.value := by
    have least := (decimalExponent_spec double positive).1
    have places : m.decimalExponent = place + (16 : ℕ) := by omega
    rwa [places, zpow_add₀ (by norm_num), zpow_natCast] at least
  have wide := step_lt double positive fine
  obtain ⟨size, next⟩ := below_spec (m := m) place
  have own := value_between positive
  refine exists_onGrid?_of_within grid.symm ?_
  rw [roundsFrom_iff, roundsFrom_iff, Digits.value, Digits.value]
  dsimp only
  by_cases lower : m.low < m.below place * 10 ^ place
  · have upper : (m.below place : ℚ) * 10 ^ place < m.high := size.trans_lt own.2
    exact .inl ⟨lower.le, upper.le, fun _ => ⟨lower, upper⟩⟩
  · have upper : ((m.below place + 1 : ℕ) : ℚ) * 10 ^ place < m.high := by
      push_cast
      linarith
    have lower : m.low < ((m.below place + 1 : ℕ) : ℚ) * 10 ^ place := own.1.trans next
    exact .inr ⟨lower.le, upper.le, fun _ => ⟨lower, upper⟩⟩

/-- The digits of a double lie in its interval, and they are seventeen at most. -/
theorem shortest_within (double : m.IsDouble) (positive : 0 < m.significand) :
    m.Within m.shortest.value ∧ m.shortest.coefficient ≤ 10 ^ 17 := by
  obtain ⟨last, found⟩ := exists_onGrid? double positive
  cases search : (List.range 17).findSome? fun i => m.onGrid? (i + 1) with
  | none =>
    have missed := List.findSome?_eq_none_iff.mp search 16 (by decide)
    rw [found] at missed
    contradiction
  | some d =>
    obtain ⟨i, inside, found⟩ := List.exists_of_findSome?_eq_some search
    have few : i + 1 ≤ 17 := List.mem_range.mp inside
    have digits : m.shortest = d.normalize := by
      rw [shortest, search]
      rfl
    rw [digits, Digits.value_normalize]
    exact ⟨onGrid?_within found, (Digits.normalize_le d).trans
      ((onGrid?_le double positive found).trans (Nat.pow_le_pow_right (by decide) few))⟩

end Magnitude
end ModuleBundler.Decimal
