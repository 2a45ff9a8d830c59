import Mathlib.Analysis.Complex.Exponential
import Mathlib.Data.Nat.Cast.Order.Field
import Mathlib.Tactic.Linarith
import Mathlib.Tactic.Positivity

/-! # Fixed-point numbers

Products and powers of numbers with `w` fractional bits lose at most a unit with each truncation. A
polynomial in them is the exponential, up to its remainder. -/

namespace PriceOracle.Lib.FixedPoint

section Rounding

variable {w : Nat}

theorem cast_div_mem (a : Nat) {b : Nat} (hb : 0 < b) :
    (a : ℝ) / b - 1 ≤ (a / b : Nat) ∧ ((a / b : Nat) : ℝ) ≤ a / b := by
  refine ⟨?_,Nat.cast_div_le⟩
  have hpos : (0 : ℝ) < b := by exact_mod_cast hb
  have hlt : (a : ℝ) < b * ((a / b : Nat) + 1) := by exact_mod_cast Nat.lt_mul_div_succ a hb
  rw [sub_le_iff_le_add,div_le_iff₀ hpos,mul_comm]
  exact hlt.le

/-- The product of two numbers with `w` fractional bits. -/
def fixedMul (w a b : Nat) : Nat := a * b / 2 ^ w

/-- Powers of a number with `w` fractional bits, from the first one on. -/
def fixedPow (w x : Nat) : Nat → Nat
  | 0 => x
  | k + 1 => fixedMul w (fixedPow w x k) x

theorem fixedPow_lt {x : Nat} (hx : x < 2 ^ w) (k : Nat) : fixedPow w x k < 2 ^ w := by
  induction k with
  | zero => exact hx
  | succ k ih =>
    refine Nat.div_lt_of_lt_mul ?_
    exact Nat.mul_lt_mul'' ih hx

theorem fixedMul_mem (a b : Nat) :
    (a / 2 ^ w * (b / 2 ^ w) : ℝ) - 1 / 2 ^ w ≤ fixedMul w a b / 2 ^ w ∧
      (fixedMul w a b / 2 ^ w : ℝ) ≤ a / 2 ^ w * (b / 2 ^ w) := by
  obtain ⟨hlower,hupper⟩ := cast_div_mem (a * b) (b := 2 ^ w) (by positivity)
  push_cast at hlower hupper
  have hexact : (a / 2 ^ w * (b / 2 ^ w) : ℝ) = a * b / 2 ^ w / 2 ^ w := by ring
  rw [fixedMul,hexact,← sub_div]
  constructor
  · gcongr
  · gcongr

/-- Each power loses at most one unit to each of its truncations. -/
theorem fixedPow_mem {x : Nat} (hx : x < 2 ^ w) (k : Nat) :
    ((x / 2 ^ w : ℝ)) ^ (k+1) - (k+1) / 2 ^ w ≤ fixedPow w x k / 2 ^ w ∧
      (fixedPow w x k / 2 ^ w : ℝ) ≤ (x / 2 ^ w : ℝ) ^ (k+1) := by
  have hone : (x / 2 ^ w : ℝ) ≤ 1 := by
    rw [div_le_iff₀ (by positivity),one_mul]
    exact_mod_cast hx.le
  have hzero : (0 : ℝ) ≤ x / 2 ^ w := by positivity
  induction k with
  | zero => simp [fixedPow]
  | succ k ih =>
    obtain ⟨hlower,hupper⟩ := fixedMul_mem (fixedPow w x k) x
    push_cast
    constructor
    · have hstep := mul_le_mul_of_nonneg_right ih.1 hzero
      rw [sub_mul] at hstep
      have hunit : ((k : ℝ) + 1) / 2 ^ w * (x / 2 ^ w) ≤ (k+1) / 2 ^ w :=
        mul_le_of_le_one_right (by positivity) hone
      refine le_trans ?_ hlower
      rw [add_div (k+1 : ℝ),← sub_sub]
      exact sub_le_sub_right ((sub_le_sub_left hunit _).trans hstep) _
    · exact hupper.trans (mul_le_mul_of_nonneg_right ih.2 hzero)

end Rounding

noncomputable def taylor (x : ℝ) : ℝ :=
  ∑ m ∈ Finset.range 7, x ^ m / m.factorial

theorem taylor_eq (x : ℝ) : taylor x =
    1 + x + x ^ 2 / 2 + x ^ 3 / 6 + x ^ 4 / 24 + x ^ 5 / 120 + x ^ 6 / 720 := by
  simp [Finset.sum_range_succ,Nat.factorial,taylor]

/-- Up to the logarithm of two, the polynomial misses less than one part in 100000. -/
theorem taylor_bounds {x : ℝ} (h0 : 0 ≤ x) (h1 : x ≤ 7 / 10) :
    taylor x ≤ Real.exp x ∧ Real.exp x * (1 - 976 / 10 ^ 8) ≤ taylor x := by
  have hbelow := Real.sum_le_exp_of_nonneg h0 7
  have habove := Real.exp_bound' h0 (h1.trans (by norm_num)) (show 0 < 7 by decide)
  rw [← taylor] at hbelow habove
  refine ⟨hbelow,?_⟩
  have hpow : x ^ 7 ≤ (7 / 10) ^ 6 * x := by
    exact mul_le_mul_of_nonneg_right (pow_le_pow_left₀ h0 h1 6) h0
  have hquadratic : 1 + x + x ^ 2 / 2 ≤ Real.exp x := by
    refine le_trans ?_ hbelow
    have htail : 0 ≤ x ^ 3 / 6 + x ^ 4 / 24 + x ^ 5 / 120 + x ^ 6 / 720 := by positivity
    rw [taylor_eq]
    linarith
  have herror : x ^ 7 * (7 + 1) / (Nat.factorial 7 * 7) ≤ 976 / 10 ^ 8 * Real.exp x := by
    nlinarith [sq_nonneg (x - 7 / 10)]
  linarith

end PriceOracle.Lib.FixedPoint
