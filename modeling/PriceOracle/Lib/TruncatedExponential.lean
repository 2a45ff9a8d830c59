import Mathlib.Analysis.Calculus.Deriv.MeanValue
import Mathlib.Analysis.Calculus.Deriv.Pow
import Mathlib.Analysis.SpecialFunctions.ExpDeriv
import Mathlib.Topology.Algebra.Module.ModuleTopology

/-! # The truncated exponential

The alternating series of `exp (-z)` lies below the exponential after an even number of terms and
above it after an odd one. As long as the last term is no more than the exponential itself, an odd
number of terms falls with `z`. The same series with each term rounded down to an integer stays
within a multiple of the exponential of the exact one. -/

namespace PriceOracle.Lib.TruncatedExponential

open Finset Set

/-- The first `n` terms of the series of `exp (-z)`. -/
noncomputable def expNegSum (n : ℕ) (z : ℝ) : ℝ :=
  ∑ k ∈ range n, (-1) ^ k * (z ^ k / k.factorial)

section Series

variable {n : ℕ} {z : ℝ}

theorem expNegSum_succ (n : ℕ) (z : ℝ) :
    expNegSum (n+1) z = expNegSum n z + (-1) ^ n * (z ^ n / n.factorial) :=
  sum_range_succ _ n

theorem expNegSum_at_zero (n : ℕ) : expNegSum (n+1) 0 = 1 := by
  induction n with
  | zero => simp [expNegSum]
  | succ n ih =>
    rw [expNegSum_succ,ih,zero_pow n.succ_ne_zero]
    ring

/-- A sum falls by the sum with one term less. -/
theorem hasDerivAt_expNegSum (n : ℕ) (z : ℝ) :
    HasDerivAt (expNegSum (n+1)) (-expNegSum n z) z := by
  induction n with
  | zero =>
    have hconst : expNegSum 1 = fun _ => 1 := by
      funext x
      simp [expNegSum]
    rw [zero_add,hconst,expNegSum,sum_range_zero,neg_zero]
    exact hasDerivAt_const z 1
  | succ n ih =>
    have hterm := ((hasDerivAt_pow (n+1) z).div_const ((n+1).factorial : ℝ)).const_mul
      ((-1 : ℝ) ^ (n+1))
    have hsum := ih.add hterm
    have hfunction : expNegSum (n+1 + 1) = expNegSum (n+1) + fun x : ℝ =>
        (-1) ^ (n+1) * (x ^ (n+1) / (n+1).factorial) := by
      funext x
      exact expNegSum_succ (n+1) x
    rw [hfunction]
    refine hsum.congr_deriv ?_
    rw [expNegSum_succ,Nat.factorial_succ,Nat.add_sub_cancel]
    push_cast
    field_simp
    ring

theorem monotoneOn_of_hasDerivAt {f f' : ℝ → ℝ} {D : Set ℝ} (hD : Convex ℝ D)
    (hf : ∀ x, HasDerivAt f (f' x) x) (hf' : ∀ x ∈ D, 0 ≤ f' x) : MonotoneOn f D := by
  refine monotoneOn_of_deriv_nonneg hD (fun x _ => (hf x).continuousAt.continuousWithinAt)
    (fun x _ => (hf x).differentiableAt.differentiableWithinAt) fun x hx => ?_
  rw [(hf x).deriv]
  exact hf' x (interior_subset hx)

theorem alternate (n : ℕ) (hz : 0 ≤ z) : 0 ≤ (-1) ^ n * (Real.exp (-z) - expNegSum n z) := by
  induction n generalizing z with
  | zero => simpa [expNegSum] using Real.exp_nonneg (-z)
  | succ n ih =>
    have hderiv (x : ℝ) : HasDerivAt
        (fun x => (-1) ^ (n+1) * (Real.exp (-x) - expNegSum (n+1) x))
        ((-1) ^ n * (Real.exp (-x) - expNegSum n x)) x := by
      have hexp : HasDerivAt (fun x => Real.exp (-x)) (-Real.exp (-x)) x := by
        simpa using (hasDerivAt_neg x).exp
      refine ((hexp.sub (hasDerivAt_expNegSum n x)).const_mul _).congr_deriv ?_
      ring
    have hmono := monotoneOn_of_hasDerivAt (convex_Ici 0) hderiv fun x hx => ih hx
    have hfirst := hmono (self_mem_Ici (a := (0 : ℝ))) hz hz
    simpa [expNegSum_at_zero] using hfirst

theorem exp_le_expNegSum (hn : Odd n) (hz : 0 ≤ z) : Real.exp (-z) ≤ expNegSum n z := by
  have h := alternate n hz
  rw [hn.neg_one_pow] at h
  linarith

theorem expNegSum_nonneg (hn : Even n) (hz : 0 ≤ z) (hlast : z ^ n * Real.exp z ≤ n.factorial) :
    0 ≤ expNegSum n z := by
  have hfactorial : (0 : ℝ) < n.factorial := Nat.cast_pos.2 n.factorial_pos
  have hnext := exp_le_expNegSum hn.add_one hz
  rw [expNegSum_succ,hn.neg_one_pow,one_mul] at hnext
  have hterm : z ^ n / n.factorial ≤ Real.exp (-z) := by
    rw [Real.exp_neg,div_le_iff₀ hfactorial,inv_mul_eq_div,le_div_iff₀ (Real.exp_pos z)]
    exact hlast
  linarith

/-- An odd number of terms falls while the last one is no more than the exponential. -/
theorem antitoneOn_expNegSum (hn : Even n) (hz : 0 ≤ z)
    (hlast : z ^ n * Real.exp z ≤ n.factorial) : AntitoneOn (expNegSum (n+1)) (Icc 0 z) := by
  have hmono : MonotoneOn (fun x => -expNegSum (n+1) x) (Icc 0 z) := by
    have hderiv (x : ℝ) : HasDerivAt (fun x => -expNegSum (n+1) x) (expNegSum n x) x :=
      (hasDerivAt_expNegSum n x).neg.congr_deriv (neg_neg _)
    refine monotoneOn_of_hasDerivAt (convex_Icc 0 z) hderiv fun x hx => ?_
    refine expNegSum_nonneg hn hx.1 (le_trans ?_ hlast)
    have hpow := pow_le_pow_left₀ hx.1 hx.2 n
    have hexp := Real.exp_le_exp.2 hx.2
    exact mul_le_mul hpow hexp (Real.exp_nonneg x) (pow_nonneg hz n)
  intro x hx y hy hxy
  exact neg_le_neg_iff.1 (hmono hx hy hxy)

end Series

section Rounding

variable {unit x : ℤ} {k : ℕ}

/-- The terms of the series of `x / unit`, each rounded down to a multiple of `1 / unit`. -/
def roundedTerm (unit x : ℤ) : ℕ → ℤ
  | 0 => unit
  | k + 1 => roundedTerm unit x k * x / unit / (k + 1)

def roundedSum (unit x : ℤ) (n : ℕ) : ℤ := ∑ k ∈ range n, (-1) ^ k * roundedTerm unit x k

theorem roundedTerm_nonneg (hunit : 0 < unit) (hx : 0 ≤ x) : 0 ≤ roundedTerm unit x k := by
  induction k with
  | zero => exact hunit.le
  | succ k ih =>
    exact Int.ediv_nonneg (Int.ediv_nonneg (mul_nonneg ih hx) hunit.le) (by omega)

/-- A quotient is rounded down by less than one. -/
theorem cast_ediv_mem {a b : ℤ} (hb : 0 < b) :
    (a : ℝ) / b - 1 ≤ (a / b : ℤ) ∧ ((a / b : ℤ) : ℝ) ≤ a / b := by
  have hpos : (0 : ℝ) < b := Int.cast_pos.2 hb
  have hbelow : ((b * (a / b) : ℤ) : ℝ) ≤ a := Int.cast_le.2 (Int.mul_ediv_self_le hb.ne')
  have habove : (a : ℝ) ≤ (b * (a / b) + b : ℤ) := Int.cast_le.2 (Int.lt_mul_ediv_self_add hb).le
  push_cast at hbelow habove
  constructor
  · rw [sub_le_iff_le_add,div_le_iff₀ hpos]
    linarith
  · rw [le_div_iff₀ hpos]
    linarith

/-- What the rounding of a term and of those before it takes away. -/
theorem roundedTerm_mem (hunit : 0 < unit) (hx : 0 ≤ x) (k : ℕ) :
    (roundedTerm unit x k : ℝ) ≤ unit * ((x / unit : ℝ) ^ k / k.factorial) ∧
      unit * ((x / unit : ℝ) ^ k / k.factorial) - roundedTerm unit x k ≤
        ∑ i ∈ range k, (x / unit : ℝ) ^ i / i.factorial := by
  have hpos : (0 : ℝ) < unit := Int.cast_pos.2 hunit
  have hz : (0 : ℝ) ≤ x / unit := div_nonneg (Int.cast_nonneg hx) hpos.le
  induction k with
  | zero => simp [roundedTerm]
  | succ k ih =>
    obtain ⟨z,hzdef⟩ : ∃ z : ℝ, z = x / unit := ⟨_,rfl⟩
    obtain ⟨hbelow,hloss⟩ := ih
    rw [← hzdef] at hz hbelow hloss ⊢
    have hsucc : (0 : ℝ) < k+1 := by positivity
    have hterm : roundedTerm unit x (k+1) = roundedTerm unit x k * x / (unit * (k+1)) := by
      rw [roundedTerm,Int.ediv_ediv_of_nonneg hunit.le]
    have hexact : ((roundedTerm unit x k * x : ℤ) : ℝ) / (unit * (k+1) : ℤ) =
        roundedTerm unit x k * (z / (k+1)) := by
      rw [hzdef]
      push_cast
      field_simp
    obtain ⟨hdown,hup⟩ := cast_ediv_mem (a := roundedTerm unit x k * x)
      (b := unit * (k+1)) (by positivity)
    rw [hexact,← hterm] at hdown hup
    have hpower : z ^ (k+1) / (k+1).factorial = z ^ k / k.factorial * (z / (k+1)) := by
      rw [Nat.factorial_succ,pow_succ]
      push_cast
      field_simp
    have hratio : 0 ≤ z / (k+1) := div_nonneg hz hsucc.le
    have hscaled := mul_le_mul_of_nonneg_right hbelow hratio
    have hlossScaled := mul_le_mul_of_nonneg_right hloss hratio
    have hsum : (∑ i ∈ range k, z ^ i / i.factorial) * (z / (k+1)) ≤
        ∑ i ∈ range k, z ^ (i+1) / (i+1).factorial := by
      rw [sum_mul]
      refine sum_le_sum fun i hi => ?_
      have hik : (i : ℝ) + 1 ≤ k+1 := by
        have := mem_range.1 hi
        exact_mod_cast (by omega : i+1 ≤ k+1)
      calc z ^ i / i.factorial * (z / (k+1))
          ≤ z ^ i / i.factorial * (z / (i+1)) := by gcongr
        _ = z ^ (i+1) / (i+1).factorial := by
            rw [Nat.factorial_succ,pow_succ]
            push_cast
            field_simp
    rw [sum_range_succ',hpower,pow_zero,Nat.factorial_zero,Nat.cast_one,div_one]
    constructor
    · linarith
    · linarith

theorem roundedTerm_le (hunit : 0 < unit) (hx : 0 ≤ x) (k : ℕ) :
    (roundedTerm unit x k : ℝ) ≤ unit * Real.exp (x / unit : ℝ) := by
  have hpos : (0 : ℝ) < unit := Int.cast_pos.2 hunit
  have hz : (0 : ℝ) ≤ x / unit := div_nonneg (Int.cast_nonneg hx) hpos.le
  exact (roundedTerm_mem hunit hx k).1.trans
    (mul_le_mul_of_nonneg_left (Real.pow_div_factorial_le_exp _ hz k) hpos.le)

theorem abs_roundedSum_le (hunit : 0 < unit) (hx : 0 ≤ x) {c : ℤ}
    (hc : ∀ k, roundedTerm unit x k ≤ c) (n : ℕ) : |roundedSum unit x n| ≤ n * c := by
  have hterm (k : ℕ) : |(-1) ^ k * roundedTerm unit x k| ≤ c := by
    rw [abs_mul,abs_pow,abs_neg,abs_one,one_pow,one_mul,
      abs_of_nonneg (roundedTerm_nonneg hunit hx)]
    exact hc k
  calc |roundedSum unit x n| ≤ ∑ k ∈ range n, |(-1) ^ k * roundedTerm unit x k| :=
        abs_sum_le_sum_abs _ _
    _ ≤ ∑ _k ∈ range n, c := sum_le_sum fun k _ => hterm k
    _ = n * c := by rw [sum_const,card_range,nsmul_eq_mul]

theorem roundedTerm_error (hunit : 0 < unit) (hx : 0 ≤ x) (k : ℕ) :
    |unit * ((x / unit : ℝ) ^ k / k.factorial) - roundedTerm unit x k| ≤
      Real.exp (x / unit : ℝ) := by
  obtain ⟨hbelow,hloss⟩ := roundedTerm_mem hunit hx k
  have hz : (0 : ℝ) ≤ x / unit := div_nonneg (Int.cast_nonneg hx) (Int.cast_nonneg hunit.le)
  rw [abs_of_nonneg (sub_nonneg.2 hbelow)]
  exact hloss.trans (Real.sum_le_exp_of_nonneg hz k)

/-- The rounded sum is off by no more than the exponential for each of its terms. -/
theorem roundedSum_error (hunit : 0 < unit) (hx : 0 ≤ x) (n : ℕ) :
    |unit * expNegSum n (x / unit : ℝ) - roundedSum unit x n| ≤
      n * Real.exp (x / unit : ℝ) := by
  induction n with
  | zero => simp [expNegSum,roundedSum]
  | succ n ih =>
    have hterm := roundedTerm_error hunit hx n
    have hsum : roundedSum unit x (n+1) =
        roundedSum unit x n + (-1) ^ n * roundedTerm unit x n := sum_range_succ _ n
    have hsplit : unit * expNegSum (n+1) (x / unit : ℝ) - roundedSum unit x (n+1) =
        (unit * expNegSum n (x / unit : ℝ) - roundedSum unit x n) +
          (-1) ^ n * (unit * ((x / unit : ℝ) ^ n / n.factorial) - roundedTerm unit x n) := by
      rw [hsum,expNegSum_succ]
      push_cast
      ring
    have hsign : |(-1 : ℝ) ^ n *
        (unit * ((x / unit : ℝ) ^ n / n.factorial) - roundedTerm unit x n)| ≤
          Real.exp (x / unit : ℝ) := by
      rwa [abs_mul,abs_pow,abs_neg,abs_one,one_pow,one_mul]
    rw [hsplit]
    refine (abs_add_le _ _).trans ?_
    push_cast
    linarith

end Rounding

end PriceOracle.Lib.TruncatedExponential
