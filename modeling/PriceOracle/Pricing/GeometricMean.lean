import Mathlib.Analysis.SpecialFunctions.Log.Deriv
import Mathlib.Analysis.Complex.ExponentialBounds
import PriceOracle.Lib.FixedPoint
import PriceOracle.Model.Invocation
import PriceOracle.Model.Twap

/-! # The geometric mean of one price

The logarithm is read off bit by bit and the power is a Taylor polynomial, both with 32 fractional
bits. Together they return a price to within one part in 100000. -/

namespace PriceOracle.Pricing.GeometricMean

open Lib.MachineInt Lib.FixedPoint Model

theorem satMul128_shift {a b : Nat} (ha : a < 2 ^ 33) (hb : b < 2 ^ 33) :
    satMul128 a b >>> 32 = fixedMul 32 a b := by
  have hfits : a * b ≤ u128Max := (Nat.mul_le_mul ha.le hb.le).trans (by decide)
  rw [satMul128,min_eq_left hfits,Nat.shiftRight_eq_div_pow,fixedMul]

section Logarithm

variable {y : Nat}

theorem log2Bits_lt (n y : Nat) : log2Bits n y < 2 ^ n := by
  induction n generalizing y with
  | zero => exact Nat.one_pos
  | succ n ih =>
    rw [log2Bits,pow_succ]
    split_ifs
    · have hrest := ih ((satMul128 y y >>> 32) >>> 1)
      omega
    · have hrest := ih (satMul128 y y >>> 32)
      omega

theorem log2Bits_mono (n : Nat) {y y' : Nat} (h : y ≤ y') : log2Bits n y ≤ log2Bits n y' := by
  induction n generalizing y y' with
  | zero => exact le_rfl
  | succ n ih =>
    have hshift (k : Nat) {a b : Nat} (hab : a ≤ b) : a >>> k ≤ b >>> k := by
      rw [Nat.shiftRight_eq_div_pow,Nat.shiftRight_eq_div_pow]
      exact Nat.div_le_div_right hab
    have hsquare : satMul128 y y >>> 32 ≤ satMul128 y' y' >>> 32 :=
      hshift 32 (min_le_min_right _ (Nat.mul_le_mul h h))
    rw [log2Bits,log2Bits]
    split_ifs with hhigh hhigh'
    · exact Nat.add_le_add_left (ih (hshift 1 hsquare)) _
    · omega
    · exact (log2Bits_lt n _).le.trans (Nat.le_add_right _ _)
    · exact ih hsquare

/-- The natural logarithm of a mantissa, which stands for a number from one to two. -/
noncomputable def mantissaLog (y : Nat) : ℝ := Real.log (y / (2 ^ 32 : Nat))

theorem mantissaLog_eq (y : Nat) : mantissaLog y = Real.log (y / 2 ^ 32) := by
  norm_num [mantissaLog]

/-- The square of a mantissa, halved or not, and truncated. -/
theorem mantissaLog_square {next bit : Nat} (hy : 0 < y) (hnext : y * y / 2 ^ (32 + bit) = next)
    (hlow : 2 ^ 32 ≤ next) :
    2 * mantissaLog y - bit * Real.log 2 - 1 / 2 ^ 32 ≤ mantissaLog next ∧
      mantissaLog next ≤ 2 * mantissaLog y - bit * Real.log 2 := by
  obtain ⟨hlower,hupper⟩ := cast_div_mem (y * y) (b := 2 ^ (32 + bit)) (by positivity)
  rw [hnext] at hlower hupper
  push_cast at hlower hupper
  have hnext' : (2 : ℝ) ^ 32 ≤ next := by exact_mod_cast hlow
  have hexact : Real.log ((y * y : ℝ) / 2 ^ (32 + bit) / 2 ^ 32) =
      2 * mantissaLog y - bit * Real.log 2 := by
    have hform : (y * y : ℝ) / 2 ^ (32 + bit) / 2 ^ 32 = (y / 2 ^ 32) ^ 2 / 2 ^ bit := by
      rw [pow_add]
      field_simp
    rw [hform,Real.log_div (by positivity) (by positivity),Real.log_pow,Real.log_pow,mantissaLog_eq]
    norm_num
  constructor
  · have hratio : (y * y : ℝ) / 2 ^ (32 + bit) / 2 ^ 32 ≤ next / 2 ^ 32 * (1 + 1 / 2 ^ 32) := by
      rw [div_le_iff₀ (by positivity)]
      have hstep : (next : ℝ) + 1 ≤ next * (1 + 1 / 2 ^ 32) := by
        linarith
      calc (y * y : ℝ) / 2 ^ (32 + bit) ≤ next+1 := by linarith
        _ ≤ next * (1 + 1 / 2 ^ 32) := hstep
        _ = next / 2 ^ 32 * (1 + 1 / 2 ^ 32) * 2 ^ 32 := by ring
    have hlog := Real.log_le_log (by positivity) hratio
    rw [hexact,Real.log_mul (by positivity) (by positivity)] at hlog
    have hsmall := Real.log_le_sub_one_of_pos (x := 1 + 1 / 2 ^ 32) (by positivity)
    have hself := mantissaLog_eq next
    linarith
  · rw [← hexact,mantissaLog_eq]
    exact Real.log_le_log (by positivity) (by gcongr)

/-- The bits are those of the logarithm, up to the last one and one truncation for each. -/
theorem log2Bits_bounds (n : Nat) {y : Nat} (hlow : 2 ^ 32 ≤ y) (hhigh : y < 2 ^ 33) :
    2 ^ n * mantissaLog y - Real.log 2 - 2 ^ n / 2 ^ 32 ≤ Real.log 2 * log2Bits n y ∧
      Real.log 2 * log2Bits n y ≤ 2 ^ n * mantissaLog y := by
  induction n generalizing y with
  | zero =>
    have hy : (2 : ℝ) ^ 32 ≤ y := by exact_mod_cast hlow
    have hy' : (y : ℝ) < 2 ^ 33 := by exact_mod_cast hhigh
    rw [mantissaLog_eq]
    have hnonneg : 0 ≤ Real.log (y / 2 ^ 32) :=
      Real.log_nonneg (by rw [le_div_iff₀ (by positivity)]; linarith)
    have htwo : Real.log (y / 2 ^ 32) ≤ Real.log 2 := by
      refine Real.log_le_log (by positivity) ?_
      linarith
    rw [log2Bits,Nat.cast_zero,mul_zero,pow_zero,one_mul]
    constructor
    · linarith
    · exact hnonneg
  | succ n ih =>
    have hpow : (0 : ℝ) < 2 ^ n := by positivity
    have hsquare : satMul128 y y >>> 32 = y * y / 2 ^ 32 := satMul128_shift hhigh hhigh
    have hbig : 2 ^ 32 * 2 ^ 32 ≤ y * y := Nat.mul_le_mul hlow hlow
    have hsmall : y * y < 2 ^ 33 * 2 ^ 33 := Nat.mul_lt_mul'' hhigh hhigh
    rw [log2Bits,hsquare]
    split_ifs with hbit
    · have hnext : y * y / 2 ^ (32 + 1) = (y * y / 2 ^ 32) >>> 1 := by
        rw [Nat.shiftRight_eq_div_pow,Nat.div_div_eq_div_mul,← pow_add]
      have hrange : 2 ^ 32 ≤ (y * y / 2 ^ 32) >>> 1 ∧ (y * y / 2 ^ 32) >>> 1 < 2 ^ 33 := by
        omega
      obtain ⟨hlower,hupper⟩ := mantissaLog_square (by omega) hnext hrange.1
      obtain ⟨hlower',hupper'⟩ := ih hrange.1 hrange.2
      push_cast at hlower hupper ⊢
      rw [pow_succ]
      constructor <;> nlinarith
    · have hrange : 2 ^ 32 ≤ y * y / 2 ^ 32 ∧ y * y / 2 ^ 32 < 2 ^ 33 := by
        omega
      have hsame : y * y / 2 ^ (32 + 0) = y * y / 2 ^ 32 := rfl
      obtain ⟨hlower,hupper⟩ := mantissaLog_square (by omega) hsame hrange.1
      obtain ⟨hlower',hupper'⟩ := ih hrange.1 hrange.2
      rw [pow_succ]
      constructor <;> nlinarith

end Logarithm

theorem exp2Frac_eq {frac : Nat} (h : frac < 2 ^ 32) :
    exp2Frac frac = 2 ^ 32 + fixedMul 32 frac ln2 + fixedPow 32 (fixedMul 32 frac ln2) 1 / 2 +
      fixedPow 32 (fixedMul 32 frac ln2) 2 / 6 + fixedPow 32 (fixedMul 32 frac ln2) 3 / 24 +
      fixedPow 32 (fixedMul 32 frac ln2) 4 / 120 + fixedPow 32 (fixedMul 32 frac ln2) 5 / 720 := by
  have hx : fixedMul 32 frac ln2 < 2 ^ 32 :=
    Nat.div_lt_of_lt_mul (Nat.mul_lt_mul'' h (by decide))
  have hfirst : satMul128 frac ln2 >>> 32 = fixedMul 32 frac ln2 :=
    satMul128_shift (by omega) (by decide)
  unfold exp2Frac
  rw [hfirst]
  generalize fixedMul 32 frac ln2 = x at hx
  have hlt := fixedPow_lt hx
  have hpow (k : Nat) : satMul128 (fixedPow 32 x k) x >>> 32 = fixedPow 32 x (k+1) := by
    have hk := hlt k
    exact satMul128_shift (by omega) (by omega)
  have hsecond : satMul128 x x >>> 32 = fixedPow 32 x 1 := hpow 0
  have hthird : satMul128 (fixedPow 32 x 1) x >>> 32 = fixedPow 32 x 2 := hpow 1
  have hfourth : satMul128 (fixedPow 32 x 2) x >>> 32 = fixedPow 32 x 3 := hpow 2
  have hfifth : satMul128 (fixedPow 32 x 3) x >>> 32 = fixedPow 32 x 4 := hpow 3
  have hsixth : satMul128 (fixedPow 32 x 4) x >>> 32 = fixedPow 32 x 5 := hpow 4
  have h1 := hlt 1
  have h2 := hlt 2
  have h3 := hlt 3
  have h4 := hlt 4
  have h5 := hlt 5
  have hadd {a b : Nat} (ha : a < 2 ^ 40) (hb : b < 2 ^ 32) : satAdd128 a b = a + b :=
    min_eq_left ((Nat.add_le_add ha.le hb.le).trans (by decide))
  dsimp only
  rw [hsecond,hthird,hfourth,hfifth,hsixth,Nat.one_shiftLeft]
  iterate 6 rw [List.foldl_cons]
  rw [List.foldl_nil]
  simp (disch := omega) only [hadd]

theorem ln2_mem : (ln2 / 2 ^ 32 : ℝ) ≤ Real.log 2 ∧ Real.log 2 ≤ ln2 / 2 ^ 32 + 2 / 2 ^ 32 := by
  have hnear := abs_sub_le_iff.1 Real.log_two_near_10
  unfold ln2
  constructor
  · refine le_trans ?_ (sub_le_comm.1 hnear.2)
    norm_num
  · refine (sub_le_iff_le_add.1 hnear.1).trans ?_
    norm_num

/-- The power of two of a fraction misses less than one part in 100000. -/
theorem exp2Frac_mem {frac : Nat} (h : frac < 2 ^ 32) :
    (exp2Frac frac / 2 ^ 32 : ℝ) ≤ Real.exp (frac / 2 ^ 32 * Real.log 2) ∧
      Real.exp (frac / 2 ^ 32 * Real.log 2) * (1 - 977 / 10 ^ 8) ≤ exp2Frac frac / 2 ^ 32 := by
  have hx : fixedMul 32 frac ln2 < 2 ^ 32 :=
    Nat.div_lt_of_lt_mul (Nat.mul_lt_mul'' h (by decide))
  obtain ⟨hlower,hupper⟩ := fixedMul_mem frac ln2
  have hfrac : (frac / 2 ^ 32 : ℝ) ≤ 1 := by
    rw [div_le_iff₀ (by positivity),one_mul]
    exact_mod_cast h.le
  have hfrac' : (0 : ℝ) ≤ frac / 2 ^ 32 := by positivity
  rw [exp2Frac_eq h]
  generalize fixedMul 32 frac ln2 = x at hx hlower hupper
  have hpow := fixedPow_mem hx
  obtain ⟨hln,hln'⟩ := ln2_mem
  -- the argument of the polynomial is at most three units below the exact one
  have hbelow : (x / 2 ^ 32 : ℝ) ≤ frac / 2 ^ 32 * Real.log 2 :=
    hupper.trans (mul_le_mul_of_nonneg_left hln hfrac')
  have habove : (frac / 2 ^ 32 : ℝ) * Real.log 2 ≤ x / 2 ^ 32 + 3 / 2 ^ 32 := by
    nlinarith [mul_le_mul_of_nonneg_left hln' hfrac']
  have hrange : (x / 2 ^ 32 : ℝ) ≤ 7 / 10 := by
    have hlog := Real.log_two_lt_d9
    nlinarith
  obtain ⟨htaylor,htaylor'⟩ := taylor_bounds (by positivity) hrange
  have hone : 1 ≤ Real.exp (frac / 2 ^ 32 * Real.log 2) :=
    Real.one_le_exp (mul_nonneg hfrac' (Real.log_nonneg (by norm_num)))
  have hexp : Real.exp (frac / 2 ^ 32 * Real.log 2) * (1 - 3 / 2 ^ 32) ≤ Real.exp (x / 2 ^ 32) := by
    have hsmall := Real.add_one_le_exp (-(3 / 2 ^ 32 : ℝ))
    calc _ ≤ Real.exp (frac / 2 ^ 32 * Real.log 2) * Real.exp (-(3 / 2 ^ 32)) :=
          mul_le_mul_of_nonneg_left (by linarith) (Real.exp_pos _).le
      _ ≤ _ := by
        rw [← Real.exp_add]
        exact Real.exp_le_exp.2 (by linarith)
  have hterm (k : Nat) {d : Nat} (hd : 0 < d) :
      ((x / 2 ^ 32 : ℝ) ^ (k+1) - (k+1) / 2 ^ 32) / d - 1 / 2 ^ 32 ≤
        (fixedPow 32 x k / d : Nat) / 2 ^ 32 ∧
      ((fixedPow 32 x k / d : Nat) : ℝ) / 2 ^ 32 ≤ (x / 2 ^ 32 : ℝ) ^ (k+1) / d := by
    obtain ⟨hquotient,hquotient'⟩ := cast_div_mem (fixedPow 32 x k) hd
    constructor
    · calc _ ≤ (fixedPow 32 x k / 2 ^ 32 : ℝ) / d - 1 / 2 ^ 32 := by
            gcongr
            exact (hpow k).1
        _ = (fixedPow 32 x k / d - 1) / 2 ^ 32 := by ring
        _ ≤ _ := by gcongr
    · calc _ ≤ (fixedPow 32 x k / d : ℝ) / 2 ^ 32 := by gcongr
        _ = fixedPow 32 x k / 2 ^ 32 / d := by ring
        _ ≤ _ := by
          gcongr
          exact (hpow k).2
  have h1 := hterm 1 (d := 2) (by decide)
  have h2 := hterm 2 (d := 6) (by decide)
  have h3 := hterm 3 (d := 24) (by decide)
  have h4 := hterm 4 (d := 120) (by decide)
  have h5 := hterm 5 (d := 720) (by decide)
  rw [taylor_eq] at htaylor htaylor'
  push_cast at h1 h2 h3 h4 h5 ⊢
  constructor
  · have hmono := Real.exp_le_exp.2 hbelow
    linarith
  · nlinarith

section Prices

variable {m m' y : Nat}

/-- The logarithm of a mantissa gives it back, but for less than one part in 100000. -/
theorem exp2Frac_log2Bits (hlow : 2 ^ 32 ≤ y) (hhigh : y < 2 ^ 33) :
    exp2Frac (log2Bits 32 y) ≤ y ∧ y * (10 ^ 8 - 978) ≤ exp2Frac (log2Bits 32 y) * 10 ^ 8 := by
  obtain ⟨hlower,hupper⟩ := exp2Frac_mem (log2Bits_lt 32 y)
  obtain ⟨hlog,hlog'⟩ := log2Bits_bounds 32 hlow hhigh
  have hexp : Real.exp (mantissaLog y) = y / 2 ^ 32 := by
    rw [mantissaLog_eq,Real.exp_log (by positivity)]
  have hbelow : (log2Bits 32 y / 2 ^ 32 : ℝ) * Real.log 2 ≤ mantissaLog y := by
    linarith
  have habove : mantissaLog y + -(2 / 2 ^ 32) ≤ (log2Bits 32 y / 2 ^ 32 : ℝ) * Real.log 2 := by
    have htwo := Real.log_two_lt_d9
    linarith
  constructor
  · have hle := hlower.trans (Real.exp_le_exp.2 hbelow)
    rw [hexp,div_le_div_iff_of_pos_right (by positivity)] at hle
    exact_mod_cast hle
  · have hsmall := Real.add_one_le_exp (-(2 / 2 ^ 32 : ℝ))
    have hle : (y / 2 ^ 32 : ℝ) * (1 - 2 / 2 ^ 32) * (1 - 977 / 10 ^ 8) ≤
        exp2Frac (log2Bits 32 y) / 2 ^ 32 := by
      refine le_trans (mul_le_mul_of_nonneg_right ?_ (by norm_num)) hupper
      refine le_trans ?_ (Real.exp_le_exp.2 habove)
      rw [Real.exp_add,hexp]
      exact mul_le_mul_of_nonneg_left (by linarith) (by positivity)
    have hreal : (y : ℝ) * (10 ^ 8 - 978) ≤ exp2Frac (log2Bits 32 y) * 10 ^ 8 := by
      nlinarith
    have hcast : ((10 ^ 8 - 978 : ℕ) : ℝ) = 10 ^ 8 - 978 := by norm_num
    rw [← hcast] at hreal
    exact_mod_cast hreal

def mantissa (m : Nat) : Nat :=
  if 32 ≤ m.log2 then m / 2 ^ (m.log2 - 32) else m * 2 ^ (32 - m.log2)

theorem mantissa_mem (hm : m ≠ 0) : 2 ^ 32 ≤ mantissa m ∧ mantissa m < 2 ^ 33 := by
  have hlow := Nat.log2_self_le hm
  have hhigh : m < 2 ^ (m.log2+1) := Nat.lt_log2_self
  unfold mantissa
  split_ifs with h
  · have hsplit : m.log2 = 32 + (m.log2 - 32) := by omega
    rw [hsplit,pow_add] at hlow
    rw [hsplit,add_right_comm,pow_add,mul_comm] at hhigh
    exact ⟨(Nat.le_div_iff_mul_le (by positivity)).2 hlow,Nat.div_lt_of_lt_mul hhigh⟩
  · have hsplit : 2 ^ 32 = 2 ^ m.log2 * 2 ^ (32 - m.log2) := by
      rw [← pow_add]
      congr 1
      omega
    have hsplit' : 2 ^ 33 = 2 ^ (m.log2+1) * 2 ^ (32 - m.log2) := by
      rw [← pow_add]
      congr 1
      omega
    rw [hsplit,hsplit']
    exact ⟨Nat.mul_le_mul_right _ hlow,Nat.mul_lt_mul_of_pos_right hhigh (by positivity)⟩

theorem log2_lt (hm : m ≠ 0) (h : m < 2 ^ 127) : m.log2 < 127 := (Nat.log2_lt hm).2 h

theorem log2Fixed_eq (hm : m ≠ 0) (h : m < 2 ^ 127) :
    log2Fixed m = ((m.log2 : Int) - 32) * 2 ^ 32 + log2Bits 32 (mantissa m) := by
  have hbits := log2_lt hm h
  have hpattern : toU128 (m : Int) = m := by
    unfold toU128
    omega
  obtain ⟨-,hmantissa⟩ := mantissa_mem hm
  have hindex : bitIndex m = m.log2 := if_neg hm
  unfold log2Fixed
  dsimp only
  rw [hpattern,hindex]
  congr 3
  unfold mantissa at hmantissa ⊢
  by_cases hexp : 32 ≤ m.log2
  · have hshift : ((m.log2 : Int) - 32).toNat % 128 = m.log2 - 32 := by omega
    rw [if_pos (by omega),if_pos hexp,hshift,Nat.shiftRight_eq_div_pow]
  · have hshift : (-((m.log2 : Int) - 32)).toNat = 32 - m.log2 := by omega
    rw [if_neg hexp] at hmantissa
    rw [if_neg (by omega),if_neg hexp,hshift,Nat.shiftLeft_eq]
    exact Nat.mod_eq_of_lt (hmantissa.trans (by decide))

theorem log2Fixed_mono (hm : m ≠ 0) (hle : m ≤ m') (h : m' < 2 ^ 127) :
    log2Fixed m ≤ log2Fixed m' := by
  have hm' : m' ≠ 0 := by omega
  have hbits : m.log2 ≤ m'.log2 := (Nat.le_log2 hm').2 ((Nat.log2_self_le hm).trans hle)
  rw [log2Fixed_eq hm (by omega),log2Fixed_eq hm' h]
  rcases Nat.lt_or_eq_of_le hbits with hlt | heq
  · have hfrac := log2Bits_lt 32 (mantissa m)
    omega
  · have hmantissa : mantissa m ≤ mantissa m' := by
      unfold mantissa
      rw [← heq]
      split_ifs
      · exact Nat.div_le_div_right hle
      · exact Nat.mul_le_mul_right _ hle
    have hfrac := log2Bits_mono 32 hmantissa
    omega

theorem raised_error {s base : Nat} (hlow : base ≤ y) (hhigh : y * (10 ^ 8 - 978) ≤ base * 10 ^ 8)
    (hy : m / 2 ^ s = y) (hbits : 2 ^ 32 * 2 ^ s ≤ m) :
    base * 2 ^ s ≤ m ∧ m ≤ base * 2 ^ s + m / 100000 := by
  have hpos : 0 < 2 ^ s := by positivity
  have hdiv : y * 2 ^ s ≤ m := hy ▸ Nat.div_mul_le_self m (2 ^ s)
  have hlt : m < y * 2 ^ s + 2 ^ s := by
    have hnext := Nat.lt_mul_div_succ m hpos
    rw [hy] at hnext
    linarith
  have hraised := Nat.mul_le_mul_right (2 ^ s) hlow
  have hraised' := Nat.mul_le_mul_right (2 ^ s) hhigh
  rw [mul_right_comm,mul_right_comm base] at hraised'
  omega

theorem lowered_error {half base : Nat} (hhalf : 0 < half) (hlow : base ≤ m * (2 * half))
    (hhigh : m * (2 * half) * (10 ^ 8 - 978) ≤ base * 10 ^ 8) :
    (base + half) / (2 * half) ≤ m ∧ m ≤ (base + half) / (2 * half) + m / 100000 + 1 := by
  constructor
  · refine Nat.le_of_lt_succ (Nat.div_lt_of_lt_mul ?_)
    nlinarith
  · have hnext := Nat.lt_mul_div_succ (base + half) (show 0 < 2 * half by omega)
    generalize (base + half) / (2 * half) = r at *
    have hcancel : half * (2 * m * (10 ^ 8 - 978) + 10 ^ 8) < half * (2 * (r+1) * 10 ^ 8) := by
      nlinarith
    have hless := Nat.lt_of_mul_lt_mul_left hcancel
    omega

/-- The power of the logarithm is the price again, or less by one part in 100000 and one unit. -/
theorem exp2Fixed_log2Fixed (hm : m ≠ 0) (h : m < 2 ^ 127) :
    ∃ r : Nat, exp2Fixed (log2Fixed m) = r ∧ r ≤ m ∧ m ≤ r + m / 100000 + 1 := by
  have hbits := log2_lt hm h
  obtain ⟨hmantissa,hmantissa'⟩ := mantissa_mem hm
  obtain ⟨hlow,hhigh⟩ := exp2Frac_log2Bits hmantissa hmantissa'
  have hfrac := log2Bits_lt 32 (mantissa m)
  have hpart : log2Fixed m / 2 ^ 32 = (m.log2 : Int) - 32 := by
    rw [log2Fixed_eq hm h]
    omega
  have hrest : (log2Fixed m % 2 ^ 32).toNat = log2Bits 32 (mantissa m) := by
    rw [log2Fixed_eq hm h]
    omega
  unfold exp2Fixed
  rw [hpart,hrest]
  generalize exp2Frac (log2Bits 32 (mantissa m)) = base at hlow hhigh
  by_cases hexp : 32 ≤ m.log2
  · have hshift : ((m.log2 : Int) - 32).toNat = m.log2 - 32 := by omega
    rw [mantissa,if_pos hexp] at hlow hhigh
    have hsize : 2 ^ 32 * 2 ^ (m.log2 - 32) ≤ m := by
      rw [← pow_add,Nat.add_sub_cancel' hexp]
      exact Nat.log2_self_le hm
    obtain ⟨hle,herror⟩ := raised_error hlow hhigh rfl hsize
    rw [if_pos (by omega),if_neg (by omega),hshift,Nat.shiftLeft_eq]
    refine ⟨_,wrap_of_isI128 ?_,hle,by omega⟩
    unfold IsI128 i128Min i128Max
    omega
  · have hshift : wrap32 (-((m.log2 : Int) - 32)).toNat = 32 - m.log2 := by
      unfold wrap32
      omega
    rw [mantissa,if_neg hexp] at hlow hhigh hmantissa'
    have hsplit : 2 ^ (32 - m.log2) = 2 * 2 ^ (32 - m.log2 - 1) := by
      rw [← pow_succ']
      congr 1
      omega
    have hhalf : 2 ^ (32 - m.log2 - 1) ≤ 2 ^ 32 := Nat.pow_le_pow_right (by decide) (by omega)
    rw [if_neg (by omega),hshift,if_neg (by omega),if_neg (by omega),Nat.one_shiftLeft,
      Nat.shiftRight_eq_div_pow,satAdd128,min_eq_left (by unfold u128Max; omega),hsplit]
    rw [hsplit] at hlow hhigh
    obtain ⟨hle,herror⟩ := lowered_error (by positivity) hlow hhigh
    refine ⟨_,wrap_of_isI128 ?_,hle,herror⟩
    unfold IsI128 i128Min i128Max
    omega

end Prices

section Averages

variable {p : Int} {s : TwapSums} {startLedger : Nat}

/-- The sums over segments of one price: the weighted logarithm is exact. -/
structure Constant (p : Int) (s : TwapSums) : Prop where
  weight : s.totalWeight + s.nextBoundary ≤ u32Max
  weighted : s.weightedLog2 = log2Fixed p * s.totalWeight

theorem Constant.add (h : Constant p s) (hlog : (log2Fixed p).natAbs < 2 ^ 64) (start : Nat) :
    Constant p (s.add .geometric start p) := by
  unfold TwapSums.add
  split_ifs with hstart
  · have hweight := h.weight
    have hsum : satAdd64 s.totalWeight (s.nextBoundary - start) =
        s.totalWeight + (s.nextBoundary - start) := by
      refine min_eq_left (le_trans ?_ (show u32Max ≤ u64Max by decide))
      omega
    have hproduct (n : Nat) (hn : n ≤ u32Max) : IsI128 (log2Fixed p * n) := by
      have hsize : (log2Fixed p * n).natAbs < 2 ^ 64 * 2 ^ 32 := by
        rw [Int.natAbs_mul,Int.natAbs_natCast]
        exact Nat.mul_lt_mul'' hlog (Nat.lt_of_le_of_lt hn (by decide))
      unfold IsI128 i128Min i128Max
      omega
    refine ⟨?_,?_⟩
    · dsimp only
      omega
    · have htotal : log2Fixed p * s.totalWeight + log2Fixed p * (s.nextBoundary - start : Nat) =
          log2Fixed p * (s.totalWeight + (s.nextBoundary - start) : Nat) := by
        push_cast
        ring
      dsimp only
      rw [hsum,h.weighted,satMul,saturate_of_isI128 (hproduct _ (by omega)),satAdd,htotal,
        saturate_of_isI128 (hproduct _ (by omega))]
  · exact h

theorem Constant.addAll (h : Constant p s) (hlog : (log2Fixed p).natAbs < 2 ^ 64)
    {snapshots : List (Nat × Int)} (hall : ∀ x ∈ snapshots, x.2 = p) :
    Constant p (s.addAll .geometric startLedger snapshots) := by
  induction snapshots generalizing s with
  | nil => exact h
  | cons x snapshots ih =>
    obtain ⟨ledger,price⟩ := x
    rw [List.forall_mem_cons] at hall
    obtain ⟨rfl,hall⟩ := hall
    have hnext := h.add hlog (max ledger startLedger)
    rw [TwapSums.addAll]
    split_ifs
    · exact hnext
    · exact ih hnext hall

theorem snapshotsBelow_price {history : History} {asset : Address}
    (h : ∀ ledger entry, history.readHistoryEntry asset ledger = some entry → entry.price = p)
    (ledger last : Nat) :
    ∀ x ∈ history.snapshotsBelow asset startLedger ledger last, x.2 = p := by
  induction ledger generalizing last with
  | zero => simp [History.snapshotsBelow]
  | succ ledger ih =>
    rw [History.snapshotsBelow]
    cases hread : history.readHistoryEntry asset ledger with
    | none => exact ih last
    | some entry =>
      have hrest : ∀ x ∈ (if entry.ledger ≤ startLedger then [] else
          history.snapshotsBelow asset startLedger ledger entry.ledger), x.2 = p := by
        split_ifs
        · simp
        · exact ih entry.ledger
      dsimp only
      by_cases hlast : entry.ledger = last
      · rw [if_pos hlast]
        exact hrest
      · rw [if_neg hlast]
        exact List.forall_mem_cons.2 ⟨h ledger entry hread,hrest⟩

/-- The price of the asset and of all its history entries. -/
def AlwaysPriced (st : Store) (asset : Address) (p : Int) : Prop :=
  (∀ agg, st.aggregate asset = some agg → agg.price = p) ∧
    ∀ ledger entry, st.history.readHistoryEntry asset ledger = some entry → entry.price = p

theorem geometric_price {env : Env} {st : Store} {asset : Address} {currentLedger : Nat}
    {r : TwapResult} (h : AlwaysPriced st asset p) (hlog : (log2Fixed p).natAbs < 2 ^ 64)
    (hr : st.computeTwapStats env asset startLedger currentLedger .geometric = some r) :
    r.price = exp2Fixed (log2Fixed p) := by
  obtain ⟨agg,hagg,hresult⟩ := Option.bind_eq_some_iff.1 hr
  have hstart : Constant p { nextBoundary := satAdd32 currentLedger 1 } := by
    refine ⟨?_,(mul_zero _).symm⟩
    change 0 + min (currentLedger+1) u32Max ≤ u32Max
    omega
  have hsnapshots : ∀ x ∈ (currentLedger,agg.price) ::
      st.history.snapshotsBelow asset startLedger currentLedger currentLedger, x.2 = p :=
    List.forall_mem_cons.2 ⟨h.1 agg hagg,snapshotsBelow_price h.2 currentLedger currentLedger⟩
  have hsums : Constant p (TwapSums.addAll .geometric startLedger _ _) :=
    hstart.addAll hlog hsnapshots
  dsimp only at hresult
  split_ifs at hresult with hweight
  cases hresult
  rw [TwapSums.price,hsums.weighted,Int.mul_tdiv_cancel _ (by exact_mod_cast hweight)]

/-- A positive price comes back from its logarithm to within one part in 100000 and one unit, the
logarithm is monotone, and the geometric average of one price is as close to it. -/
theorem geometric_mean_close :
    (∀ p : Int, 0 < p → IsI128 p → |exp2Fixed (log2Fixed p) - p| ≤ p / 100000 + 1) ∧
    (∀ p q : Int, 0 < p → p ≤ q → IsI128 q → log2Fixed p ≤ log2Fixed q) ∧
    ∀ (env : Env) (st : Store) (asset : Address) (startLedger currentLedger : Nat) (p : Int)
      (r : TwapResult), 0 < p → IsI128 p → AlwaysPriced st asset p →
      st.computeTwapStats env asset startLedger currentLedger .geometric = some r →
      |r.price - p| ≤ p / 100000 + 1 := by
  have hclose (p : Int) (hpos : 0 < p) (hp : IsI128 p) :
      |exp2Fixed (log2Fixed p) - p| ≤ p / 100000 + 1 := by
    lift p to Nat using hpos.le with m
    have hsize := hp.2
    unfold i128Max at hsize
    obtain ⟨r,hr,hle,herror⟩ := exp2Fixed_log2Fixed (m := m) (by omega) (by omega)
    rw [hr,abs_le]
    omega
  refine ⟨hclose,fun p q hpos hle hq => ?_,fun env st asset start current p r hpos hp h hr => ?_⟩
  · lift p to Nat using hpos.le with m
    lift q to Nat using (hpos.trans_le hle).le with m'
    have hsize := hq.2
    unfold i128Max at hsize
    exact log2Fixed_mono (by omega) (by omega) (by omega)
  · have hlog : (log2Fixed p).natAbs < 2 ^ 64 := by
      lift p to Nat using hpos.le with m
      have hsize := hp.2
      unfold i128Max at hsize
      have hbits := log2_lt (m := m) (by omega) (by omega)
      have hfrac := log2Bits_lt 32 (mantissa m)
      rw [log2Fixed_eq (by omega) (by omega)]
      omega
    rw [geometric_price h hlog hr]
    exact hclose p hpos hp

/-- An asset that has had one price since ledger 3, with an entry at ledger 4 as well. -/
def steadyStore : Store where
  aggregate := fun a => if a = 10 then some ⟨1234567, 0, 3, 18, false, 0⟩ else none
  history := (({} : History).setTemporary 10 ⟨1234567, 0, 3, 1, false⟩).setTemporary 10
    ⟨1234567, 0, 4, 1, false⟩

theorem steadyStore_priced : AlwaysPriced steadyStore 10 1234567 := by
  refine ⟨fun agg hagg => ?_,fun ledger entry hentry => ?_⟩
  · cases hagg
    rfl
  · simp only [steadyStore,History.readHistoryEntry,History.setTemporary,History.shardEntry,
      History.bucketOf,Function.update_apply,Prod.mk.injEq,true_and] at hentry
    split_ifs at hentry
    · cases hentry
      rfl
    · cases hentry
      rfl
    · simp at hentry

/-- Three observations of the price are averaged. -/
theorem steady_average :
    ∃ r, steadyStore.computeTwapStats (.concrete 5 1000 []) 10 2 5 .geometric = some r ∧
      r.cardinality = 3 ∧ |r.price - 1234567| ≤ 1234567 / 100000 + 1 := by
  have hstats : (steadyStore.computeTwapStats (.concrete 5 1000 []) 10 2 5 .geometric).map
      TwapResult.cardinality = some 3 := by
    decide +kernel
  obtain ⟨r,hr,hcardinality⟩ := Option.map_eq_some_iff.1 hstats
  exact ⟨r,hr,hcardinality,geometric_mean_close.2.2 _ _ 10 2 5 1234567 r (by decide)
    ⟨by decide,by decide⟩ steadyStore_priced hr⟩

end Averages

end PriceOracle.Pricing.GeometricMean
