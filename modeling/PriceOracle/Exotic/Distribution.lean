import Mathlib.Analysis.Complex.ExponentialBounds
import Mathlib.Tactic.IntervalCases
import PriceOracle.Lib.TruncatedExponential
import PriceOracle.Exotic.Options

/-! # The normal distribution function

Its values are probabilities and they are symmetric. They rise with the score up to the point where
sixteen terms of the exponential are too few, except for the rounding of a polynomial whose
coefficients have nine digits, and they are in order again from where the tail is cut off. -/

namespace PriceOracle.Exotic

open Lib.MachineInt Lib.TruncatedExponential Model Model.Exotic

/-- The series of the density is close to the exponential up to this score. -/
def accurate : Int := 3150000000000000000

def cutOff : Int := 6324555320336758665

section Series

/-- Half of the square of the largest accurate score. -/
def seriesLimit : Int := 4961250000000000000

variable {x y : Int}

theorem ratio_mem (hx : 0 ≤ x) (hlimit : x ≤ seriesLimit) :
    0 ≤ (x : ℝ) / scale ∧ (x : ℝ) / scale ≤ 496125 / 100000 := by
  have hscale : (scale : ℝ) = 10 ^ 18 := by norm_num [scale]
  have hcast : (x : ℝ) ≤ seriesLimit := Int.cast_le.2 hlimit
  have hlimitCast : (seriesLimit : ℝ) = 496125 / 100000 * 10 ^ 18 := by norm_num [seriesLimit]
  rw [hscale]
  refine ⟨div_nonneg (Int.cast_nonneg hx) (by positivity),?_⟩
  linarith

theorem exp_five_lt : Real.exp 5 < 14842 / 100 := by
  have hone : Real.exp 1 ^ 5 < 2.7182818286 ^ 5 :=
    pow_lt_pow_left₀ Real.exp_one_lt_d9 (Real.exp_nonneg 1) (by decide)
  rw [← Real.exp_nat_mul] at hone
  linarith

theorem exp_ratio_le (hx : 0 ≤ x) (hlimit : x ≤ seriesLimit) :
    Real.exp ((x : ℝ) / scale) ≤ 150 := by
  have hle : (x : ℝ) / scale ≤ 5 := (ratio_mem hx hlimit).2.trans (by norm_num)
  have hexp := Real.exp_le_exp.2 hle
  linarith [exp_five_lt]

theorem power_le {z : ℝ} (hz : 0 ≤ z) (hlimit : z ≤ 496125 / 100000) {n : Nat} (hn : n < 16) :
    z ^ (n+1) / n.factorial ≤ 126 := by
  have hpow : z ^ (n+1) ≤ (496125 / 100000) ^ (n+1) := pow_le_pow_left₀ hz hlimit _
  refine (div_le_div_of_nonneg_right hpow (Nat.cast_nonneg _)).trans ?_
  interval_cases n <;> norm_num [Nat.factorial]

theorem product_le (hx : 0 ≤ x) (hlimit : x ≤ seriesLimit) {n : Nat} (hn : n < 16) :
    roundedTerm scale x n * x ≤ i128Max := by
  obtain ⟨hz,hzLimit⟩ := ratio_mem hx hlimit
  have hterm := (roundedTerm_mem (by decide : 0 < scale) hx n).1
  have hpower := power_le hz hzLimit hn
  have hproduct : ((roundedTerm scale x n * x : Int) : ℝ) ≤ 126 * scale ^ 2 := by
    push_cast
    calc (roundedTerm scale x n : ℝ) * x
        ≤ scale * ((x / scale : ℝ) ^ n / n.factorial) * x :=
          mul_le_mul_of_nonneg_right hterm (Int.cast_nonneg hx)
      _ = (x / scale : ℝ) ^ (n+1) / n.factorial * scale ^ 2 := by
          rw [pow_succ]
          field_simp
      _ ≤ 126 * scale ^ 2 := mul_le_mul_of_nonneg_right hpower (by positivity)
  have hmax : (126 * scale ^ 2 : ℝ) ≤ (i128Max : Int) := by norm_num [scale,i128Max]
  exact Int.cast_le.1 (hproduct.trans hmax)

theorem term_le (hx : 0 ≤ x) (hlimit : x ≤ seriesLimit) (n : Nat) :
    roundedTerm scale x n ≤ 150 * 10 ^ 18 := by
  have hscale : (scale : ℝ) = 10 ^ 18 := by norm_num [scale]
  have hterm := roundedTerm_le (by decide : 0 < scale) hx n
  have hexp := mul_le_mul_of_nonneg_left (exp_ratio_le hx hlimit)
    (by positivity : (0 : ℝ) ≤ 10 ^ 18)
  have hcast : (roundedTerm scale x n : ℝ) ≤ (150 * 10 ^ 18 : Int) := by
    rw [hscale] at hterm
    rw [hscale] at hexp
    push_cast
    linarith
  exact Int.cast_le.1 hcast

/-- The loop computes the rounded series, without saturation. -/
theorem series_eq (hx : 0 ≤ x) (hlimit : x ≤ seriesLimit) {n : Nat} (hn : n ≤ 16) :
    (List.range' 1 n).foldl (expTerm x) (scale,scale) =
      (roundedSum scale x (n+1),roundedTerm scale x n) := by
  induction n with
  | zero => rfl
  | succ n ih =>
    have hterm := roundedTerm_nonneg (k := n) (by decide : 0 < scale) hx
    have hproduct := product_le hx hlimit (Nat.lt_of_succ_le hn)
    have hproductNonneg := Int.mul_nonneg hterm hx
    have hnext : ((satMul (roundedTerm scale x n) x).tdiv scale).tdiv (1 + n : Nat) =
        roundedTerm scale x (n+1) := by
      rw [satMul_of_nonneg hterm hx,min_eq_right hproduct,
        Int.tdiv_eq_ediv_of_nonneg hproductNonneg,
        Int.tdiv_eq_ediv_of_nonneg (Int.ediv_nonneg hproductNonneg (by decide)),roundedTerm]
      congr 1
      omega
    have hnextLe := term_le hx hlimit (n+1)
    have hnextNonneg := roundedTerm_nonneg (k := n+1) (by decide : 0 < scale) hx
    have hsum := abs_le.1 (abs_roundedSum_le (by decide : 0 < scale) hx (term_le hx hlimit) (n+1))
    have hsumSucc : roundedSum scale x (n+1 + 1) =
        roundedSum scale x (n+1) + (-1) ^ (n+1) * roundedTerm scale x (n+1) :=
      Finset.sum_range_succ _ (n+1)
    rw [List.range'_1_concat,List.foldl_append,ih (Nat.le_of_succ_le hn),List.foldl_cons,
      List.foldl_nil,expTerm,hnext,Prod.mk.injEq,and_iff_left rfl,hsumSucc]
    rcases Nat.even_or_odd (n+1) with heven | hodd
    · rw [if_pos (by rw [Nat.add_comm 1 n]; exact Nat.even_iff.1 heven),heven.neg_one_pow,one_mul]
      refine saturate_of_isI128 ?_
      unfold IsI128 i128Min i128Max
      omega
    · rw [if_neg (by rw [Nat.add_comm 1 n,Nat.odd_iff.1 hodd]; decide),hodd.neg_one_pow,
        neg_one_mul,← sub_eq_add_neg]
      refine saturate_of_isI128 ?_
      unfold IsI128 i128Min i128Max
      omega

/-- The computed exponential is the truncated series up to the rounding of its terms. -/
theorem fixedExpNeg_error (hx : 0 ≤ x) (hlimit : x ≤ seriesLimit) :
    |scale * expNegSum 17 ((x : ℝ) / scale) - fixedExpNeg x| ≤ 2550 := by
  rcases hx.eq_or_lt with rfl | hpos
  · rw [Int.cast_zero,zero_div,expNegSum_at_zero,mul_one,fixedExpNeg,if_pos le_rfl,sub_self,
      abs_zero]
    norm_num
  · have herror := roundedSum_error (by decide : 0 < scale) hx 17
    have hexp := exp_ratio_le hx hlimit
    have hseries := exp_le_expNegSum (by decide : Odd 17) (ratio_mem hx hlimit).1
    have hnonneg : (0 : ℝ) ≤ scale * expNegSum 17 ((x : ℝ) / scale) :=
      mul_nonneg (by norm_num [scale]) ((Real.exp_nonneg _).trans hseries)
    have hvalue : fixedExpNeg x = max (roundedSum scale x 17) 0 := by
      unfold fixedExpNeg
      rw [if_neg (not_le.2 hpos),if_neg (by unfold scale seriesLimit at *; omega),
        series_eq hx hlimit le_rfl]
    rw [hvalue]
    push_cast at herror ⊢
    rcases le_total 0 (roundedSum scale x 17) with hsum | hsum
    · rw [max_eq_left (Int.cast_nonneg hsum)]
      linarith
    · have hsumCast : (roundedSum scale x 17 : ℝ) ≤ 0 := Int.cast_nonpos.2 hsum
      rw [max_eq_right hsumCast,sub_zero,abs_of_nonneg hnonneg]
      have habs := (abs_le.1 herror).2
      linarith

theorem seriesAntitone : AntitoneOn (expNegSum 17) (Set.Icc 0 (496125 / 100000)) := by
  refine antitoneOn_expNegSum (by decide : Even 16) (by norm_num) ?_
  have hexp : Real.exp (496125 / 100000) ≤ Real.exp 5 := Real.exp_le_exp.2 (by norm_num)
  calc (496125 / 100000 : ℝ) ^ 16 * Real.exp (496125 / 100000)
      ≤ (496125 / 100000) ^ 16 * (14842 / 100) :=
        mul_le_mul_of_nonneg_left (hexp.trans exp_five_lt.le) (by positivity)
    _ ≤ (Nat.factorial 16 : ℝ) := by norm_num [Nat.factorial]

theorem fixedExpNeg_mem (hx : 0 ≤ x) (hlimit : x ≤ seriesLimit) :
    6 * 10 ^ 15 ≤ fixedExpNeg x ∧ fixedExpNeg x ≤ 10 ^ 18 + 2550 := by
  have hscale : (scale : ℝ) = 10 ^ 18 := by norm_num [scale]
  obtain ⟨hz,hzLimit⟩ := ratio_mem hx hlimit
  have hexp := exp_ratio_le hx hlimit
  have herror := abs_le.1 (fixedExpNeg_error hx hlimit)
  have hbelow := exp_le_expNegSum (by decide : Odd 17) hz
  have habove := seriesAntitone ⟨le_rfl,by norm_num⟩ ⟨hz,hzLimit⟩ hz
  have hinverse : 1 / 150 ≤ Real.exp (-((x : ℝ) / scale)) := by
    rw [Real.exp_neg,← one_div]
    exact one_div_le_one_div_of_le (Real.exp_pos _) hexp
  rw [expNegSum_at_zero] at habove
  obtain ⟨a,ha⟩ : ∃ a, a = expNegSum 17 ((x : ℝ) / scale) := ⟨_,rfl⟩
  rw [← ha,hscale] at herror
  have hlower : ((6 * 10 ^ 15 : Int) : ℝ) ≤ fixedExpNeg x := by
    push_cast
    linarith
  have hupper : (fixedExpNeg x : ℝ) ≤ (10 ^ 18 + 2550 : Int) := by
    push_cast
    linarith
  exact ⟨Int.cast_le.1 hlower,Int.cast_le.1 hupper⟩

theorem fixedExpNeg_le (hx : 0 ≤ x) (hxy : x ≤ y) (hlimit : y ≤ seriesLimit) :
    fixedExpNeg y ≤ fixedExpNeg x + 5100 := by
  have hpos : (0 : ℝ) < scale := by norm_num [scale]
  have hfirst := abs_le.1 (fixedExpNeg_error hx (hxy.trans hlimit))
  have hsecond := abs_le.1 (fixedExpNeg_error (hx.trans hxy) hlimit)
  have hratio : (x : ℝ) / scale ≤ y / scale :=
    div_le_div_of_nonneg_right (Int.cast_le.2 hxy) hpos.le
  have hfalls := mul_le_mul_of_nonneg_left
    (seriesAntitone (ratio_mem hx (hxy.trans hlimit)) (ratio_mem (hx.trans hxy) hlimit) hratio)
    hpos.le
  have hcast : (fixedExpNeg y : ℝ) ≤ (fixedExpNeg x + 5100 : Int) := by
    push_cast
    linarith
  exact Int.cast_le.1 hcast

end Series

section Density

variable {d e : Int}

/-- The density at an accurate score comes from the series at half of its square. -/
theorem standardNormalPdf_eq (hd : 0 ≤ d) (hlimit : d ≤ accurate) :
    standardNormalPdf d =
      398942280401432678 * fixedExpNeg (d * d / scale / 2) / scale ∧
      0 ≤ d * d / scale / 2 ∧ d * d / scale / 2 ≤ seriesLimit := by
  have hsquare : 0 ≤ d * d := Int.mul_nonneg hd hd
  have hsquareLe : d * d ≤ accurate * accurate := Int.mul_le_mul hlimit hlimit hd (by decide)
  have hhalf : 0 ≤ d * d / scale / 2 ∧ d * d / scale / 2 ≤ seriesLimit := by
    unfold accurate at hsquareLe
    unfold scale seriesLimit
    omega
  have hexp := fixedExpNeg_mem hhalf.1 hhalf.2
  have hfits : d * d ≤ i128Max := hsquareLe.trans (by decide)
  have hproduct : 398942280401432678 * fixedExpNeg (d * d / scale / 2) ≤ i128Max := by
    unfold i128Max
    omega
  refine ⟨?_,hhalf⟩
  unfold standardNormalPdf
  rw [satMul_of_nonneg hd hd,min_eq_right hfits,Int.tdiv_eq_ediv_of_nonneg hsquare]
  dsimp only
  rw [Int.tdiv_eq_ediv_of_nonneg (Int.ediv_nonneg hsquare (by decide)),
    satMul_of_nonneg (by decide) (by omega),min_eq_right hproduct,
    Int.tdiv_eq_ediv_of_nonneg (by omega)]

theorem standardNormalPdf_mem (hd : 0 ≤ d) (hlimit : d ≤ accurate) :
    2 * 10 ^ 15 ≤ standardNormalPdf d ∧ standardNormalPdf d ≤ 398942280401432678 + 1100 := by
  obtain ⟨hvalue,hhalf,hhalfLimit⟩ := standardNormalPdf_eq hd hlimit
  have hexp := fixedExpNeg_mem hhalf hhalfLimit
  unfold scale at *
  omega

theorem standardNormalPdf_le (hd : 0 ≤ d) (hde : d ≤ e) (hlimit : e ≤ accurate) :
    standardNormalPdf e ≤ standardNormalPdf d + 2100 := by
  obtain ⟨hvalue,hhalf,-⟩ := standardNormalPdf_eq hd (hde.trans hlimit)
  obtain ⟨hvalue',-,hhalfLimit'⟩ := standardNormalPdf_eq (hd.trans hde) hlimit
  have hsquares : d * d ≤ e * e := Int.mul_le_mul hde hde hd (hd.trans hde)
  have hhalves : d * d / scale / 2 ≤ e * e / scale / 2 :=
    Int.ediv_le_ediv (by decide) (Int.ediv_le_ediv (by decide) hsquares)
  have hfalls := fixedExpNeg_le hhalf hhalves hhalfLimit'
  unfold scale at *
  omega

theorem standardNormalPdf_of_cutOff (hd : cutOff ≤ d) : standardNormalPdf d = 0 := by
  have hnonneg : 0 ≤ d := le_trans (by decide) hd
  have hsquare : cutOff * cutOff ≤ d * d := Int.mul_le_mul hd hd (by decide) hnonneg
  have hexp : fixedExpNeg (((satMul d d).tdiv scale).tdiv 2) = 0 := by
    rw [satMul_of_nonneg hnonneg hnonneg]
    obtain ⟨square,hsquareDef⟩ : ∃ q, q = d * d := ⟨_,rfl⟩
    rw [← hsquareDef] at hsquare ⊢
    have hmin : cutOff * cutOff ≤ min i128Max square := le_min (by decide) hsquare
    have hquotient : 0 ≤ min i128Max square / scale :=
      Int.ediv_nonneg (le_trans (by decide) hmin) (by decide)
    rw [Int.tdiv_eq_ediv_of_nonneg (le_trans (by decide) hmin),
      Int.tdiv_eq_ediv_of_nonneg hquotient]
    unfold fixedExpNeg
    unfold cutOff at hmin
    unfold scale at *
    rw [if_neg (by omega),if_pos (by omega)]
  unfold standardNormalPdf
  dsimp only
  rw [hexp]
  rfl

end Density

/-- The polynomial of the tail with its coefficients in units of the ninth digit. -/
noncomputable def tailSeries (t : ℝ) : ℝ :=
  319381530 * t - 356563782 * t ^ 2 + 1781477937 * t ^ 3 - 1821255978 * t ^ 4 + 1330274429 * t ^ 5

section Polynomial

/-- From one half on the polynomial rises by four fifths of a unit at least. -/
theorem tailSeries_sub {a b : ℝ} (hb : 1 / 2 ≤ b) (hab : b ≤ a) :
    800000000 * (a - b) ≤ tailSeries a - tailSeries b := by
  obtain ⟨u,rfl⟩ : ∃ u, a = 1 / 2 + u := ⟨a - 1 / 2,by ring⟩
  obtain ⟨v,rfl⟩ : ∃ v, b = 1 / 2 + v := ⟨b - 1 / 2,by ring⟩
  have hv : 0 ≤ v := by linarith
  have hvu : v ≤ u := by linarith
  have hexpand (w : ℝ) : tailSeries (1 / 2 + w) = 7071268445 / 32 + 12864143533 / 16 * w +
      4986448771 / 4 * w ^ 2 + 2929304107 / 2 * w ^ 3 + 3008860189 / 2 * w ^ 4 +
        1330274429 * w ^ 5 := by
    unfold tailSeries
    ring
  rw [hexpand,hexpand]
  linarith [pow_le_pow_left₀ hv hvu 2,pow_le_pow_left₀ hv hvu 3,pow_le_pow_left₀ hv hvu 4,
    pow_le_pow_left₀ hv hvu 5]

variable {a t : Int}

/-- One step of the evaluation with a coefficient that is not negative is rounded down. -/
theorem hornerStep_of_nonneg (ha : 0 ≤ a) (haMax : a ≤ 2 * 10 ^ 9) (ht : 0 ≤ t)
    (htMax : t ≤ scale) :
    ((a : ℝ) * (t / scale) - 1 ≤ ((satMul a t).tdiv scale : Int) ∧
      (((satMul a t).tdiv scale : Int) : ℝ) ≤ a * (t / scale)) ∧
        0 ≤ (satMul a t).tdiv scale ∧ (satMul a t).tdiv scale ≤ a := by
  have hproduct : 0 ≤ a * t := Int.mul_nonneg ha ht
  have hle : a * t ≤ a * scale := Int.mul_le_mul_of_nonneg_left htMax ha
  have hfits : a * t ≤ i128Max := hle.trans (by unfold scale i128Max; omega)
  have hvalue : (satMul a t).tdiv scale = a * t / scale := by
    rw [satMul_of_nonneg ha ht,min_eq_right hfits,Int.tdiv_eq_ediv_of_nonneg hproduct]
  have hquotient := cast_ediv_mem (a := a * t) (by decide : 0 < scale)
  rw [hvalue]
  push_cast at hquotient
  rw [mul_div_assoc] at hquotient
  exact ⟨hquotient,Int.ediv_nonneg hproduct (by decide),Int.ediv_le_of_le_mul (by decide) hle⟩

theorem hornerStep_of_nonpos (ha : a ≤ 0) (haMin : -(2 * 10 ^ 9) ≤ a) (ht : 0 ≤ t)
    (htMax : t ≤ scale) :
    ((a : ℝ) * (t / scale) ≤ ((satMul a t).tdiv scale : Int) ∧
      (((satMul a t).tdiv scale : Int) : ℝ) ≤ a * (t / scale) + 1) ∧
        a ≤ (satMul a t).tdiv scale ∧ (satMul a t).tdiv scale ≤ 0 := by
  obtain ⟨b,rfl⟩ : ∃ b, a = -b := ⟨-a,(neg_neg a).symm⟩
  have hnonneg : 0 ≤ b := by omega
  have hstep := hornerStep_of_nonneg hnonneg (by omega) ht htMax
  have hproduct : 0 ≤ b * t := Int.mul_nonneg hnonneg ht
  have hle : b * t ≤ b * scale := Int.mul_le_mul_of_nonneg_left htMax hnonneg
  have hneg : (satMul (-b) t).tdiv scale = -(satMul b t).tdiv scale := by
    have hfits : b * t ≤ i128Max := hle.trans (by unfold scale i128Max; omega)
    have hrange : IsI128 (-b * t) := by
      unfold i128Max at hfits
      unfold IsI128 i128Min i128Max
      rw [Int.neg_mul]
      omega
    rw [satMul,saturate_of_isI128 hrange,satMul_of_nonneg hnonneg ht,min_eq_right hfits,
      Int.neg_mul,Int.neg_tdiv]
  rw [hneg]
  push_cast
  refine ⟨⟨?_,?_⟩,by omega,by omega⟩
  · linarith [hstep.1.2]
  · linarith [hstep.1.1]

theorem wrapAdd_eq {b : Int} (h : -(10 ^ 10) ≤ a + b) (h' : a + b ≤ 10 ^ 10) :
    wrapAdd a b = a + b := by
  unfold wrapAdd wrap
  omega

variable {c s : Int}

theorem coefficientStep_of_nonneg (hs : s = wrapAdd c ((satMul a t).tdiv scale))
    (hc : -(2 * 10 ^ 9) ≤ c ∧ c ≤ 2 * 10 ^ 9) (ha : 0 ≤ a ∧ a ≤ 2 * 10 ^ 9) (ht : 0 ≤ t)
    (htMax : t ≤ scale) :
    ((a : ℝ) * (t / scale) - 1 ≤ s - c ∧ (s : ℝ) - c ≤ a * (t / scale)) ∧ c ≤ s ∧ s ≤ c + a := by
  obtain ⟨hstep,hbounds⟩ := hornerStep_of_nonneg ha.1 ha.2 ht htMax
  rw [wrapAdd_eq (by omega) (by omega)] at hs
  have hcast : (s : ℝ) - c = ((satMul a t).tdiv scale : Int) := by
    rw [hs]
    push_cast
    ring
  rw [hcast]
  exact ⟨hstep,by omega,by omega⟩

theorem coefficientStep_of_nonpos (hs : s = wrapAdd c ((satMul a t).tdiv scale))
    (hc : -(2 * 10 ^ 9) ≤ c ∧ c ≤ 2 * 10 ^ 9) (ha : -(2 * 10 ^ 9) ≤ a ∧ a ≤ 0) (ht : 0 ≤ t)
    (htMax : t ≤ scale) :
    ((a : ℝ) * (t / scale) ≤ s - c ∧ (s : ℝ) - c ≤ a * (t / scale) + 1) ∧
      c + a ≤ s ∧ s ≤ c := by
  obtain ⟨hstep,hbounds⟩ := hornerStep_of_nonpos ha.2 ha.1 ht htMax
  rw [wrapAdd_eq (by omega) (by omega)] at hs
  have hcast : (s : ℝ) - c = ((satMul a t).tdiv scale : Int) := by
    rw [hs]
    push_cast
    ring
  rw [hcast]
  exact ⟨hstep,by omega,by omega⟩

theorem horner_error {r s4 s3 s2 s1 acc : ℝ} (hr : 0 ≤ r) (hone : r ≤ 1)
    (h4 : 1330274429 * r - 1 ≤ s4+1821255978 ∧ s4+1821255978 ≤ 1330274429 * r)
    (h3 : s4 * r ≤ s3 - 1781477937 ∧ s3 - 1781477937 ≤ s4 * r + 1)
    (h2 : s3 * r - 1 ≤ s2+356563782 ∧ s2+356563782 ≤ s3 * r)
    (h1 : s2 * r - 1 ≤ s1 - 319381530 ∧ s1 - 319381530 ≤ s2 * r)
    (h0 : s1 * r - 1 ≤ acc ∧ acc ≤ s1 * r) :
    tailSeries r - 4 ≤ acc ∧ acc ≤ tailSeries r + 1 := by
  have hpow (n : Nat) : 0 ≤ r ^ n := pow_nonneg hr n
  have hpowOne (n : Nat) : r ^ n ≤ 1 := pow_le_one₀ hr hone
  unfold tailSeries
  constructor
  · have e1 := mul_le_mul_of_nonneg_right h1.1 (hpow 1)
    have e2 := mul_le_mul_of_nonneg_right h2.1 (hpow 2)
    have e3 := mul_le_mul_of_nonneg_right h3.1 (hpow 3)
    have e4 := mul_le_mul_of_nonneg_right h4.1 (hpow 4)
    linarith [h0.1,hpowOne 1,hpowOne 2,hpowOne 4]
  · have e1 := mul_le_mul_of_nonneg_right h1.2 (hpow 1)
    have e2 := mul_le_mul_of_nonneg_right h2.2 (hpow 2)
    have e3 := mul_le_mul_of_nonneg_right h3.2 (hpow 3)
    have e4 := mul_le_mul_of_nonneg_right h4.2 (hpow 4)
    linarith [h0.2,hpowOne 3]

/-- The share of the unit that a value from one half of it on is. -/
theorem share_mem (ht : 5 * 10 ^ 17 ≤ t) (htMax : t ≤ scale) :
    1 / 2 ≤ (t : ℝ) / scale ∧ (t : ℝ) / scale ≤ 1 := by
  have hscale : (scale : ℝ) = 10 ^ 18 := by norm_num [scale]
  have hcast : ((5 * 10 ^ 17 : Int) : ℝ) ≤ t := Int.cast_le.2 ht
  have hcastMax : (t : ℝ) ≤ scale := Int.cast_le.2 htMax
  rw [hscale] at hcastMax ⊢
  push_cast at hcast
  constructor
  · linarith
  · rwa [div_le_one (by positivity)]

/-- The polynomial is evaluated in the ninth digit, with an error of four digits below and of one
above. -/
theorem tailPoly_mem (ht : 5 * 10 ^ 17 ≤ t) (htMax : t ≤ scale) :
    ∃ acc : Int, tailPoly t = acc * 10 ^ 9 ∧ 0 ≤ acc ∧
      tailSeries (t / scale) - 4 ≤ acc ∧ (acc : ℝ) ≤ tailSeries (t / scale) + 1 := by
  have hnonneg : 0 ≤ t := by omega
  obtain ⟨hhalf,hone⟩ := share_mem ht htMax
  -- every step keeps its sign, so the direction of every rounding is known
  obtain ⟨s4,hs4⟩ : ∃ s, s = wrapAdd (-1821255978) ((satMul 1330274429 t).tdiv scale) := ⟨_,rfl⟩
  obtain ⟨h4,hi4⟩ := coefficientStep_of_nonneg hs4 (by decide) (by decide) hnonneg htMax
  obtain ⟨s3,hs3⟩ : ∃ s, s = wrapAdd 1781477937 ((satMul s4 t).tdiv scale) := ⟨_,rfl⟩
  obtain ⟨h3,hi3⟩ := coefficientStep_of_nonpos hs3 (by decide) (by omega) hnonneg htMax
  have hs3Lower : 10 ^ 9 ≤ s3 := by
    have hcast : ((10 ^ 9 : Int) : ℝ) ≤ s3 := by
      push_cast
      nlinarith [h3.1,h4.1,sq_nonneg ((t : ℝ) / scale - 6845 / 10000)]
    exact Int.cast_le.1 hcast
  obtain ⟨s2,hs2⟩ : ∃ s, s = wrapAdd (-356563782) ((satMul s3 t).tdiv scale) := ⟨_,rfl⟩
  obtain ⟨h2,hi2⟩ := coefficientStep_of_nonneg hs2 (by decide) (by omega) hnonneg htMax
  have hs2Lower : 0 ≤ s2 := by
    have hcast : ((10 ^ 9 : Int) : ℝ) ≤ s3 := Int.cast_le.2 hs3Lower
    have hs2Cast : ((0 : Int) : ℝ) ≤ s2 := by
      push_cast at hcast ⊢
      nlinarith [h2.1]
    exact Int.cast_le.1 hs2Cast
  obtain ⟨s1,hs1⟩ : ∃ s, s = wrapAdd 319381530 ((satMul s2 t).tdiv scale) := ⟨_,rfl⟩
  obtain ⟨h1,hi1⟩ := coefficientStep_of_nonneg hs1 (by decide) (by omega) hnonneg htMax
  obtain ⟨acc,hacc⟩ : ∃ q, q = (satMul s1 t).tdiv scale := ⟨_,rfl⟩
  obtain ⟨h0,hi0⟩ := hornerStep_of_nonneg (by omega : 0 ≤ s1) (by omega) hnonneg htMax
  rw [← hacc] at h0 hi0
  have hvalue : tailPoly t = (satMul acc scale).tdiv 1000000000 := by
    unfold tailPoly
    dsimp only
    rw [← hs4,← hs3,← hs2,← hs1,← hacc]
  have hfits : acc * scale ≤ i128Max := by
    unfold scale i128Max
    omega
  refine ⟨acc,?_,hi0.1,?_⟩
  · rw [hvalue,satMul_of_nonneg hi0.1 (by decide),min_eq_right hfits,
      Int.tdiv_eq_ediv_of_nonneg (Int.mul_nonneg hi0.1 (by decide))]
    unfold scale
    omega
  · have h4' : 1330274429 * ((t : ℝ) / scale) - 1 ≤ s4+1821255978 ∧
        (s4 : ℝ) + 1821255978 ≤ 1330274429 * (t / scale) := by constructor <;> linarith
    have h2' : (s3 : ℝ) * (t / scale) - 1 ≤ s2+356563782 ∧
        (s2 : ℝ) + 356563782 ≤ s3 * (t / scale) := by constructor <;> linarith
    exact horner_error (by linarith) hone h4' h3 h2' h1 h0

end Polynomial

/-- Two scores that are further apart than this have different polynomials. -/
def separation : Int := 100000000000

/-- The argument of the polynomial for the score `d`. -/
def argument (d : Int) : Int :=
  (satMul scale scale).tdiv (wrapAdd scale ((satMul 2316419 d).tdiv 10000000))

def tail (d : Int) : Int :=
  clampScale ((satMul (standardNormalPdf d) (tailPoly (argument d))).tdiv scale)

section Tails

variable {d e : Int}

theorem denominator_pos (hd : 0 ≤ d) :
    0 < wrapAdd scale ((satMul 2316419 d).tdiv 10000000) := by
  have hproduct : 0 ≤ min i128Max (2316419 * d) := le_min (by decide) (by omega)
  have hproductMax : min i128Max (2316419 * d) ≤ i128Max := min_le_left _ _
  rw [satMul_of_nonneg (by decide) hd,Int.tdiv_eq_ediv_of_nonneg hproduct]
  unfold i128Max at *
  unfold wrapAdd wrap scale
  omega

theorem normalCdf_of_nonneg (hd : 0 ≤ d) : normalCdf d = scale - tail d := by
  have hdenominator := denominator_pos hd
  have htail := clampScale_mem ((satMul (standardNormalPdf d) (tailPoly (argument d))).tdiv scale)
  unfold normalCdf
  simp only [if_neg (not_lt.2 hd)]
  rw [if_neg hdenominator.ne']
  change clampScale (scale - tail d) = scale - tail d
  unfold tail
  unfold clampScale
  omega

theorem normalCdf_of_neg (hd : d < 0) (hdMin : i128Min < d) : normalCdf d = tail (-d) := by
  have hwrap : wrap (-d) = -d := by
    apply wrap_of_isI128
    unfold i128Min at hdMin
    unfold IsI128 i128Min i128Max
    omega
  have hpositive := normalCdf_of_nonneg (by omega : 0 ≤ -d)
  have hdenominator := denominator_pos (by omega : 0 ≤ -d)
  unfold normalCdf at hpositive ⊢
  simp only [if_neg (not_lt.2 (by omega : 0 ≤ -d)),if_neg hdenominator.ne'] at hpositive
  simp only [if_pos hd,hwrap]
  omega

/-- The argument of an accurate score, in exact arithmetic. -/
theorem argument_eq (hd : 0 ≤ d) (hlimit : d ≤ accurate) :
    argument d = 10 ^ 36 / (10 ^ 18 + 2316419 * d / 10000000) := by
  unfold accurate at hlimit
  have hfits : 2316419 * d ≤ i128Max := by
    unfold i128Max
    omega
  have hsquare : satMul scale scale = 10 ^ 36 := by decide
  have hdenominator : wrapAdd scale (2316419 * d / 10000000) =
      10 ^ 18 + 2316419 * d / 10000000 := by
    unfold wrapAdd wrap scale
    omega
  unfold argument
  rw [satMul_of_nonneg (by decide) hd,min_eq_right hfits,
    Int.tdiv_eq_ediv_of_nonneg (by omega : 0 ≤ 2316419 * d),hsquare,hdenominator,
    Int.tdiv_eq_ediv_of_nonneg (by decide)]

theorem argument_mem (hd : 0 ≤ d) (hlimit : d ≤ accurate) :
    578 * 10 ^ 15 ≤ argument d ∧ argument d ≤ scale := by
  rw [argument_eq hd hlimit]
  unfold accurate at hlimit
  constructor
  · rw [Int.le_ediv_iff_mul_le (by omega)]
    omega
  · refine Int.ediv_le_of_le_mul (by omega) ?_
    unfold scale
    omega

theorem argument_sub (hd : 0 ≤ d) (hde : d + separation ≤ e) (hlimit : e ≤ accurate) :
    argument e + 7500000000 ≤ argument d := by
  have hdNonneg : 0 ≤ e := hd.trans ((Int.le_add_of_nonneg_right (by decide)).trans hde)
  have hdLimit : d ≤ accurate := (Int.le_add_of_nonneg_right (by decide)).trans (hde.trans hlimit)
  have hmem := argument_mem hdNonneg hlimit
  have hquotient := Int.ediv_mul_le (10 ^ 36)
    (by omega : 10 ^ 18 + 2316419 * e / 10000000 ≠ 0)
  rw [argument_eq hd hdLimit,Int.le_ediv_iff_mul_le (by omega)]
  rw [← argument_eq hdNonneg hlimit] at hquotient
  unfold separation at hde
  unfold accurate at hlimit
  obtain ⟨t,ht⟩ : ∃ t, t = argument e := ⟨_,rfl⟩
  obtain ⟨b,hb⟩ : ∃ b, b = 10 ^ 18 + 2316419 * d / 10000000 := ⟨_,rfl⟩
  obtain ⟨c,hc⟩ : ∃ c, c = 10 ^ 18 + 2316419 * e / 10000000 := ⟨_,rfl⟩
  rw [← ht] at hmem hquotient ⊢
  rw [← hc] at hquotient
  rw [← hb]
  have hgap : b+23164189999 ≤ c := by omega
  have hproduct := Int.mul_le_mul_of_nonneg_left hgap (by omega : 0 ≤ t)
  rw [Int.mul_add] at hproduct
  rw [Int.add_mul]
  omega

/-- The tail of an accurate score is a product with the polynomial in its ninth digit. -/
theorem tail_eq (hd : 0 ≤ d) (hlimit : d ≤ accurate) :
    ∃ acc : Int, (0 ≤ acc ∧ acc ≤ 1253314137) ∧
      (tailSeries (argument d / scale) - 4 ≤ acc ∧
        (acc : ℝ) ≤ tailSeries (argument d / scale) + 1) ∧
      tail d = clampScale (standardNormalPdf d * acc / 10 ^ 9) := by
  obtain ⟨hlower,hupper⟩ := argument_mem hd hlimit
  obtain ⟨hhalf,hone⟩ := share_mem (by omega) hupper
  obtain ⟨acc,hvalue,haccNonneg,hseries⟩ := tailPoly_mem (by omega) hupper
  have hpdf := standardNormalPdf_mem hd hlimit
  have haccMax : acc ≤ 1253314137 := by
    have hfirst := tailSeries_sub hhalf hone
    have hsum : tailSeries 1 = 1253314136 := by norm_num [tailSeries]
    have hcast : (acc : ℝ) ≤ (1253314137 : Int) := by
      push_cast
      linarith [hseries.2]
    exact Int.cast_le.1 hcast
  have hproduct : 0 ≤ standardNormalPdf d * acc := Int.mul_nonneg (by omega) haccNonneg
  have hproductMax : standardNormalPdf d * acc ≤ (398942280401432678 + 1100) * 1253314137 :=
    Int.mul_le_mul hpdf.2 haccMax haccNonneg (by decide)
  have hfits : standardNormalPdf d * (acc * 10 ^ 9) ≤ i128Max := by
    rw [← Int.mul_assoc]
    unfold i128Max
    omega
  refine ⟨acc,⟨haccNonneg,haccMax⟩,hseries,?_⟩
  unfold tail
  rw [hvalue,satMul_of_nonneg (by omega) (by omega),min_eq_right hfits,← Int.mul_assoc,
    Int.tdiv_eq_ediv_of_nonneg (by omega)]
  congr 1
  unfold scale
  omega

theorem clampScale_le {x y : Int} (h : x ≤ y) : clampScale x ≤ clampScale y := by
  unfold clampScale
  omega

theorem tail_le_half (hd : 0 ≤ d) (hlimit : d ≤ accurate) : 2 * tail d ≤ scale := by
  obtain ⟨acc,⟨haccNonneg,haccMax⟩,-,hvalue⟩ := tail_eq hd hlimit
  have hproduct : standardNormalPdf d * acc ≤ (398942280401432678 + 1100) * 1253314137 :=
    Int.mul_le_mul (standardNormalPdf_mem hd hlimit).2 haccMax haccNonneg (by decide)
  rw [hvalue]
  unfold clampScale scale
  omega

/-- The tails of scores that are apart are in order: the polynomial falls by a digit, which is more
than what the rounding of the density can add. -/
theorem tail_le (hd : 0 ≤ d) (hde : d + separation ≤ e) (hlimit : e ≤ accurate) :
    tail e ≤ tail d := by
  have hle : d ≤ e := (Int.le_add_of_nonneg_right (by decide)).trans hde
  have he : 0 ≤ e := hd.trans hle
  obtain ⟨accD,hrangeD,hseriesD,hvalueD⟩ := tail_eq hd (hle.trans hlimit)
  obtain ⟨accE,hrangeE,hseriesE,hvalueE⟩ := tail_eq he hlimit
  have hpdfD := standardNormalPdf_mem hd (hle.trans hlimit)
  have hpdf := standardNormalPdf_le hd hle hlimit
  have hscale : (scale : ℝ) = 10 ^ 18 := by norm_num [scale]
  have hargument : (argument e : ℝ) / scale + 75 / 10 ^ 10 ≤ argument d / scale := by
    have hcast : ((argument e + 7500000000 : Int) : ℝ) ≤ argument d :=
      Int.cast_le.2 (argument_sub hd hde hlimit)
    push_cast at hcast
    rw [hscale,div_add_div _ _ (by positivity) (by positivity),
      div_le_div_iff₀ (by positivity) (by positivity)]
    linarith
  have hfalls : accE+1 ≤ accD := by
    have hslope := tailSeries_sub (share_mem (by have := argument_mem he hlimit; omega)
      (argument_mem he hlimit).2).1 (by linarith : (argument e : ℝ) / scale ≤ argument d / scale)
    have hcast : ((accE+1 : Int) : ℝ) ≤ accD := by
      push_cast
      linarith [hseriesD.1,hseriesE.2]
    exact Int.cast_le.1 hcast
  have hproduct : standardNormalPdf e * accE ≤ standardNormalPdf d * accD := by
    calc standardNormalPdf e * accE
        ≤ (standardNormalPdf d + 2100) * accE := Int.mul_le_mul_of_nonneg_right hpdf hrangeE.1
      _ = standardNormalPdf d * accE + 2100 * accE := Int.add_mul ..
      _ ≤ standardNormalPdf d * accE + standardNormalPdf d := by omega
      _ = standardNormalPdf d * (accE+1) := by rw [Int.mul_add,Int.mul_one]
      _ ≤ standardNormalPdf d * accD := Int.mul_le_mul_of_nonneg_left hfalls (by omega)
  rw [hvalueD,hvalueE]
  exact clampScale_le (Int.ediv_le_ediv (by decide) hproduct)

theorem tail_of_cutOff (hd : cutOff ≤ d) : tail d = 0 := by
  unfold tail
  rw [standardNormalPdf_of_cutOff hd,satMul,Int.zero_mul]
  rfl

end Tails

/-- The function is a symmetric distribution function between two scores. -/
def Distributed (d e : Int) : Prop :=
  0 ≤ normalCdf d ∧ normalCdf d ≤ normalCdf e ∧ normalCdf e ≤ scale ∧
    (d ≠ 0 → IsI128 (-d) → normalCdf (-d) = scale - normalCdf d)

/-- A score lies beyond the cut-off, or both are accurate and they lie apart or on either side of
zero. -/
def Separated (d e : Int) : Prop :=
  d = e ∨ d ≤ -cutOff ∨ cutOff ≤ e ∨
    (-accurate ≤ d ∧ e ≤ accurate ∧ (d + separation ≤ e ∨ d < 0 ∧ 0 ≤ e))

section Order

variable {d e : Int}

theorem normalCdf_neg (hd : IsI128 d) (hne : d ≠ 0) (hneg : IsI128 (-d)) :
    normalCdf (-d) = scale - normalCdf d := by
  rcases lt_or_gt_of_ne hne with hlt | hgt
  · have hmin : i128Min < d := by
      unfold IsI128 i128Min i128Max at *
      omega
    rw [normalCdf_of_neg hlt hmin,normalCdf_of_nonneg (by omega)]
  · have hmin : i128Min < -d := by
      unfold IsI128 i128Min i128Max at *
      omega
    rw [normalCdf_of_nonneg hgt.le,normalCdf_of_neg (by omega) hmin,neg_neg,sub_sub_cancel]

theorem normalCdf_le_of_accurate (hd : -accurate ≤ d) (he : e ≤ accurate)
    (hapart : d + separation ≤ e ∨ d < 0 ∧ 0 ≤ e) : normalCdf d ≤ normalCdf e := by
  have hmin : i128Min < d := lt_of_lt_of_le (by decide) hd
  have hle : d ≤ e := by
    unfold separation at hapart
    omega
  rcases lt_or_ge d 0 with hneg | hnonneg
  · rw [normalCdf_of_neg hneg hmin]
    rcases lt_or_ge e 0 with hneg' | hnonneg'
    · rw [normalCdf_of_neg hneg' (hmin.trans_le hle)]
      exact tail_le (by omega) (by omega) (by omega)
    · have hhalf := tail_le_half (d := -d) (by omega) (by omega)
      have hhalf' := tail_le_half hnonneg' he
      rw [normalCdf_of_nonneg hnonneg']
      omega
  · have htail := tail_le hnonneg (by omega) he
    rw [normalCdf_of_nonneg hnonneg,normalCdf_of_nonneg (hnonneg.trans hle)]
    omega

theorem normalCdf_of_le_neg_cutOff (hd : IsI128 d) (hcut : d ≤ -cutOff) : normalCdf d = 0 := by
  rcases hd.1.eq_or_lt with rfl | hmin
  · decide +kernel
  · have hneg : d < 0 := lt_of_le_of_lt hcut (by decide)
    rw [normalCdf_of_neg hneg hmin,tail_of_cutOff (by omega)]

theorem normalCdf_of_cutOff (hcut : cutOff ≤ e) : normalCdf e = scale := by
  rw [normalCdf_of_nonneg (le_trans (by decide) hcut),tail_of_cutOff hcut,sub_zero]

end Order

/-- Between separated scores the values of the function are symmetric probabilities in order. -/
theorem distributed_of_separated {d e : Int} (hd : IsI128 d) (hseparated : Separated d e) :
    Distributed d e := by
  refine ⟨(normalCdf_mem d).1,?_,(normalCdf_mem e).2,normalCdf_neg hd⟩
  rcases hseparated with rfl | hcut | hcut | ⟨hlower,hupper,hapart⟩
  · exact le_rfl
  · rw [normalCdf_of_le_neg_cutOff hd hcut]
    exact (normalCdf_mem e).1
  · rw [normalCdf_of_cutOff hcut]
    exact (normalCdf_mem d).2
  · exact normalCdf_le_of_accurate hlower hupper hapart

theorem one_two_distributed : Distributed (10 ^ 18) (2 * 10 ^ 18) :=
  distributed_of_separated ⟨by decide,by decide⟩
    (.inr (.inr (.inr ⟨by decide,by decide,.inl (by decide)⟩)))

/-- The function falls from one to zero between the scores four and five, and from one score to the
next at one half. -/
theorem scores_out_of_order : normalCdf (4 * 10 ^ 18) = scale ∧ normalCdf (5 * 10 ^ 18) = 0 ∧
    ¬Distributed (4 * 10 ^ 18) (5 * 10 ^ 18) ∧
    ¬Distributed 500000011370964998 500000011370964999 := by
  have hfour : normalCdf (4 * 10 ^ 18) = scale := by decide +kernel
  have hfive : normalCdf (5 * 10 ^ 18) = 0 := by decide +kernel
  refine ⟨hfour,hfive,fun h => ?_,fun h => ?_⟩
  · have horder := h.2.1
    rw [hfour,hfive] at horder
    revert horder
    decide
  · have horder := h.2.1
    revert horder
    decide +kernel

end PriceOracle.Exotic
