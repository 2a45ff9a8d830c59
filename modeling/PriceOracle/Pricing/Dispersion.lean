import PriceOracle.Pricing.Statistics
import Mathlib.Algebra.BigOperators.Ring.List

/-! # The dispersion reported for a list of prices

The reported dispersion is the standard deviation in basis points of the mean. The sum of squares is
clamped and the standard deviation loses its higher bits, so the report is the exact one only while
the deviation fits 32 bits, or is too small against the mean to show at all. -/

namespace PriceOracle.Pricing

open Lib.MachineInt Lib.SquareRoot Model.Pricing

theorem integerSqrt_eq {value : Int} (hvalue : 0 ≤ value) (hmax : value < i128Max) :
    integerSqrt value = value.toNat.sqrt := by
  unfold integerSqrt
  split_ifs with hsmall
  · have hcases : value = 0 ∨ value = 1 := by omega
    rcases hcases with rfl | rfl <;> decide
  · have hsat (x : Int) (hx : 0 ≤ x) : decide (satMul x x ≤ value) = decide (x * x ≤ value) := by
      rw [decide_eq_decide]
      unfold satMul saturate i128Min
      omega
    have hlow : decide (satMul 0 0 ≤ value) = true := by
      rw [hsat 0 le_rfl]
      simpa using hvalue
    have hhigh : decide (satMul value value ≤ value) = false := by
      rw [hsat value hvalue,decide_eq_false_iff_not,not_le]
      nlinarith only [hsmall]
    have hfuel : value - 0 ≤ 2 ^ 127 := by
      unfold i128Max at hmax
      omega
    obtain ⟨hnonneg,-,hpass,hfail⟩ :=
      @bisect_spec (fun mid => satMul mid mid ≤ value) 127 0 value hlow hhigh (by omega) hfuel
    rw [hsat _ hnonneg,decide_eq_true_eq] at hpass
    rw [hsat _ (by omega),decide_eq_false_iff_not,not_le] at hfail
    exact eq_sqrt_of_bracket hnonneg hpass hfail

example : integerSqrt i128Max = i128Max - 1 := by decide

section Deviation

def squares (prices : List Int) : Int := (prices.map fun p => (p - computeMean prices) ^ 2).sum

def variance (prices : List Int) : Int := squares prices / prices.length

def deviation (prices : List Int) : Nat := (variance prices).toNat.sqrt

/-- The deviation in basis points of the mean, at most the largest value of 32 bits. -/
def dispersion (prices : List Int) : Nat :=
  min u32Max (10000 * deviation prices / (computeMean prices).toNat)

variable {ps : List Int}

theorem squares_nonneg : 0 ≤ squares ps := by
  apply List.sum_nonneg
  intro x hx
  obtain ⟨p,-,rfl⟩ := List.mem_map.1 hx
  exact sq_nonneg _

theorem squares_clamped {m s : Int} (hps : ∀ p ∈ ps, IsI128 (p - m)) (hs : 0 ≤ s) :
    ps.foldl (fun sum p => satAdd sum (satMul (wrapSub p m) (wrapSub p m))) (min i128Max s) =
      min i128Max (s + (ps.map fun p => (p - m) ^ 2).sum) := by
  induction ps generalizing s with
  | nil => simp
  | cons p ps ih =>
    rw [List.forall_mem_cons] at hps
    have hdiff : wrapSub p m = p - m := wrap_of_isI128 hps.1
    have hsquare : 0 ≤ (p - m) ^ 2 := sq_nonneg _
    have hstep : satAdd (min i128Max s) (satMul (p - m) (p - m)) =
        min i128Max (s + (p - m) ^ 2) := by
      rw [pow_two] at hsquare ⊢
      unfold satAdd satMul saturate i128Max i128Min
      omega
    rw [List.foldl_cons,hdiff,hstep,ih hps.2 (add_nonneg hs hsquare),List.map_cons,
      List.sum_cons,add_assoc]

variable (h : PriceList ps)

include h

theorem mean_bounds : 1 ≤ computeMean ps ∧ computeMean ps ≤ i128Max :=
  computeMean_between h h.bounds

theorem squares_of_single (hone : ps.length = 1) : squares ps = 0 := by
  obtain ⟨p,rfl⟩ := List.length_eq_one_iff.1 hone
  have hmean := computeMean_eq h.nonempty h.count
    fun x hx => ⟨(h.prices x hx).1.le,(h.prices x hx).2.2⟩
  unfold squares
  rw [hmean]
  simp

/-- A mean of squares never reaches the value whose root saturates. -/
theorem clampedVariance_lt : min i128Max (squares ps) / (ps.length : Int) < i128Max := by
  have hpos := h.length_pos
  have hmax : 0 < i128Max := by decide
  by_cases hone : ps.length = 1
  · rw [squares_of_single h hone,hone]
    decide
  · have hle : min i128Max (squares ps) ≤ i128Max := min_le_left _ _
    rw [Int.ediv_lt_iff_lt_mul (by omega)]
    refine hle.trans_lt ?_
    exact lt_mul_of_one_lt_right hmax (by omega)

/-- `compute_stddev` drops the bits above 32 of the root of the clamped variance. -/
theorem computeStddev_eq :
    computeStddev ps = wrap32 (min i128Max (squares ps) / ps.length).toNat.sqrt := by
  have hpos := h.length_pos
  obtain ⟨hlow,hhigh⟩ := mean_bounds h
  have hdiff : ∀ p ∈ ps, IsI128 (p - computeMean ps) := by
    intro p hp
    obtain ⟨hp1,hp2⟩ := h.bounds p hp
    unfold IsI128 i128Min
    unfold i128Max at hhigh hp2 ⊢
    omega
  have hsum := squares_clamped hdiff le_rfl
  rw [zero_add,show min i128Max (0 : Int) = 0 by decide] at hsum
  change _ = min i128Max (squares ps) at hsum
  have hnonneg : 0 ≤ min i128Max (squares ps) := le_min (by decide) squares_nonneg
  have hvariance : 0 ≤ min i128Max (squares ps) / (ps.length : Int) :=
    Int.ediv_nonneg hnonneg (by omega)
  unfold computeStddev
  rw [if_neg hpos.ne']
  dsimp only
  rw [hsum,Int.tdiv_eq_ediv_of_nonneg hnonneg,integerSqrt_eq hvariance (clampedVariance_lt h),
    max_eq_left (Int.natCast_nonneg _)]
  congr 1
  have hroot := Nat.sqrt_le_self (min i128Max (squares ps) / (ps.length : Int)).toNat
  have hfits := clampedVariance_lt h
  unfold toU128
  unfold i128Max at hfits hroot ⊢
  omega

/-- The variance of positive prices is small against the square of their mean. -/
theorem variance_le : variance ps ≤ 6 * ps.length * computeMean ps ^ 2 := by
  have hpos : (0 : Int) < ps.length := Int.natCast_pos.2 h.length_pos
  obtain ⟨n,hn⟩ : ∃ n : Int, n = ps.length := ⟨_,rfl⟩
  obtain ⟨m,hm⟩ : ∃ m, m = computeMean ps := ⟨_,rfl⟩
  have hmean := computeMean_eq h.nonempty h.count
    fun x hx => ⟨(h.prices x hx).1.le,(h.prices x hx).2.2⟩
  have hone : 1 ≤ m := hm ▸ (mean_bounds h).1
  have hnonneg : ∀ x ∈ ps, 0 ≤ x := fun x hx => (h.prices x hx).1.le
  rw [← hn] at hpos hmean ⊢
  have hsum : ps.sum ≤ 2 * n * m := by
    have hlt := Int.lt_mul_ediv_self_add (x := ps.sum) hpos
    rw [← hmean,← hm] at hlt
    nlinarith only [hlt,hone,hpos]
  have hterm : ∀ p ∈ ps, (p - m) ^ 2 ≤ 2 * n * m * (p + m) := by
    intro p hp
    have hle : p ≤ 2 * n * m := (List.single_le_sum hnonneg p hp).trans hsum
    have hmle : m ≤ 2 * n * m := by nlinarith only [hone,hpos]
    have hp0 := hnonneg p hp
    nlinarith only [hle,hmle,hp0,hone]
  have hsquares : squares ps ≤ n * (6 * n * m ^ 2) := by
    unfold squares
    rw [← hm]
    refine (List.sum_le_sum hterm).trans ?_
    rw [List.sum_map_mul_left,List.sum_map_add]
    simp only [List.map_id',List.map_const',List.sum_replicate,nsmul_eq_mul]
    rw [← hn]
    nlinarith only [hsum,hone,hpos,mul_nonneg hpos.le (by omega : 0 ≤ m)]
  unfold variance
  rw [← hn,← hm]
  exact Int.ediv_le_of_le_mul hpos (by rw [mul_comm]; exact hsquares)

end Deviation

section Report

variable {ps : List Int} (h : PriceList ps)

include h

theorem deviation_sq_le : deviation ps ^ 2 ≤ 6 * ps.length * (computeMean ps).toNat ^ 2 := by
  have hroot : deviation ps ^ 2 ≤ (variance ps).toNat := Nat.sqrt_le' _
  have hmean : ((computeMean ps).toNat : Int) = computeMean ps :=
    Int.toNat_of_nonneg (by have := (mean_bounds h).1; omega)
  have hbound := variance_le h
  rw [← hmean] at hbound
  have hcast : (variance ps).toNat ≤ 6 * ps.length * (computeMean ps).toNat ^ 2 := by
    rw [Int.toNat_le]
    exact_mod_cast hbound
  exact hroot.trans hcast

/-- The exact ratio fits 32 bits: its upper limit is never met. -/
theorem ratio_le : 10000 * deviation ps / (computeMean ps).toNat ≤ u32Max := by
  have hsq := deviation_sq_le h
  have hlen : 6 * ps.length ≤ 2 ^ 36 := by
    have hcount := h.count
    omega
  have hroot : deviation ps ≤ 2 ^ 18 * (computeMean ps).toNat := by
    rw [← Nat.pow_le_pow_iff_left two_ne_zero,Nat.mul_pow]
    exact hsq.trans (Nat.mul_le_mul_right _ hlen)
  apply Nat.div_le_of_le_mul
  unfold u32Max
  omega

theorem clampedVariance_eq (hsmall : deviation ps < 2 ^ 33) :
    min i128Max (squares ps) / ps.length = variance ps := by
  have hpos : (0 : Int) < ps.length := Int.natCast_pos.2 h.length_pos
  have hcount : (ps.length : Int) ≤ 2 ^ 32 := by
    have hlt := h.count
    omega
  have hvariance : variance ps + 1 ≤ 2 ^ 66 := by
    have hlt := Nat.sqrt_lt'.1 hsmall
    omega
  have hsquares : squares ps < ps.length * variance ps + ps.length :=
    Int.lt_mul_ediv_self_add hpos
  have hnonneg : 0 ≤ variance ps := Int.ediv_nonneg squares_nonneg hpos.le
  have hle : (ps.length : Int) * (variance ps + 1) ≤ 2 ^ 32 * 2 ^ 66 :=
    mul_le_mul hcount hvariance (by omega) (by decide)
  rw [mul_add,mul_one] at hle
  rw [min_eq_right (by unfold i128Max; omega),variance]

/-- The ratio of the reported deviation, which fits 32 bits. -/
theorem computeConfidenceBps_ratio : ∃ t, t ≤ deviation ps ∧ t < 2 ^ 32 ∧
    (deviation ps < 2 ^ 33 → t = deviation ps % 2 ^ 32) ∧
    computeConfidenceBps ps = 10000 * t / (computeMean ps).toNat := by
  have hpos := h.length_pos
  obtain ⟨hlow,hhigh⟩ := mean_bounds h
  have hstddev := computeStddev_eq h
  unfold wrap32 at hstddev
  have hclamped : (min i128Max (squares ps) / (ps.length : Int)).toNat.sqrt ≤ deviation ps := by
    apply Nat.sqrt_le_sqrt
    apply Int.toNat_le_toNat
    exact Int.ediv_le_ediv (Int.natCast_pos.2 hpos) (min_le_right _ _)
  have hle : computeStddev ps ≤ deviation ps := by
    rw [hstddev]
    exact (Nat.mod_le _ _).trans hclamped
  have hlt : computeStddev ps < 2 ^ 32 := by
    rw [hstddev]
    exact Nat.mod_lt _ (by decide)
  refine ⟨computeStddev ps,hle,hlt,?_,?_⟩
  · intro hsmall
    rw [hstddev,clampedVariance_eq h hsmall,deviation]
  · have hmean : toU128 (computeMean ps) = (computeMean ps).toNat := by
      unfold toU128
      unfold i128Max at hhigh
      omega
    have hproduct : satMul128 (computeStddev ps) 10000 = 10000 * computeStddev ps := by
      unfold satMul128 u128Max
      omega
    have hratio : 10000 * computeStddev ps / (computeMean ps).toNat ≤ u32Max :=
      (Nat.div_le_div_right (Nat.mul_le_mul_left _ hle)).trans (ratio_le h)
    unfold computeConfidenceBps
    rw [if_neg hpos.ne']
    rw [if_neg (by omega),hmean,hproduct]
    exact Nat.mod_eq_of_lt (Nat.lt_succ_of_le hratio)

omit h

/-- The reported dispersion of positive prices is the exact one, which never reaches its limit,
exactly if their deviation fits 32 bits or is below a basis point of the mean. -/
theorem computeConfidenceBps_eq_iff (hps : ∀ p ∈ ps, IsPrice p) (hcount : ps.length < 2 ^ 32) :
    computeConfidenceBps ps = dispersion ps ↔
      deviation ps < 2 ^ 32 ∨ 10000 * deviation ps < (computeMean ps).toNat := by
  by_cases hempty : ps = []
  · subst hempty
    decide
  · have h : PriceList ps := ⟨hempty,hcount,hps⟩
    obtain ⟨t,hle,hfits,hsmall,hreport⟩ := computeConfidenceBps_ratio h
    have hpos : 0 < (computeMean ps).toNat := by
      have hone := (mean_bounds h).1
      omega
    rw [hreport,dispersion,min_eq_right (ratio_le h)]
    obtain ⟨s,hs⟩ : ∃ s, s = deviation ps := ⟨_,rfl⟩
    obtain ⟨m,hm⟩ : ∃ m, m = (computeMean ps).toNat := ⟨_,rfl⟩
    rw [← hs] at hle hsmall ⊢
    rw [← hm] at hpos ⊢
    constructor
    · intro heq
      by_contra hlarge
      rw [not_or,not_lt,not_lt] at hlarge
      -- equal quotients of at least one: the difference is below the mean, the lower part is not
      have hone : 1 ≤ 10000 * t / m := by
        rw [heq,Nat.one_le_div_iff hpos]
        exact hlarge.2
      have hlow := Nat.mul_div_le (10000 * t) m
      have hhigh := Nat.lt_mul_div_succ (10000 * s) hpos
      rw [← heq,Nat.mul_add,Nat.mul_one] at hhigh
      have hm1 := Nat.mul_le_mul_left m hone
      have hbound := hsmall (by omega)
      omega
    · rintro (hsmall' | hbelow)
      · have hexact := hsmall (by omega)
        rw [Nat.mod_eq_of_lt hsmall'] at hexact
        rw [hexact]
      · rw [Nat.div_eq_of_lt hbelow,Nat.div_eq_of_lt (by omega)]

theorem seven_decimals_exact :
    computeConfidenceBps [10000000, 11000000] = dispersion [10000000, 11000000] :=
  (computeConfidenceBps_eq_iff (by decide) (by decide)).2 (.inl (by decide +kernel))

/-- Two prices of eighteen decimals that are ten percent apart are reported to agree. -/
theorem eighteen_decimals_agree : (∀ p ∈ ([10 ^ 18, 11 * 10 ^ 17] : List Int), IsPrice p) ∧
    computeConfidenceBps [10 ^ 18, 11 * 10 ^ 17] = 0 ∧
      ¬computeConfidenceBps [10 ^ 18, 11 * 10 ^ 17] = dispersion [10 ^ 18, 11 * 10 ^ 17] := by
  refine ⟨by decide,by decide +kernel,?_⟩
  decide +kernel

end Report

end PriceOracle.Pricing
