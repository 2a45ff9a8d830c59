import PriceOracle.Model.ExoticPricing
import PriceOracle.Model.Invocation
import Mathlib.Analysis.Real.Sqrt
import Mathlib.Data.Nat.Cast.Order.Field
import Mathlib.Tactic.Ring

/-! # Prices of instruments

Liquidity tokens and options, priced from the aggregates of what they stand for. -/

/-! ## The price of a liquidity token

The root is taken after the product was divided by the scale and is multiplied by the whole scale
again, so what is left is a thousand millionth of the fair value. -/

namespace PriceOracle.Exotic

open Lib.MachineInt Lib.SquareRoot Model Model.Exotic

theorem isqrtU128_eq (n : Nat) : isqrtU128 n = n.sqrt := by
  unfold isqrtU128
  split_ifs with hzero
  · rw [hzero,Nat.sqrt_zero]
  · have hn : 0 < n := Nat.pos_of_ne_zero hzero
    have hfirst : (n+1) / 2 = newtonStep n n := by
      rw [newtonStep,Nat.div_self hn]
    rw [hfirst]
    exact newton_eq hn (Nat.sqrt_le_self n) le_rfl

def root (reserve0 reserve1 : Nat) : Nat := (min (reserve0 * reserve1) u128Max / 10 ^ 18).sqrt

theorem root_lt (reserve0 reserve1 : Nat) : root reserve0 reserve1 < 2 ^ 35 := by
  unfold root
  rw [Nat.sqrt_lt]
  have hle : min (reserve0 * reserve1) u128Max / 10 ^ 18 ≤ u128Max / 10 ^ 18 :=
    Nat.div_le_div_right (min_le_right _ _)
  exact lt_of_le_of_lt hle (by decide)

theorem root_le (reserve0 reserve1 : Nat) :
    (root reserve0 reserve1 * 10 ^ 9) ^ 2 ≤ reserve0 * reserve1 := by
  have hroot := Nat.sqrt_le (min (reserve0 * reserve1) u128Max / 10 ^ 18)
  have hdiv := Nat.div_mul_le_self (min (reserve0 * reserve1) u128Max) (10 ^ 18)
  have hscaled := Nat.mul_le_mul_right (10 ^ 18) hroot
  calc (root reserve0 reserve1 * 10 ^ 9) ^ 2
      = root reserve0 reserve1 * root reserve0 reserve1 * 10 ^ 18 := by ring
    _ ≤ min (reserve0 * reserve1) u128Max := hscaled.trans hdiv
    _ ≤ reserve0 * reserve1 := min_le_left _ _

/-- The product of the root and the scale fits 128 bits, so the price is the plain quotient. -/
theorem computeLpTokenPrice_eq {reserve0 reserve1 totalSupply : Nat} (h0 : 0 < reserve0)
    (h1 : 0 < reserve1) (hn : 0 < totalSupply) :
    computeLpTokenPrice reserve0 reserve1 totalSupply =
      .ok ((2 * root reserve0 reserve1 * 10 ^ 18 / totalSupply : Nat) : Int) := by
  have hroot : isqrtU128 (satMul128 reserve0 reserve1 / scale.toNat) = root reserve0 reserve1 :=
    isqrtU128_eq _
  have hsmall := root_lt reserve0 reserve1
  have hscale : scale.toNat = 10 ^ 18 := rfl
  have htwice : satMul128 2 (root reserve0 reserve1) = 2 * root reserve0 reserve1 := by
    unfold satMul128 u128Max
    omega
  have hnumerator : satMul128 (2 * root reserve0 reserve1) (10 ^ 18) =
      2 * root reserve0 reserve1 * 10 ^ 18 := by
    unfold satMul128 u128Max
    omega
  have hquotient := Nat.div_le_self (2 * root reserve0 reserve1 * 10 ^ 18) totalSupply
  unfold computeLpTokenPrice
  rw [if_neg hn.ne',if_neg (by omega),hroot]
  dsimp only
  rw [htwice,hscale,hnumerator]
  refine congrArg Except.ok ?_
  obtain ⟨q,hq⟩ : ∃ q, q = 2 * root reserve0 reserve1 * 10 ^ 18 / totalSupply := ⟨_,rfl⟩
  unfold wrap
  omega

/-- Twice the root of the reserves per token, scaled by `10 ^ 18`. -/
noncomputable def fairValue (reserve0 reserve1 totalSupply : Nat) : ℝ :=
  2 * √(reserve0 * reserve1 : ℝ) * 10 ^ 18 / totalSupply

/-- One part in a million of the fair value, and the last digit. -/
noncomputable def margin (reserve0 reserve1 totalSupply : Nat) : ℝ :=
  fairValue reserve0 reserve1 totalSupply / 10 ^ 6 + 1

/-- The price is the fair value up to the margin, and so it stays when the reserves and the supply
grow by one factor. -/
def Fair (reserve0 reserve1 totalSupply : Nat) : Prop :=
  ∃ p : Int, computeLpTokenPrice reserve0 reserve1 totalSupply = .ok p ∧
    |p - fairValue reserve0 reserve1 totalSupply| ≤ margin reserve0 reserve1 totalSupply ∧
    ∀ factor : Nat, 0 < factor → factor * reserve0 ≤ u128Max → factor * reserve1 ≤ u128Max →
      factor * totalSupply ≤ u128Max → ∃ q : Int,
        computeLpTokenPrice (factor * reserve0) (factor * reserve1) (factor * totalSupply) =
          .ok q ∧ |(q : ℝ) - p| ≤ margin reserve0 reserve1 totalSupply

section Values

variable {reserve0 reserve1 totalSupply : Nat}

theorem fairValue_nonneg : 0 ≤ fairValue reserve0 reserve1 totalSupply := by
  unfold fairValue
  positivity

/-- The price is at most a thousand millionth of the fair value. -/
theorem price_le (reserve0 reserve1 : Nat) (hn : 0 < totalSupply) :
    ((2 * root reserve0 reserve1 * 10 ^ 18 / totalSupply : Nat) : ℝ) * 10 ^ 9 ≤
      fairValue reserve0 reserve1 totalSupply := by
  have hroot : (root reserve0 reserve1 : ℝ) * 10 ^ 9 ≤ √(reserve0 * reserve1 : ℝ) := by
    refine Real.le_sqrt_of_sq_le ?_
    exact_mod_cast root_le reserve0 reserve1
  have hfloor : ((2 * root reserve0 reserve1 * 10 ^ 18 / totalSupply : Nat) : ℝ) ≤
      2 * root reserve0 reserve1 * 10 ^ 18 / totalSupply := by
    refine (Nat.cast_div_le (α := ℝ)).trans (le_of_eq ?_)
    norm_num
  calc ((2 * root reserve0 reserve1 * 10 ^ 18 / totalSupply : Nat) : ℝ) * 10 ^ 9
      ≤ 2 * root reserve0 reserve1 * 10 ^ 18 / totalSupply * 10 ^ 9 :=
        mul_le_mul_of_nonneg_right hfloor (by norm_num)
    _ = 2 * (root reserve0 reserve1 * 10 ^ 9) * 10 ^ 18 / totalSupply := by ring
    _ ≤ fairValue reserve0 reserve1 totalSupply := by
        unfold fairValue
        gcongr

/-- The reserves are so small beside the supply that the fair value is no more than its margin. -/
theorem negligible_iff (hn : 0 < totalSupply) :
    4 * (10 ^ 18 - 10 ^ 12) ^ 2 * (reserve0 * reserve1) ≤ totalSupply ^ 2 ↔
      fairValue reserve0 reserve1 totalSupply ≤ margin reserve0 reserve1 totalSupply := by
  have hsupply : (0 : ℝ) < totalSupply := Nat.cast_pos.2 hn
  have hsquare : √(reserve0 * reserve1 : ℝ) ^ 2 = reserve0 * reserve1 :=
    Real.sq_sqrt (by positivity)
  have hlinear : fairValue reserve0 reserve1 totalSupply ≤ margin reserve0 reserve1 totalSupply ↔
      2 * (10 ^ 18 - 10 ^ 12) * √(reserve0 * reserve1 : ℝ) ≤ totalSupply := by
    unfold margin fairValue
    rw [div_div,← sub_le_iff_le_add',div_sub_div _ _ hsupply.ne' (by positivity),
      div_le_one (by positivity)]
    constructor
    · intro h
      nlinarith
    · intro h
      nlinarith
  rw [hlinear,← pow_le_pow_iff_left₀ (by positivity) hsupply.le two_ne_zero,mul_pow,hsquare]
  constructor
  · intro h
    have hcast : ((4 * (10 ^ 18 - 10 ^ 12) ^ 2 * (reserve0 * reserve1) : Nat) : ℝ) ≤
        (totalSupply ^ 2 : Nat) := Nat.cast_le.2 h
    norm_num at hcast ⊢
    linarith
  · intro h
    have hcast : ((4 * (10 ^ 18 - 10 ^ 12) ^ 2 * (reserve0 * reserve1) : Nat) : ℝ) ≤
        (totalSupply ^ 2 : Nat) := by
      norm_num at h ⊢
      linarith
    exact Nat.cast_le.1 hcast

/-- A fair value within its margin is priced at nothing. -/
theorem price_eq_zero (hn : 0 < totalSupply)
    (h : fairValue reserve0 reserve1 totalSupply ≤ margin reserve0 reserve1 totalSupply) :
    2 * root reserve0 reserve1 * 10 ^ 18 / totalSupply = 0 := by
  by_contra hne
  have hone : (1 : ℝ) ≤ ((2 * root reserve0 reserve1 * 10 ^ 18 / totalSupply : Nat) : ℝ) :=
    Nat.one_le_cast.2 (Nat.one_le_iff_ne_zero.2 hne)
  have hprice := price_le reserve0 reserve1 hn
  unfold margin at h
  linarith

theorem fairValue_le_margin (hn : 0 < totalSupply)
    (h : |(((2 * root reserve0 reserve1 * 10 ^ 18 / totalSupply : Nat) : Int) : ℝ) -
      fairValue reserve0 reserve1 totalSupply| ≤ margin reserve0 reserve1 totalSupply) :
    fairValue reserve0 reserve1 totalSupply ≤ margin reserve0 reserve1 totalSupply := by
  have hprice := price_le reserve0 reserve1 hn
  have hbelow := (abs_le.1 h).1
  rw [Int.cast_natCast] at hbelow
  obtain ⟨p,hp⟩ : ∃ p, p = 2 * root reserve0 reserve1 * 10 ^ 18 / totalSupply := ⟨_,rfl⟩
  rw [← hp] at hprice hbelow
  rcases Nat.eq_zero_or_pos p with hzero | hpos
  · rw [hzero,Nat.cast_zero] at hbelow
    linarith
  · -- a price of one is worth a thousand millions, far beyond the margin
    have hone : (1 : ℝ) ≤ p := Nat.one_le_cast.2 hpos
    unfold margin at hbelow
    linarith

end Values

theorem negligible_of_fair {reserve0 reserve1 totalSupply : Nat} (h0 : 0 < reserve0)
    (h1 : 0 < reserve1) (hn : 0 < totalSupply) (hfair : Fair reserve0 reserve1 totalSupply) :
    4 * (10 ^ 18 - 10 ^ 12) ^ 2 * (reserve0 * reserve1) ≤ totalSupply ^ 2 := by
  obtain ⟨p,hp,hclose,-⟩ := hfair
  rw [computeLpTokenPrice_eq h0 h1 hn,Except.ok.injEq] at hp
  rw [← hp] at hclose
  exact (negligible_iff hn).2 (fairValue_le_margin hn hclose)

/-- The price of a liquidity token is fair exactly if the fair value is no more than its margin. -/
theorem liquidity_fair_iff {reserve0 reserve1 totalSupply : Nat} (h0 : 0 < reserve0) (h1 : 0 < reserve1)
    (hn : 0 < totalSupply) :
    Fair reserve0 reserve1 totalSupply ↔
      4 * (10 ^ 18 - 10 ^ 12) ^ 2 * (reserve0 * reserve1) ≤ totalSupply ^ 2 := by
  constructor
  · exact negligible_of_fair h0 h1 hn
  · intro hscaled
    have hnegligible := (negligible_iff hn).1 hscaled
    have hmargin := fairValue_nonneg.trans hnegligible
    refine ⟨0,?_,?_,fun factor hfactor _ _ _ => ⟨0,?_,?_⟩⟩
    · rw [computeLpTokenPrice_eq h0 h1 hn,price_eq_zero hn hnegligible]
      rfl
    · rwa [Int.cast_zero,zero_sub,abs_neg,abs_of_nonneg fairValue_nonneg]
    · have hmore : 4 * (10 ^ 18 - 10 ^ 12) ^ 2 * (factor * reserve0 * (factor * reserve1)) ≤
          (factor * totalSupply) ^ 2 := by
        calc 4 * (10 ^ 18 - 10 ^ 12) ^ 2 * (factor * reserve0 * (factor * reserve1))
            = factor ^ 2 * (4 * (10 ^ 18 - 10 ^ 12) ^ 2 * (reserve0 * reserve1)) := by ring
          _ ≤ factor ^ 2 * totalSupply ^ 2 := Nat.mul_le_mul_left _ hscaled
          _ = (factor * totalSupply) ^ 2 := by ring
      have hn' := Nat.mul_pos hfactor hn
      rw [computeLpTokenPrice_eq (Nat.mul_pos hfactor h0) (Nat.mul_pos hfactor h1) hn',
        price_eq_zero hn' ((negligible_iff hn').1 hmore)]
      rfl
    · rwa [sub_self,abs_zero]

theorem dust_fair : Fair 1 1 (2 * 10 ^ 18) :=
  (liquidity_fair_iff one_pos one_pos (by decide)).2 (by decide)

/-- A pool of one whole token of each side and one share: the share is worth two. -/
theorem whole_share_unfair : computeLpTokenPrice (10 ^ 18) (10 ^ 18) (10 ^ 18) = .ok (2 * 10 ^ 9) ∧
    ¬Fair (10 ^ 18) (10 ^ 18) (10 ^ 18) := by
  refine ⟨by decide +kernel,fun hfair => ?_⟩
  have hsmall := negligible_of_fair (by decide) (by decide) (by decide) hfair
  revert hsmall
  decide

end PriceOracle.Exotic

/-! ## Puts and calls

The two probabilities lie between zero and one, so an option is never worth more than its stronger
leg. -/

namespace PriceOracle.Exotic

open Lib.MachineInt Model Model.Exotic

theorem clampScale_mem (x : Int) : 0 ≤ clampScale x ∧ clampScale x ≤ scale := by
  unfold clampScale scale
  omega

/-- The normal distribution function has its values between zero and one. -/
theorem normalCdf_mem (d : Int) : 0 ≤ normalCdf d ∧ normalCdf d ≤ scale := by
  have hscale : 0 ≤ scale := by decide
  have hrest (x : Int) : 0 ≤ scale - clampScale x ∧ scale - clampScale x ≤ scale :=
    ⟨Int.sub_nonneg.2 (clampScale_mem x).2,Int.sub_le_self _ (clampScale_mem x).1⟩
  unfold normalCdf
  dsimp only
  split_ifs
  · exact ⟨le_rfl,hscale⟩
  · exact hrest _
  · exact ⟨hscale,le_rfl⟩
  · exact clampScale_mem _

/-- The share `n` of an amount, in a product that saturates. -/
def clippedShare (x n : Int) : Int := min i128Max (x * n) / scale

def excess (x n : Int) : Int := max 0 (x * n / scale - i128Max / scale)

/-- The two shares of an amount lose what saturation cuts, and the digit of the rounding. -/
def lost (x n : Int) : Int :=
  excess x n + excess x (scale - n) + (x - x * n / scale - x * (scale - n) / scale)

section Shares

variable {x n : Int}

theorem clippedShare_mem (hx : 0 ≤ x) (hn : 0 ≤ n) (hnScale : n ≤ scale) :
    0 ≤ clippedShare x n ∧ clippedShare x n ≤ x := by
  have hproduct : 0 ≤ x * n := Int.mul_nonneg hx hn
  have hle : x * n ≤ x * scale := Int.mul_le_mul_of_nonneg_left hnScale hx
  refine ⟨Int.ediv_nonneg ?_ (by decide),Int.ediv_le_of_le_mul (by decide) ?_⟩
  · unfold i128Max
    omega
  · omega

theorem share_eq (hx : 0 ≤ x) (hn : 0 ≤ n) : (satMul x n).tdiv scale = clippedShare x n := by
  have hproduct : 0 ≤ x * n := Int.mul_nonneg hx hn
  rw [satMul_of_nonneg hx hn,Int.tdiv_eq_ediv_of_nonneg (by unfold i128Max; omega),clippedShare]

theorem clippedShare_eq (x n : Int) : clippedShare x n = x * n / scale - excess x n := by
  unfold clippedShare excess i128Max scale
  omega

theorem clippedShare_add (x n : Int) :
    clippedShare x n + clippedShare x (scale - n) = x - lost x n := by
  rw [clippedShare_eq,clippedShare_eq,lost]
  omega

/-- An amount whose products fit loses nothing but the digit of the rounding. -/
theorem lost_mem (hx : x * scale ≤ i128Max) (hnonneg : 0 ≤ x) (hn : 0 ≤ n) (hnScale : n ≤ scale) :
    0 ≤ lost x n ∧ lost x n ≤ 1 := by
  have hle : x * n ≤ x * scale := Int.mul_le_mul_of_nonneg_left hnScale hnonneg
  have hproduct : 0 ≤ x * n := Int.mul_nonneg hnonneg hn
  have hsplit : x * (scale - n) = x * scale - x * n := by ring
  unfold lost excess
  unfold scale i128Max at *
  omega

end Shares

def unclamped (s k sigma t : Int) (isCall : Bool) : Int :=
  if degenerate sigma t then if isCall then wrapSub s k else wrapSub k s
  else legs s k (normalCdf (dOne s k sigma t)) (normalCdf (dTwo s k sigma t)) isCall

/-- Where the price outweighs the strike in the call, and the strike the price in the put, the two
amounts lose the same up to four digits. -/
def EvenlyCut (s k nD1 nD2 : Int) : Prop :=
  clippedShare k nD2 ≤ clippedShare s nD1 →
    clippedShare s (scale - nD1) ≤ clippedShare k (scale - nD2) → |lost k nD2 - lost s nD1| ≤ 4

/-- An option without time value is exact, and so is one whose price and strike are evenly cut. -/
def ParityHolds (s k sigma t : Int) : Prop :=
  degenerate sigma t = false →
    EvenlyCut s k (normalCdf (dOne s k sigma t)) (normalCdf (dTwo s k sigma t))

/-- A call and its put are worth no more than what they are about, and they differ as the price and
the strike do. -/
def Coherent (s k sigma t c p : Int) : Prop :=
  (0 ≤ unclamped s k sigma t true → 0 ≤ unclamped s k sigma t false →
    |(c - p) - (s - k)| ≤ 4) ∧ (0 ≤ c ∧ c ≤ s) ∧ 0 ≤ p ∧ p ≤ k

section Values

variable {s k sigma t : Int}

theorem optionValue_eq (isCall : Bool) :
    optionValue s k sigma t isCall = max (unclamped s k sigma t isCall) 0 := by
  unfold optionValue unclamped intrinsic
  split_ifs <;> rfl

theorem wrapSub_of_nonneg {a b : Int} (ha : 0 ≤ a) (haMax : a ≤ i128Max) (hb : 0 ≤ b)
    (hbMax : b ≤ i128Max) : wrapSub a b = a - b := by
  apply wrap_of_isI128
  unfold i128Max at haMax hbMax
  unfold IsI128 i128Min i128Max
  omega

theorem legs_eq {nD1 nD2 : Int} (hs : 0 < s) (hsMax : s ≤ i128Max) (hk : 0 < k)
    (hkMax : k ≤ i128Max) (hD1 : 0 ≤ nD1 ∧ nD1 ≤ scale) (hD2 : 0 ≤ nD2 ∧ nD2 ≤ scale) :
    legs s k nD1 nD2 true = clippedShare s nD1 - clippedShare k nD2 ∧
      legs s k nD1 nD2 false = clippedShare k (scale - nD2) - clippedShare s (scale - nD1) := by
  have hs1 := clippedShare_mem hs.le hD1.1 hD1.2
  have hk2 := clippedShare_mem hk.le hD2.1 hD2.2
  have hs1' := clippedShare_mem (n := scale - nD1) hs.le (by omega) (by omega)
  have hk2' := clippedShare_mem (n := scale - nD2) hk.le (by omega) (by omega)
  unfold legs
  rw [share_eq hs.le hD1.1,share_eq hk.le hD2.1,share_eq hs.le (by omega),
    share_eq hk.le (by omega)]
  refine ⟨?_,?_⟩
  · exact wrapSub_of_nonneg hs1.1 (hs1.2.trans hsMax) hk2.1 (hk2.2.trans hkMax)
  · exact wrapSub_of_nonneg hk2'.1 (hk2'.2.trans hkMax) hs1'.1 (hs1'.2.trans hsMax)

theorem coherent_of_degenerate (hs : 0 < s) (hsMax : s ≤ i128Max) (hk : 0 < k)
    (hkMax : k ≤ i128Max) (hdegenerate : degenerate sigma t = true) :
    Coherent s k sigma t (optionValue s k sigma t true) (optionValue s k sigma t false) := by
  have hcall : unclamped s k sigma t true = s - k := by
    rw [unclamped,hdegenerate]
    exact wrapSub_of_nonneg hs.le hsMax hk.le hkMax
  have hput : unclamped s k sigma t false = k - s := by
    rw [unclamped,hdegenerate]
    exact wrapSub_of_nonneg hk.le hkMax hs.le hsMax
  rw [optionValue_eq,optionValue_eq,hcall,hput]
  refine ⟨fun hle hge => ?_,by omega,by omega⟩
  rw [show s = k by omega]
  simp

/-- The values of a call and its put are coherent exactly if their amounts are evenly cut. -/
theorem coherent_iff (hs : 0 < s) (hsMax : s ≤ i128Max) (hk : 0 < k) (hkMax : k ≤ i128Max) :
    Coherent s k sigma t (optionValue s k sigma t true) (optionValue s k sigma t false) ↔
      ParityHolds s k sigma t := by
  unfold ParityHolds
  cases hdegenerate : degenerate sigma t with
  | true =>
    exact iff_of_true (coherent_of_degenerate hs hsMax hk hkMax hdegenerate) fun h => by cases h
  | false =>
    obtain ⟨nD1,hnD1⟩ : ∃ n, n = normalCdf (dOne s k sigma t) := ⟨_,rfl⟩
    obtain ⟨nD2,hnD2⟩ : ∃ n, n = normalCdf (dTwo s k sigma t) := ⟨_,rfl⟩
    have hD1 : 0 ≤ nD1 ∧ nD1 ≤ scale := hnD1 ▸ normalCdf_mem _
    have hD2 : 0 ≤ nD2 ∧ nD2 ≤ scale := hnD2 ▸ normalCdf_mem _
    have hs1 := clippedShare_mem hs.le hD1.1 hD1.2
    have hk2 := clippedShare_mem hk.le hD2.1 hD2.2
    have hs1' := clippedShare_mem (n := scale - nD1) hs.le (by omega) (by omega)
    have hk2' := clippedShare_mem (n := scale - nD2) hk.le (by omega) (by omega)
    obtain ⟨hcall,hput⟩ := legs_eq hs hsMax hk hkMax hD1 hD2
    unfold Coherent EvenlyCut
    rw [optionValue_eq,optionValue_eq,unclamped,unclamped,hdegenerate,
      if_neg Bool.false_ne_true,if_neg Bool.false_ne_true,← hnD1,← hnD2,hcall,hput,
      and_iff_left ⟨by omega,by omega⟩,forall_prop_of_true rfl,Int.sub_nonneg,Int.sub_nonneg]
    refine forall₂_congr fun hcallPos hputPos => ?_
    rw [max_eq_left (Int.sub_nonneg.2 hcallPos),max_eq_left (Int.sub_nonneg.2 hputPos)]
    have hprice := clippedShare_add s nD1
    have hstrike := clippedShare_add k nD2
    have hdifference : clippedShare s nD1 - clippedShare k nD2 -
        (clippedShare k (scale - nD2) - clippedShare s (scale - nD1)) - (s - k) =
          lost k nD2 - lost s nD1 := by omega
    rw [hdifference]

theorem parityHolds_of_fits (hs : 0 ≤ s) (hk : 0 ≤ k) (hsFits : s * scale ≤ i128Max)
    (hkFits : k * scale ≤ i128Max) : ParityHolds s k sigma t := by
  intro _ _ _
  have hlostS := lost_mem hsFits hs (normalCdf_mem (dOne s k sigma t)).1
    (normalCdf_mem (dOne s k sigma t)).2
  have hlostK := lost_mem hkFits hk (normalCdf_mem (dTwo s k sigma t)).1
    (normalCdf_mem (dTwo s k sigma t)).2
  rw [abs_le]
  omega

end Values

section Prices

variable {env : Env} {st : Store} {resolve : Address → Except ErrorCode Int} {underlying : Address}
  {expiry : Nat} {s : Int} {config : AssetPricingConfig}

theorem computeOptionPrice_eq (strike : Nat) (hprice : resolve underlying = .ok s) (hs : 0 < s)
    (hlive : env.timestamp < expiry) (hconfig : st.exotic underlying = some config)
    (isCall : Bool) :
    st.computeOptionPrice env resolve underlying strike expiry isCall =
      .ok (optionValue s (wrap strike) (sigmaOf config) (yearsTo expiry env.timestamp) isCall) := by
  unfold Store.computeOptionPrice
  rw [hprice]
  change (if s ≤ 0 then _ else _) = _
  rw [if_neg (by omega),if_neg (by omega),hconfig]

end Prices

/-- The prices of a call and its put on one underlying are coherent exactly if saturation cuts the
legs of the price and of the strike evenly. -/
theorem option_parity_iff (env : Env) (st : Store) (resolve : Address → Except ErrorCode Int)
    (underlying : Address) (strike expiry : Nat) (s : Int) (config : AssetPricingConfig)
    (hprice : resolve underlying = .ok s) (hs : 0 < s) (hsMax : s ≤ i128Max) (hk : 0 < strike)
    (hkMax : strike < 2 ^ 127) (hlive : env.timestamp < expiry)
    (hconfig : st.exotic underlying = some config) :
    (∃ c p : Int, st.computeOptionPrice env resolve underlying strike expiry true = .ok c ∧
      st.computeOptionPrice env resolve underlying strike expiry false = .ok p ∧
      Coherent s strike (sigmaOf config) (yearsTo expiry env.timestamp) c p) ↔
      ParityHolds s strike (sigmaOf config) (yearsTo expiry env.timestamp) := by
  have hstrikeMax : (strike : Int) ≤ i128Max := by
    unfold i128Max
    omega
  have hstrike : wrap strike = strike :=
    wrap_of_isI128 ⟨le_trans (by decide) (Int.natCast_nonneg strike),hstrikeMax⟩
  have hcall := computeOptionPrice_eq strike hprice hs hlive hconfig true
  have hput := computeOptionPrice_eq strike hprice hs hlive hconfig false
  rw [hstrike] at hcall hput
  rw [← coherent_iff hs hsMax (by omega) hstrikeMax,hcall,hput]
  constructor
  · rintro ⟨c,p,hc,hp,hcoherent⟩
    rw [Except.ok.injEq] at hc hp
    rwa [hc,hp]
  · intro hcoherent
    exact ⟨_,_,rfl,rfl,hcoherent⟩

/-- A contract with a price of asset 1, whose volatility is a fifth. -/
def optionStore (price : Int) : Store :=
  { ({} : Store) with
    exotic := fun _ => some ⟨.direct, true, 2000⟩
    aggregate := fun _ => some ⟨price, 5, 3, 18, false, 1⟩ }

/-- The value of asset 1, below an option that asset 2 is. -/
def optionUnderlying (price : Int) (asset : Address) : Except ErrorCode Int :=
  (optionStore price).resolvePrice (.concrete 5 100 []) maxResolutionDepth [2] asset

theorem hundred_units_coherent : ∃ c p : Int,
    (optionStore (100 * 10 ^ 18)).computeOptionPrice (.concrete 5 100 [])
      (optionUnderlying (100 * 10 ^ 18)) 1 (90 * 10 ^ 18) 31536100 true = .ok c ∧
    (optionStore (100 * 10 ^ 18)).computeOptionPrice (.concrete 5 100 [])
      (optionUnderlying (100 * 10 ^ 18)) 1 (90 * 10 ^ 18) 31536100 false = .ok p ∧
    Coherent (100 * 10 ^ 18) (90 * 10 ^ 18 : Nat) (sigmaOf ⟨.direct, true, 2000⟩)
      (yearsTo 31536100 100) c p :=
  (option_parity_iff (.concrete 5 100 []) (optionStore (100 * 10 ^ 18))
    (optionUnderlying (100 * 10 ^ 18)) 1 (90 * 10 ^ 18) 31536100 (100 * 10 ^ 18)
    ⟨.direct,true,2000⟩ (by decide) (by decide) (by decide) (by decide) (by decide) (by decide)
    rfl).2 (parityHolds_of_fits (by decide) (by decide) (by decide) (by decide))

/-- A call at nine tenths of a price of a thousand units is worth nothing, and so is its put. -/
theorem thousand_units_worthless :
    let call := (optionStore (1000 * 10 ^ 18)).computeOptionPrice (.concrete 5 100 [])
      (optionUnderlying (1000 * 10 ^ 18)) 1 (900 * 10 ^ 18) 31536100 true
    let put := (optionStore (1000 * 10 ^ 18)).computeOptionPrice (.concrete 5 100 [])
      (optionUnderlying (1000 * 10 ^ 18)) 1 (900 * 10 ^ 18) 31536100 false
    call = .ok 0 ∧ put = .ok 0 ∧
      ¬Coherent (1000 * 10 ^ 18) (900 * 10 ^ 18 : Nat) (sigmaOf ⟨.direct, true, 2000⟩)
        (yearsTo 31536100 100) 0 0 := by
  refine ⟨by decide +kernel,by decide +kernel,fun hcoherent => ?_⟩
  have hclose := hcoherent.1 (by decide +kernel) (by decide +kernel)
  revert hclose
  decide

end PriceOracle.Exotic
