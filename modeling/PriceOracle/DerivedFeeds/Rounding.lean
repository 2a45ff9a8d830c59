import PriceOracle.Model.DerivedFeeds
import PriceOracle.Model.Pricing
import Mathlib.Algebra.Order.Floor.Div
import Mathlib.Tactic.Ring
import Mathlib.Tactic.Linarith

/-! # Rounding of derived prices

A quotient is exact as long as the product in front of it fits 128 bits. The product of an ordinary
price and a scale of 18 decimals need not: what is left of it is divided as if it were the product. -/

namespace PriceOracle.DerivedFeeds

open Model Model.DerivedFeeds Lib.MachineInt
open Model.Pricing (IsPrice)

section Floors

variable {n c p q : Nat}

theorem div_mul_div_le (n p q : Nat) : n / p * p / q ≤ n / q :=
  Nat.div_le_div_right (Nat.div_mul_le_self n p)

theorem add_div_le (n p : Nat) (hq : 0 < q) : (n + p) / q ≤ n / q + p / q + 1 := by
  rw [Nat.add_div hq]
  split_ifs <;> omega

theorem div_le_div_mul_div (n : Nat) (hp : 0 < p) (hq : 0 < q) :
    n / q ≤ n / p * p / q + 1 + p / q := by
  have hdropped : n ≤ n / p * p + p := (Nat.lt_div_mul_add hp).le
  have hfloor := Nat.div_le_div_right (c := q) hdropped
  have hsum := add_div_le (n / p * p) p hq
  omega

theorem mod_div_add_two_le (hc : 0 < c) (hc' : c < 2 ^ 127) (hn : 2 ^ 128 ≤ n) :
    n % 2 ^ 128 / c + 2 ≤ n / c := by
  have hshort : n % 2 ^ 128 + 2 * c ≤ n := by omega
  rw [← Nat.add_mul_div_right _ _ hc]
  exact Nat.div_le_div_right hshort

end Floors

/-- The quotients of `n` by `c` that `mul_div` gets right: the product fits, or what is left of it is
refused as a result. -/
def Fits (n c : Int) : Prop := n < 2 ^ 128 ∨ c = 1 ∧ 2 ^ 127 ≤ n % 2 ^ 128

/-- The same for a cross rate. Beyond a product that fits and results that are refused, quotes above a
third of `2 ^ 128` leave so little of the quotient that the margin of the rounding may hide the
error. -/
def CrossFits (n pivot quote : Int) : Prop :=
  let left := n % 2 ^ 128
  let leg := left / pivot * pivot
  n < 2 ^ 128 ∨ pivot = 1 ∧ 2 ^ 127 ≤ left ∨ quote = 1 ∧ 2 ^ 127 ≤ leg ∨
    quote ≤ pivot ∧ n < leg / quote * quote + 3 * quote

section Division

variable {a b c : Nat}

theorem toU128_natCast {a : Nat} (ha : a < 2 ^ 128) : toU128 a = a := by
  unfold toU128
  omega

theorem mulDiv_natCast (ha : a < 2 ^ 127) (hb : b < 2 ^ 127) (hc : 0 < c) (hc' : c < 2 ^ 127) :
    mulDiv a b c =
      if 2 ^ 127 ≤ a * b % 2 ^ 128 / c then .error .invalidConfiguration
      else .ok (a * b % 2 ^ 128 / c : Nat) := by
  have hpos : ¬ (c : Int) ≤ 0 := by omega
  simp only [mulDiv,hpos,ite_false,wrap128,toU128_natCast (show a < 2 ^ 128 by omega),
    toU128_natCast (show b < 2 ^ 128 by omega),toU128_natCast (show c < 2 ^ 128 by omega)]
  refine if_congr ?_ rfl rfl
  unfold i128Max
  omega

/-- Only a division by one leaves a quotient that is out of range. -/
theorem le_div_iff_one {m : Nat} (hm : m < 2 ^ 128) (hc : 0 < c) :
    2 ^ 127 ≤ m / c ↔ c = 1 ∧ 2 ^ 127 ≤ m := by
  constructor
  · intro h
    have hone : c = 1 := by
      by_contra hne
      have hhalf : m / c ≤ m / 2 := Nat.div_le_div_left (by omega) (by omega)
      omega
    subst hone
    exact ⟨rfl,by rwa [Nat.div_one] at h⟩
  · rintro ⟨rfl,h⟩
    rwa [Nat.div_one]

theorem mulDiv_exact_iff (ha : a < 2 ^ 127) (hb : b < 2 ^ 127) (hc : 0 < c) (hc' : c < 2 ^ 127) :
    (∀ v, mulDiv a b c = .ok v → v = (a * b / c : Nat)) ↔
      a * b < 2 ^ 128 ∨ c = 1 ∧ 2 ^ 127 ≤ a * b % 2 ^ 128 := by
  have hleft : a * b % 2 ^ 128 < 2 ^ 128 := Nat.mod_lt _ (by decide)
  rw [mulDiv_natCast ha hb hc hc',← le_div_iff_one hleft hc]
  constructor
  · intro hexact
    by_contra! hwrapped
    rw [if_neg (by omega)] at hexact
    have hvalue := hexact _ rfl
    have hshort := mod_div_add_two_le hc hc' hwrapped.1
    omega
  · rintro (hfits | hrefused) v hv
    · rw [Nat.mod_eq_of_lt hfits] at hv
      split_ifs at hv
      cases hv
      rfl
    · rw [if_pos hrefused] at hv
      cases hv

end Division

section Triangulation

variable {base pivot quote scale v : Nat}

theorem triangulate_natCast (hbase : base < 2 ^ 127) (hscale : scale < 2 ^ 127) (hpivot : 0 < pivot)
    (hpivot' : pivot < 2 ^ 127) (hquote : 0 < quote) (hquote' : quote < 2 ^ 127) :
    triangulate base pivot quote scale =
      if 2 ^ 127 ≤ base * scale % 2 ^ 128 / pivot ∨
          2 ^ 127 ≤ base * scale % 2 ^ 128 / pivot * pivot / quote then
        .error .invalidConfiguration
      else .ok (base * scale % 2 ^ 128 / pivot * pivot / quote : Nat) := by
  have hpivot0 : ¬ (pivot : Int) = 0 := by omega
  have hquote0 : ¬ (quote : Int) = 0 := by omega
  have hleg := Nat.div_mul_le_self (base * scale % 2 ^ 128) pivot
  simp only [triangulate,hpivot0,hquote0,ite_false,mulDiv_natCast hbase hscale hpivot hpivot']
  by_cases hrefused : 2 ^ 127 ≤ base * scale % 2 ^ 128 / pivot
  · simp only [hrefused,true_or,if_true]
    rfl
  · simp only [hrefused,false_or,if_false]
    change mulDiv _ pivot quote = _
    rw [mulDiv_natCast (by omega) hpivot' hquote hquote',Nat.mod_eq_of_lt (by omega)]

/-- The rounding of a cross rate `v` of `n` stays within its margin. -/
def Within (n pivot quote v : Nat) : Prop := v ≤ n / quote ∧ n / quote ≤ v + 1 + pivot / quote

theorem within_of_lt {n : Nat} (hpivot : 0 < pivot) (hquote : 0 < quote) (hn : n < 2 ^ 128) :
    Within n pivot quote (n % 2 ^ 128 / pivot * pivot / quote) := by
  rw [Nat.mod_eq_of_lt hn]
  exact ⟨div_mul_div_le n pivot quote,div_le_div_mul_div n hpivot hquote⟩

/-- A wrapped product is within the margin only if the modulus is less than three quotes. -/
theorem within_iff_of_le {n leg : Nat} (hpivot' : pivot < 2 ^ 127) (hquote : 0 < quote)
    (hquote' : quote < 2 ^ 127) (hleg : leg + 2 ^ 128 ≤ n) :
    Within n pivot quote (leg / quote) ↔
      quote ≤ pivot ∧ n < leg / quote * quote + 3 * quote := by
  have hbelow : leg / quote ≤ n / quote := Nat.div_le_div_right (by omega)
  have hthree : n < leg / quote * quote + 3 * quote ↔ n / quote < leg / quote + 3 := by
    rw [Nat.div_lt_iff_lt_mul hquote,Nat.add_mul]
  constructor
  · rintro ⟨-,habove⟩
    -- the lost modulus is worth at least twice the pivot
    have hlost : leg / quote + 2 ^ 128 / quote ≤ n / quote :=
      Nat.div_add_div_le_add_div.trans (Nat.div_le_div_right hleg)
    have htwice : 2 * (pivot / quote) ≤ 2 ^ 128 / quote := by
      have hdouble : 2 * (pivot / quote) ≤ 2 * pivot / quote := Nat.mul_div_le_mul_div_assoc _ _ _
      exact hdouble.trans (Nat.div_le_div_right (by omega))
    have htwo : 2 ≤ 2 ^ 128 / quote := (Nat.le_div_iff_mul_le hquote).2 (by omega)
    have hshare : pivot / quote ≠ 0 := by omega
    exact ⟨Nat.le_of_not_lt fun h => hshare (Nat.div_eq_of_lt h),by omega⟩
  · rintro ⟨hshare,hnear⟩
    have hone : 1 ≤ pivot / quote := (Nat.one_le_div_iff hquote).2 hshare
    exact ⟨hbelow,by omega⟩

theorem triangulate_within_iff (hbase : base < 2 ^ 127) (hscale : scale < 2 ^ 127)
    (hpivot : 0 < pivot) (hpivot' : pivot < 2 ^ 127) (hquote : 0 < quote)
    (hquote' : quote < 2 ^ 127) :
    (∀ v : Int, triangulate base pivot quote scale = .ok v →
        v ≤ (base * scale / quote : Nat) ∧
          ((base * scale / quote : Nat) : Int) ≤ v+1 + (pivot / quote : Nat)) ↔
      base * scale < 2 ^ 128 ∨ pivot = 1 ∧ 2 ^ 127 ≤ base * scale % 2 ^ 128 ∨
      quote = 1 ∧ 2 ^ 127 ≤ base * scale % 2 ^ 128 / pivot * pivot ∨
      quote ≤ pivot ∧ base * scale <
        base * scale % 2 ^ 128 / pivot * pivot / quote * quote + 3 * quote := by
  have hleft : base * scale % 2 ^ 128 < 2 ^ 128 := Nat.mod_lt _ (by decide)
  have hleg := Nat.div_mul_le_self (base * scale % 2 ^ 128) pivot
  rw [triangulate_natCast hbase hscale hpivot hpivot' hquote hquote',
    ← le_div_iff_one hleft hpivot,← le_div_iff_one (hleg.trans_lt hleft) hquote]
  generalize hn : base * scale = n at *
  constructor
  · intro hwithin
    by_contra! hwrong
    rw [if_neg (by omega)] at hwithin
    have hvalue : Within n pivot quote (n % 2 ^ 128 / pivot * pivot / quote) := by
      exact_mod_cast hwithin _ rfl
    have hmargin := (within_iff_of_le hpivot' hquote hquote' (by omega)).1 hvalue
    omega
  · intro hright v hv
    split_ifs at hv with hrefused
    have hvalue : Within n pivot quote (n % 2 ^ 128 / pivot * pivot / quote) := by
      by_cases hfits : n < 2 ^ 128
      · exact within_of_lt hpivot hquote hfits
      · rw [within_iff_of_le hpivot' hquote hquote' (by omega)]
        tauto
    rw [← Except.ok.inj hv]
    exact_mod_cast hvalue

end Triangulation

deriving instance Decidable for Fits

deriving instance Decidable for CrossFits

section Scale

variable {decimals : Nat} {scale : Int}

theorem nextScale_pow {d : Nat} (hd : d < 18) : nextScale (10 ^ d) = .ok (10 ^ (d+1)) := by
  have hle : (10 : Int) ^ (d+1) ≤ 10 ^ 18 := pow_le_pow_right₀ (by decide) hd
  have hpos : (0 : Int) < 10 ^ (d+1) := by positivity
  have hfits : i128Min ≤ (10 : Int) ^ (d+1) ∧ (10 : Int) ^ (d+1) ≤ i128Max :=
    ⟨(show i128Min ≤ 0 by decide).trans hpos.le,hle.trans (by decide)⟩
  rw [nextScale,checkedMul,← pow_succ,if_pos hfits]

theorem scaleFor_loop {d : Nat} (hd : d ≤ 18) :
    (List.range d).foldlM (fun scale _ => nextScale scale) 1 =
      (.ok (10 ^ d) : Except ErrorCode Int) := by
  induction d with
  | zero => rfl
  | succ d ih =>
    rw [List.range_succ,List.foldlM_append,ih (Nat.le_of_succ_le hd)]
    simp [bind,Except.bind,pure,Except.pure,nextScale_pow hd]

theorem scaleFor_ok_iff : scaleFor decimals = .ok scale ↔ decimals ≤ 18 ∧ scale = 10 ^ decimals := by
  unfold scaleFor maxDerivationDecimals
  by_cases hd : decimals ≤ 18
  · rw [if_neg (by omega),scaleFor_loop hd]
    simp [hd,eq_comm]
  · rw [if_pos (by omega)]
    simp [hd]

end Scale

/-- `mul_div`, and with it the ratio, is an exact floor or panics exactly if the product fits or what
is left of it is refused. Inverses always are. A cross rate is within its margin below the exact one
exactly if the product of the base and the scale fits, or what is left of it is refused, or hides in
the margin. -/
theorem derivations_exact_iff {a b c base pivot quote scale : Int} {decimals : Nat}
    (ha : 0 ≤ a ∧ a ≤ i128Max) (hb : 0 ≤ b ∧ b ≤ i128Max) (hc : IsPrice c) (hbase : IsPrice base)
    (hpivot : IsPrice pivot) (hquote : IsPrice quote) (hscale : scaleFor decimals = .ok scale) :
    ((∀ v, mulDiv a b c = .ok v → v = a * b / c) ↔ Fits (a * b) c) ∧
    ((∀ v, ratio base quote scale = .ok v → v = base * scale / quote) ↔
      Fits (base * scale) quote) ∧
    (∀ v, invert base scale = .ok v → v = scale * scale / base) ∧
    ((∀ v, triangulate base pivot quote scale = .ok v →
        v ≤ base * scale / quote ∧ base * scale / quote ≤ v + 1 + pivot / quote) ↔
      CrossFits (base * scale) pivot quote) := by
  obtain ⟨hdecimals,rfl⟩ := scaleFor_ok_iff.1 hscale
  have hpow : (10 : Nat) ^ decimals ≤ 10 ^ 18 := Nat.pow_le_pow_right (by decide) hdecimals
  have hpow0 : 0 < (10 : Nat) ^ decimals := by positivity
  unfold IsPrice IsI128 i128Max at *
  lift a to Nat using ha.1
  lift b to Nat using hb.1
  lift c to Nat using hc.1.le
  lift base to Nat using hbase.1.le
  lift pivot to Nat using hpivot.1.le
  lift quote to Nat using hquote.1.le
  rw [show ((10 : Int) ^ decimals) = ((10 ^ decimals : Nat) : Int) by push_cast; rfl]
  generalize (10 : Nat) ^ decimals = scale at *
  have hquote0 : ¬(quote : Int) = 0 := by omega
  have hbase0 : ¬(base : Int) = 0 := by omega
  refine ⟨?_,?_,?_,?_⟩
  · have hexact := mulDiv_exact_iff (a := a) (b := b) (c := c) (by omega) (by omega) (by omega)
      (by omega)
    unfold Fits
    exact_mod_cast hexact
  · have hexact := mulDiv_exact_iff (a := base) (b := scale) (c := quote) (by omega) (by omega)
      (by omega) (by omega)
    unfold Fits
    rw [ratio,if_neg hquote0]
    exact_mod_cast hexact
  · have hproduct : scale * scale < 2 ^ 128 := by nlinarith
    have hexact := (mulDiv_exact_iff (a := scale) (b := scale) (c := base) (by omega) (by omega)
      (by omega) (by omega)).2 (.inl hproduct)
    rw [invert,if_neg hbase0]
    exact_mod_cast hexact
  · have hwithin := triangulate_within_iff (show base < 2 ^ 127 by omega)
      (show scale < 2 ^ 127 by omega) (show 0 < pivot by omega) (by omega) (show 0 < quote by omega)
      (by omega)
    dsimp only [CrossFits]
    exact_mod_cast hwithin

/-- Prices of 100, 3 and 7 at 8 decimals: the ratio of the first to the last, and their cross rate by
way of the second. -/
theorem derivations_exact_small :
    (∀ v, ratio (100 * 10 ^ 8) (7 * 10 ^ 8) (10 ^ 8) = .ok v → v = 1428571428) ∧
    ∀ v, triangulate (100 * 10 ^ 8) (3 * 10 ^ 8) (7 * 10 ^ 8) (10 ^ 8) = .ok v →
      v ≤ 1428571428 ∧ 1428571428 ≤ v + 1 := by
  have hprice : IsPrice (100 * 10 ^ 8) ∧ IsPrice (3 * 10 ^ 8) ∧ IsPrice (7 * 10 ^ 8) := by decide
  have hscale : scaleFor 8 = .ok (10 ^ 8) := by decide
  obtain ⟨-,hratio,-,hcross⟩ := derivations_exact_iff (a := 1) (b := 1) (c := 1) (by decide)
    (by decide) (by decide) hprice.1 hprice.2.1 hprice.2.2 hscale
  exact ⟨hratio.2 (by decide),by simpa using hcross.2 (by decide)⟩

/-- Four hundred to one at 18 decimals: the product of the price and the scale is above `2 ^ 128`. -/
theorem wide_ratio_wraps :
    ratio (400 * 10 ^ 18) (10 ^ 18) (10 ^ 18) = .ok 59717633079061536536 ∧
      scaleFor 18 = .ok (10 ^ 18) ∧ (400 * 10 ^ 18 : Int) * 10 ^ 18 / 10 ^ 18 = 400 * 10 ^ 18 := by
  decide +kernel

end PriceOracle.DerivedFeeds
