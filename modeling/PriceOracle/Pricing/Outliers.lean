import PriceOracle.Model.Screening
import PriceOracle.Pricing.Sorting
import Mathlib.Data.List.Count

/-! # The outlier filter

A price is excluded when its score reaches the sensitivity. The deviation score is measured from the
median. The interquartile score is measured from the fence, which already lies the sensitivity away
from the quartiles, so that a price past the fence stays until it is that far away a second time. -/

namespace PriceOracle.Outliers

open Lib.MachineInt Lib.OrderStatistic Model Model.Outlier Pricing

section Documented

variable (cfg : OutlierConfig) (prices : List Int) (x : Int)

def lowerQuartile : Int := (kth prices ((prices.length - 1) / 4)).getD 0

def upperQuartile : Int := (kth prices ((3 * (prices.length - 1) + 3) / 4)).getD 0

def spread : Int := upperQuartile prices - lowerQuartile prices

def fence : Int := spread prices * cfg.sensitivityBps / 10000

/-- The median absolute deviation, exactly, and scaled to a standard deviation. -/
def deviation : Int := sortedMedian (prices.map fun v => |v - sortedMedian prices|)

def scaledDeviation : Int := deviation prices * 14826 / 10000

/-- The price is more than `k` times the spread away from the quartiles. -/
def OutsideFence : Prop :=
  spread prices * cfg.sensitivityBps < 10000 * (x - upperQuartile prices) ∨
    spread prices * cfg.sensitivityBps < 10000 * (lowerQuartile prices - x)

/-- The price is past the fence by `k` times the spread. -/
def FarOutside : Prop :=
  spread prices * cfg.sensitivityBps ≤ 10000 * (x - (upperQuartile prices + fence cfg prices)) ∨
    spread prices * cfg.sensitivityBps ≤ 10000 * (lowerQuartile prices - fence cfg prices - x)

/-- What is computed on the way is representable. -/
structure NoOverflow : Prop where
  spread : cfg.detector = 2 → spread prices * cfg.sensitivityBps ≤ i128Max
  fence : cfg.detector = 2 → upperQuartile prices + fence cfg prices ≤ i128Max
  past : cfg.detector = 2 → ∀ x ∈ prices,
    10000 * (x - (upperQuartile prices + Outliers.fence cfg prices)) < 2 ^ 128 ∧
      10000 * (lowerQuartile prices - Outliers.fence cfg prices - x) < 2 ^ 128
  deviation : cfg.detector = 1 → deviation prices * 14826 ≤ i128Max
  distance : cfg.detector = 1 → ∀ x ∈ prices, 10000 * |x - sortedMedian prices| < 2 ^ 128

/-- The filter as documented. -/
structure AsDocumented : Prop where
  interquartile : cfg.detector = 2 → lowerQuartile prices < upperQuartile prices →
    ∀ (i : Nat) x, prices[i]? = some x →
      ((keepMask cfg prices)[i]? = some false ↔ OutsideFence cfg prices x)
  deviation : cfg.detector = 1 → 0 < scaledDeviation prices → ∀ (i : Nat) x,
    prices[i]? = some x → ((keepMask cfg prices)[i]? = some false ↔
      cfg.sensitivityBps * scaledDeviation prices ≤ |x - sortedMedian prices| * 10000)
  permuted : ∀ ps : List Int, ps.Perm prices → ∀ i j : Nat, ps[i]? = prices[j]? →
    (keepMask cfg ps)[i]? = (keepMask cfg prices)[j]?
  majority : prices.length ≤ 2 * (keepMask cfg prices).count true

end Documented

section Verdicts

variable {cfg : OutlierConfig} {prices ps : List Int}

def verdict (cfg : OutlierConfig) (prices : List Int) (x : Int) : Bool :=
  !(applies cfg prices && (scoreOf (sort prices) x cfg).1)

theorem scores_eq (hcount : prices.length ≤ 128) :
    scores cfg prices = prices.map fun x => scoreOf (sort prices) x cfg := by
  unfold scores
  rw [List.take_of_length_le hcount]

theorem keepMask_eq (hcount : prices.length ≤ 128) :
    keepMask cfg prices = prices.map (verdict cfg prices) := by
  unfold keepMask verdict
  rw [scores_eq hcount]
  cases applies cfg prices with
  | true => simp
  | false => simp

theorem sort_perm (h : ps.Perm prices) : sort ps = sort prices := by
  have hperm : (sort ps).Perm (sort prices) :=
    ((List.perm_insertionSort _ ps).trans h).trans (List.perm_insertionSort _ prices).symm
  exact hperm.eq_of_pairwise' (List.pairwise_insertionSort _ ps)
    (List.pairwise_insertionSort _ prices)

theorem verdict_perm (h : ps.Perm prices) (hcount : prices.length ≤ 128) :
    verdict cfg ps = verdict cfg prices := by
  have hlen := h.length_eq
  have hscores : (scores cfg ps).Perm (scores cfg prices) := by
    rw [scores_eq (hlen.trans_le hcount),scores_eq hcount,sort_perm h]
    exact h.map _
  have happlies : applies cfg ps = applies cfg prices := by
    unfold applies
    rw [(hscores.filter Prod.fst).length_eq,hlen]
  unfold verdict
  rw [happlies,sort_perm h]

theorem keepMask_permuted (h : ps.Perm prices) (hcount : prices.length ≤ 128) {i j : Nat}
    (hij : ps[i]? = prices[j]?) : (keepMask cfg ps)[i]? = (keepMask cfg prices)[j]? := by
  rw [keepMask_eq (h.length_eq.trans_le hcount),keepMask_eq hcount,List.getElem?_map,
    List.getElem?_map,hij,verdict_perm h hcount]

theorem keepMask_majority (cfg : OutlierConfig) (prices : List Int) :
    prices.length ≤ 2 * (keepMask cfg prices).count true := by
  unfold keepMask
  by_cases happlies : applies cfg prices = true
  · rw [if_pos happlies]
    have hfew := happlies
    unfold applies at hfew
    rw [decide_eq_true_eq] at hfew
    have hlen : (scores cfg prices).length = prices.length := by simp [scores]
    have hsplit : (scores cfg prices).length =
        (scores cfg prices).countP Prod.fst + (scores cfg prices).countP fun s => !s.1 := by
      rw [List.length_eq_countP_add_countP Prod.fst]
      simp
    have hkept : ((scores cfg prices).map fun s => !s.1).count true =
        (scores cfg prices).countP fun s => !s.1 := by
      rw [List.count,List.countP_map]
      congr 1
      funext s
      simp
    have hdropped := hfew.2
    rw [← List.countP_eq_length_filter] at hdropped
    omega
  · rw [if_neg happlies,List.map_const',List.count_replicate_self]
    omega

end Verdicts

section Scores

variable {cfg : OutlierConfig} {prices : List Int} {x : Int}

theorem le_clampScore_iff {sensitivity d scale : Nat} (hscale : 0 < scale)
    (hsensitivity : sensitivity ≤ u32Max) :
    sensitivity ≤ clampScore (d / scale) ↔ sensitivity * scale ≤ d := by
  unfold clampScore
  rw [Nat.le_min,and_iff_left hsensitivity,Nat.le_div_iff_mul_le hscale]

theorem get_sort (prices : List Int) (i : Nat) :
    Model.Pricing.get (sort prices) i = (kth prices i).getD 0 := get_insertionSort prices i

theorem quartiles_bounds (hmany : 4 ≤ prices.length) (hps : ∀ p ∈ prices, IsPrice p) :
    IsPrice (lowerQuartile prices) ∧ IsPrice (upperQuartile prices) := by
  have hbounds : ∀ p ∈ prices, 1 ≤ p ∧ p ≤ i128Max := fun p hp => ⟨(hps p hp).1,(hps p hp).2.2⟩
  constructor
  · exact isPrice_of_between (kth_between (by omega) hbounds)
  · exact isPrice_of_between (kth_between (by omega) hbounds)

theorem iqrScore_scale {sensitivity : Nat} (hmany : 4 ≤ prices.length)
    (hps : ∀ p ∈ prices, IsPrice p) (hspread : lowerQuartile prices < upperQuartile prices) :
    (iqrScore (sort prices) x sensitivity).2.2 = spread prices := by
  obtain ⟨⟨hl,-,hlmax⟩,hu,-,humax⟩ := quartiles_bounds hmany hps
  have hlen : (sort prices).length = prices.length := List.length_insertionSort _ _
  have hfirst : (kth prices ((prices.length - 1) / 4)).getD 0 = lowerQuartile prices := rfl
  have hthird : (kth prices ((3 * (prices.length - 1) + 3) / 4)).getD 0 =
      upperQuartile prices := rfl
  have hiqr : wrapSub (upperQuartile prices) (lowerQuartile prices) = spread prices :=
    wrap_of_isI128 (by unfold IsI128 i128Min; unfold i128Max at *; omega)
  have hscale : 0 < spread prices := sub_pos.2 hspread
  unfold iqrScore
  simp only [hlen,get_sort,hfirst,hthird,hiqr,if_neg (not_le.2 hscale)]
  split_ifs <;> rfl

theorem sensitivity_le_score_iff {scale d : Int} {sensitivity : Nat} (hscale : 0 < scale)
    (hsensitivity : sensitivity ≤ u32Max) (hd : 0 < d) (hdmax : 10000 * d < 2 ^ 128)
    (hdfits : d ≤ i128Max) :
    sensitivity ≤ clampScore (wrap128 (toU128 (wrap d) * 10000) / scale.toNat) ↔
      scale * (sensitivity : Int) ≤ 10000 * d := by
  have hbits : toU128 (wrap d) = d.toNat := by
    rw [wrap_of_isI128 (by unfold IsI128 i128Min; omega),toU128,Int.emod_eq_of_lt] <;> omega
  have hexact : wrap128 (d.toNat * 10000) = d.toNat * 10000 := by
    unfold wrap128
    omega
  have hnat : (scale.toNat : Int) = scale := Int.toNat_of_nonneg hscale.le
  rw [hbits,hexact,le_clampScore_iff (by omega) hsensitivity,← Int.ofNat_le,Int.natCast_mul,
    Int.natCast_mul,hnat,Int.mul_comm (sensitivity : Int)]
  omega

/-- The interquartile verdict: past the fence, and once more as far as the fence from the
quartile. -/
theorem iqrScore_iff (hmany : 4 ≤ prices.length) (hps : ∀ p ∈ prices, IsPrice p)
    (hfits : NoOverflow cfg prices) (hsensitivity : cfg.sensitivityBps ≤ u32Max)
    (hpos : 0 < cfg.sensitivityBps) (hdetector : cfg.detector = 2)
    (hspread : lowerQuartile prices < upperQuartile prices) (hx : x ∈ prices) :
    (scoreOf (sort prices) x cfg).1 = true ↔
      OutsideFence cfg prices x ∧ FarOutside cfg prices x := by
  obtain ⟨⟨hl,-,hlmax⟩,hu,-,humax⟩ := quartiles_bounds hmany hps
  obtain ⟨hx0,-,hxmax⟩ := hps x hx
  have hfence := hfits.fence hdetector
  have hproduct := hfits.spread hdetector
  have hpast := hfits.past hdetector x hx
  have hlen : (sort prices).length = prices.length := List.length_insertionSort _ _
  unfold OutsideFence FarOutside
  unfold Outliers.fence at *
  unfold Outliers.spread at *
  set q1 := lowerQuartile prices with hq1
  set q3 := upperQuartile prices with hq3
  set product := (q3 - q1) * (cfg.sensitivityBps : Int) with hprod
  have hproduct0 : 0 < product := Int.mul_pos (by omega) (by omega)
  have hiqr : wrapSub q3 q1 = q3 - q1 := wrap_of_isI128 (by unfold IsI128 i128Min; omega)
  have hmul : wrapMul (q3 - q1) cfg.sensitivityBps = product :=
    wrap_of_isI128 (by unfold IsI128 i128Min; omega)
  have hupper : wrapAdd q3 (product / 10000) = q3 + product / 10000 :=
    wrap_of_isI128 (by unfold IsI128 i128Min; omega)
  have hlower : wrapSub q1 (product / 10000) = q1 - product / 10000 :=
    wrap_of_isI128 (by unfold IsI128 i128Min; unfold i128Max at *; omega)
  have hscale : 0 < q3 - q1 := by omega
  have hreach {d : Int} (hd : 0 < d) (hdmax : 10000 * d < 2 ^ 128) (hdfits : d ≤ i128Max) :
      cfg.sensitivityBps ≤ clampScore (wrap128 (toU128 (wrap d) * 10000) / (q3 - q1).toNat) ↔
        product ≤ 10000 * d :=
    sensitivity_le_score_iff hscale hsensitivity hd hdmax hdfits
  have hfirst : (kth prices ((prices.length - 1) / 4)).getD 0 = q1 := rfl
  have hthird : (kth prices ((3 * (prices.length - 1) + 3) / 4)).getD 0 = q3 := rfl
  have hdiv : product.tdiv 10000 = product / 10000 := Int.tdiv_eq_ediv_of_nonneg (by omega)
  unfold scoreOf iqrScore
  simp only [hdetector,if_true,hlen,get_sort,hfirst,hthird,hiqr,hmul,hdiv,hupper,hlower,
    if_neg (not_le.2 hscale)]
  by_cases habove : q3 + product / 10000 < x
  · simp only [if_pos habove,if_pos hscale,decide_eq_true_iff]
    rw [wrapSub,hreach (by omega) (by omega) (by omega)]
    omega
  · by_cases hbelow : x < q1 - product / 10000
    · simp only [if_neg habove,if_pos hbelow,if_pos hscale,decide_eq_true_iff]
      rw [wrapSub,hreach (by omega) (by omega) (by omega)]
      omega
    · simp only [if_neg habove,if_neg hbelow,if_pos hscale,decide_eq_true_iff]
      omega

theorem medianOf_sort {xs : List Int} (hne : xs ≠ []) (hxs : ∀ x ∈ xs, IsI128 x)
    (hdiff : ∀ x ∈ xs, ∀ y ∈ xs, IsI128 (x - y)) : medianOf (sort xs) = sortedMedian xs := by
  have hlen : (sort xs).length = xs.length := List.length_insertionSort _ _
  rw [← computeMedian_eq_sortedMedian hne hxs hdiff,computeMedian_kth hne]
  unfold medianOf
  rw [hlen,if_neg (List.length_pos_iff.2 hne).ne',get_sort,get_sort]
  by_cases heven : xs.length % 2 = 0
  · rw [if_neg (by omega),if_pos heven]
  · rw [if_pos (by omega),if_neg heven]

theorem sortedMedian_price (hmany : 4 ≤ prices.length) (hcount : prices.length ≤ 128)
    (hps : ∀ p ∈ prices, IsPrice p) : IsPrice (sortedMedian prices) := by
  have hne : prices ≠ [] := List.length_pos_iff.1 (by omega)
  have hlist : PriceList prices := ⟨hne,by omega,hps⟩
  rw [← computeMedian_eq_sortedMedian hne (fun p hp => (hps p hp).2) (diff_fits_of_positive hps)]
  exact isPrice_of_between (computeMedian_between hlist hlist.bounds)

/-- The centre and the deviation are the exact ones. -/
theorem medianAndMad_eq (hmany : 4 ≤ prices.length) (hcount : prices.length ≤ 128)
    (hps : ∀ p ∈ prices, IsPrice p) :
    medianAndMad (sort prices) = (sortedMedian prices,deviation prices) := by
  have hne : prices ≠ [] := List.length_pos_iff.1 (by omega)
  obtain ⟨hm,-,hmmax⟩ := sortedMedian_price hmany hcount hps
  have hperm : (sort prices).Perm prices := List.perm_insertionSort _ _
  have hmed : medianOf (sort prices) = sortedMedian prices :=
    medianOf_sort hne (fun p hp => (hps p hp).2) (diff_fits_of_positive hps)
  have hterm : ∀ v ∈ sort prices, wrapAbs (wrapSub v (sortedMedian prices)) =
      |v - sortedMedian prices| := by
    intro v hv
    obtain ⟨hv0,-,hvmax⟩ := hps v (hperm.mem_iff.1 hv)
    have hsub : wrapSub v (sortedMedian prices) = v - sortedMedian prices :=
      wrap_of_isI128 (by unfold IsI128 i128Min; unfold i128Max at *; omega)
    rw [hsub,Int.abs_eq_natAbs]
    exact wrap_of_isI128 (by unfold IsI128 i128Min; unfold i128Max at *; omega)
  have hdevs : ∀ d ∈ prices.map (fun v => |v - sortedMedian prices|), 0 ≤ d ∧ d ≤ i128Max := by
    intro d hd
    obtain ⟨v,hv,rfl⟩ := List.mem_map.1 hd
    obtain ⟨hv0,-,hvmax⟩ := hps v hv
    rw [Int.abs_eq_natAbs]
    omega
  unfold medianAndMad
  dsimp only
  rw [hmed,List.map_congr_left hterm,sort_perm (hperm.map _),medianOf_sort]
  · rfl
  · simpa using hne
  · intro d hd
    obtain ⟨hlow,hhigh⟩ := hdevs d hd
    unfold IsI128 i128Min
    omega
  · intro d hd e he
    obtain ⟨hlow,hhigh⟩ := hdevs d hd
    obtain ⟨hlow',hhigh'⟩ := hdevs e he
    unfold IsI128 i128Min
    unfold i128Max at *
    omega

theorem madScore_iff (hmany : 4 ≤ prices.length) (hcount : prices.length ≤ 128)
    (hps : ∀ p ∈ prices, IsPrice p) (hfits : NoOverflow cfg prices)
    (hsensitivity : cfg.sensitivityBps ≤ u32Max) (hdetector : cfg.detector = 1)
    (hscale : 0 < scaledDeviation prices) (hx : x ∈ prices) :
    (scoreOf (sort prices) x cfg).1 = true ↔
      cfg.sensitivityBps * scaledDeviation prices ≤ |x - sortedMedian prices| * 10000 := by
  obtain ⟨hm,-,hmmax⟩ := sortedMedian_price hmany hcount hps
  obtain ⟨hx0,-,hxmax⟩ := hps x hx
  have hproduct := hfits.deviation hdetector
  have hdistance := hfits.distance hdetector x hx
  unfold scaledDeviation at hscale ⊢
  set med := sortedMedian prices
  set mad := deviation prices
  have hmul : wrapMul mad 14826 = mad * 14826 :=
    wrap_of_isI128 (by unfold IsI128 i128Min; omega)
  have hdiv : (mad * 14826).tdiv 10000 = mad * 14826 / 10000 :=
    Int.tdiv_eq_ediv_of_nonneg (by omega)
  have hsub : wrapSub x med = x - med :=
    wrap_of_isI128 (by unfold IsI128 i128Min; unfold i128Max at *; omega)
  rw [Int.abs_eq_natAbs] at hdistance ⊢
  have hexact : wrap128 ((x - med).natAbs * 10000) = (x - med).natAbs * 10000 := by
    unfold wrap128
    omega
  have hscore : madScore (sort prices) x =
      (clampScore ((x - med).natAbs * 10000 / (mad * 14826 / 10000).toNat),med,
        mad * 14826 / 10000) := by
    unfold madScore
    rw [medianAndMad_eq hmany hcount hps]
    dsimp only
    rw [hmul,hdiv,if_neg (not_le.2 hscale),distance,hsub,hexact]
  unfold scoreOf
  rw [if_neg (by omega),hscore]
  dsimp only
  rw [if_pos hscale,decide_eq_true_iff,le_clampScore_iff (by omega) hsensitivity,
    ← Int.ofNat_le,Int.natCast_mul,Int.natCast_mul,Int.toNat_of_nonneg hscale.le]
  rfl

end Scores

section Filter

variable {cfg : OutlierConfig} {prices : List Int}

theorem keepMask_false_iff (hcount : prices.length ≤ 128) (happlies : applies cfg prices = true)
    {i : Nat} {x : Int} (hx : prices[i]? = some x) :
    (keepMask cfg prices)[i]? = some false ↔ (scoreOf (sort prices) x cfg).1 = true := by
  rw [keepMask_eq hcount,List.getElem?_map,hx,Option.map_some,Option.some.injEq,verdict,
    happlies,Bool.true_and,Bool.not_eq_false']

theorem sensitivity_pos (hmany : 4 ≤ prices.length) (hcount : prices.length ≤ 128)
    (hps : ∀ p ∈ prices, IsPrice p) (happlies : applies cfg prices = true)
    (hdetector : cfg.detector = 2) (hspread : lowerQuartile prices < upperQuartile prices) :
    0 < cfg.sensitivityBps := by
  by_contra hzero
  have hsensitivity : cfg.sensitivityBps = 0 := by omega
  have hall : ∀ s ∈ scores cfg prices, s.1 = true := by
    intro s hs
    rw [scores_eq hcount] at hs
    obtain ⟨x,-,rfl⟩ := List.mem_map.1 hs
    unfold scoreOf
    rw [if_pos hdetector,hsensitivity]
    dsimp only
    rw [if_pos (by rw [iqrScore_scale hmany hps hspread]; exact sub_pos.2 hspread)]
    simp
  unfold applies at happlies
  rw [decide_eq_true_eq,List.filter_eq_self.2 hall] at happlies
  have hlen : (scores cfg prices).length = prices.length := by simp [scores]
  omega

/-- In a round that is filtered, exactly the documented outliers are dropped when the interquartile
detector has no price between its fence and as far again. -/
theorem filter_documented_iff (hmany : 4 ≤ prices.length) (hcount : prices.length ≤ 128)
    (hps : ∀ p ∈ prices, IsPrice p) (hsensitivity : cfg.sensitivityBps ≤ 1000000)
    (hactive : filteringActive cfg prices.length = true)
    (hflagged : ((scores cfg prices).filter Prod.fst).length ≤ prices.length / 2)
    (hfits : NoOverflow cfg prices) :
    AsDocumented cfg prices ↔
      (cfg.detector = 2 → lowerQuartile prices < upperQuartile prices → ∀ x ∈ prices,
        OutsideFence cfg prices x → FarOutside cfg prices x) := by
  have happlies : applies cfg prices = true := by
    unfold applies
    rw [decide_eq_true_eq]
    exact ⟨hactive,hflagged⟩
  have hsensitivity' : cfg.sensitivityBps ≤ u32Max := by
    unfold u32Max
    omega
  have hiqr (hdetector : cfg.detector = 2)
      (hspread : lowerQuartile prices < upperQuartile prices) (i : Nat) (x : Int)
      (hx : prices[i]? = some x) : (keepMask cfg prices)[i]? = some false ↔
        OutsideFence cfg prices x ∧ FarOutside cfg prices x := by
    rw [keepMask_false_iff hcount happlies hx]
    exact iqrScore_iff hmany hps hfits hsensitivity'
      (sensitivity_pos hmany hcount hps happlies hdetector hspread) hdetector hspread
      (List.mem_of_getElem? hx)
  constructor
  · intro h hdetector hspread x hx houtside
    obtain ⟨i,hi⟩ := List.getElem?_of_mem hx
    have hdropped := (h.interquartile hdetector hspread i x hi).2 houtside
    exact ((hiqr hdetector hspread i x hi).1 hdropped).2
  · intro h
    constructor
    · intro hdetector hspread i x hx
      rw [hiqr hdetector hspread i x hx]
      exact and_iff_left_of_imp (h hdetector hspread x (List.mem_of_getElem? hx))
    · intro hdetector hscale i x hx
      rw [keepMask_false_iff hcount happlies hx]
      exact madScore_iff hmany hcount hps hfits hsensitivity' hdetector hscale
        (List.mem_of_getElem? hx)
    · intro ps hperm i j hij
      exact keepMask_permuted hperm hcount hij
    · exact keepMask_majority cfg prices

/-- The rule of one and a half spreads keeps a price two spreads away from the upper quartile. -/
theorem filter_keeps_documented_outlier :
    ¬∀ (cfg : OutlierConfig) (prices : List Int), 4 ≤ prices.length → prices.length ≤ 128 →
      (∀ p ∈ prices, IsPrice p) → cfg.sensitivityBps ≤ 1000000 →
      filteringActive cfg prices.length = true →
      ((scores cfg prices).filter Prod.fst).length ≤ prices.length / 2 →
      NoOverflow cfg prices → AsDocumented cfg prices := by
  intro h
  have hdocumented := h ⟨2,15000,5⟩ [100,102,104,106,108,110,112,132] (by decide)
    (by decide) (by decide) (by decide) (by decide) (by decide)
    ⟨by decide,by decide,by decide,by decide,by decide⟩
  have hdropped := (hdocumented.interquartile rfl (by decide) 7 132 rfl).2
    (by unfold OutsideFence; decide)
  revert hdropped
  decide

/-- On either side of the fence one price is past it by exactly one and a half spreads. -/
def straddling : List Int := [72, 100, 102, 104, 106, 108, 110, 112, 112, 142]

theorem filter_documented_straddling :
    AsDocumented ⟨2, 15000, 5⟩ straddling ∧
      OutsideFence ⟨2, 15000, 5⟩ straddling 72 ∧ OutsideFence ⟨2, 15000, 5⟩ straddling 142 := by
  have hfar : ∀ x ∈ straddling, OutsideFence ⟨2,15000,5⟩ straddling x →
      FarOutside ⟨2,15000,5⟩ straddling x := by
    unfold OutsideFence FarOutside
    decide
  refine ⟨(filter_documented_iff (by decide) (by decide) (by decide) (by decide) (by decide)
    (by decide) ⟨by decide,by decide,by decide,by decide,by decide⟩).2 fun _ _ => hfar,?_,?_⟩
  · unfold OutsideFence
    decide
  · unfold OutsideFence
    decide

end Filter

end PriceOracle.Outliers
