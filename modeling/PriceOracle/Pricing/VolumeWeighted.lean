import PriceOracle.Pricing.Statistics
import Mathlib.Algebra.BigOperators.Ring.List

/-! # The volume-weighted mean and its range

Both sums of the weighted mean are clamped at the largest 128-bit value, each on its own. The mean
of the clamped sums never exceeds the highest price; it falls below the lowest one exactly when the
lowest price alone, weighted with the volume that is counted, does not fit. -/

namespace PriceOracle.Pricing

open Lib.MachineInt Model.Pricing

section Volume

def volume (prices volumes : List Int) : Int := ((prices.zip volumes).map fun x => max x.2 0).sum

variable {ps volumes : List Int}

theorem volume_nonneg : 0 ≤ volume ps volumes := by
  apply List.sum_nonneg
  intro v hv
  obtain ⟨x,-,rfl⟩ := List.mem_map.1 hv
  exact le_max_right _ _

/-- Prices weighted with their volumes lie between the bounds of the prices times the volume. -/
theorem turnover_between (volumes : List Int) {a b : Int} (hb : ∀ x ∈ ps, a ≤ x ∧ x ≤ b) :
    a * volume ps volumes ≤ turnover ps volumes ∧
      turnover ps volumes ≤ b * volume ps volumes := by
  have hterm : ∀ x ∈ ps.zip volumes,
      a * max x.2 0 ≤ x.1 * max x.2 0 ∧ x.1 * max x.2 0 ≤ b * max x.2 0 := by
    intro x hx
    obtain ⟨hlow,hhigh⟩ := hb x.1 (List.of_mem_zip (a := x.1) (b := x.2) hx).1
    exact ⟨mul_le_mul_of_nonneg_right hlow (le_max_right _ _),
      mul_le_mul_of_nonneg_right hhigh (le_max_right _ _)⟩
  unfold volume turnover
  rw [← List.sum_map_mul_left,← List.sum_map_mul_left]
  exact ⟨List.sum_le_sum fun x hx => (hterm x hx).1,List.sum_le_sum fun x hx => (hterm x hx).2⟩

end Volume

section Clamped

variable {ps volumes : List Int}

theorem satAdd_clamped {s x : Int} (hs : 0 ≤ s) (hx : 0 ≤ x) :
    satAdd (min i128Max s) (min i128Max x) = min i128Max (s + x) := by
  unfold satAdd saturate i128Max i128Min
  omega

theorem vwap_fold_clamped {pvs : List (Int × Int)} (hpvs : ∀ x ∈ pvs, 0 < x.1 ∧ x.2 ≤ i128Max)
    {s t : Int} (hs : 0 ≤ s) (ht : 0 ≤ t) :
    pvs.foldl (fun (acc : Int × Int) (pv : Int × Int) =>
        if pv.2 ≤ 0 then acc
        else (satAdd acc.1 (satMul pv.1 pv.2),satAdd acc.2 pv.2))
      (min i128Max s,min i128Max t) =
      (min i128Max (s + (pvs.map fun x => x.1 * max x.2 0).sum),
        min i128Max (t + (pvs.map fun x => max x.2 0).sum)) := by
  induction pvs generalizing s t with
  | nil => simp
  | cons x pvs ih =>
    obtain ⟨p,v⟩ := x
    rw [List.forall_mem_cons] at hpvs
    obtain ⟨⟨hp,hfits⟩,hrest⟩ := hpvs
    simp only [List.map_cons,List.sum_cons,List.foldl_cons]
    split_ifs with hvolume
    · rw [ih hrest hs ht,max_eq_right hvolume,mul_zero,zero_add,zero_add]
    · have hv : 0 ≤ v := (not_le.1 hvolume).le
      have hpv := mul_nonneg hp.le hv
      have htotal : satAdd (min i128Max t) v = min i128Max (t + v) := by
        rw [← satAdd_clamped ht hv,min_eq_right hfits]
      rw [satMul_of_nonneg hp.le hv,satAdd_clamped hs hpv,htotal,
        ih hrest (add_nonneg hs hpv) (add_nonneg ht hv),max_eq_left hv,add_assoc,add_assoc]

/-- `compute_vwap` divides the clamped turnover by the clamped volume, rounding down. -/
theorem computeVwap_clamped (h : PriceList ps) (hmax : ∀ v ∈ volumes, v ≤ i128Max)
    (hne : volumes ≠ []) :
    computeVwap ps volumes = if volume ps volumes = 0 then computeMean ps
      else min i128Max (turnover ps volumes) / min i128Max (volume ps volumes) := by
  have hlen : 0 < min ps.length volumes.length := by
    have hv := List.length_pos_iff.2 hne
    have hp := h.length_pos
    omega
  have hzip : ∀ x ∈ ps.zip volumes, 0 < x.1 ∧ x.2 ≤ i128Max := by
    intro x hx
    obtain ⟨hprice,hvol⟩ := List.of_mem_zip (a := x.1) (b := x.2) hx
    exact ⟨(h.prices x.1 hprice).1,hmax x.2 hvol⟩
  have hfold := vwap_fold_clamped hzip (le_refl 0) (le_refl 0)
  rw [zero_add,zero_add] at hfold
  change _ = (min i128Max (turnover ps volumes),min i128Max (volume ps volumes)) at hfold
  have hvolume : 0 ≤ volume ps volumes := volume_nonneg
  have hturnover : 0 ≤ turnover ps volumes := by
    have hlow := (turnover_between volumes h.bounds).1
    omega
  have hzero : min i128Max (volume ps volumes) = 0 ↔ volume ps volumes = 0 := by
    unfold i128Max
    omega
  unfold computeVwap
  rw [if_neg hlen.ne']
  rw [show min i128Max (0 : Int) = 0 by decide] at hfold
  rw [hfold]
  simp only [hzero]
  rw [Int.tdiv_eq_ediv_of_nonneg (by unfold i128Max; omega)]

end Clamped

section Range

variable {ps volumes : List Int} {a b m v w : Int}

theorem clamped_le (hb : 1 ≤ b) (hm : 0 ≤ m) (hw : w ≤ b * v) : min m w ≤ b * min m v := by
  rcases le_total v m with hv | hv
  · rw [min_eq_right hv]
    exact (min_le_right m w).trans hw
  · rw [min_eq_left hv]
    exact (min_le_left m w).trans (le_mul_of_one_le_left hm hb)

theorem le_clamped_iff (ha : 1 ≤ a) (hm : 0 < m) (hv : 0 ≤ v) (hw : a * v ≤ w) :
    a * min m v ≤ min m w ↔ a = 1 ∨ a * v ≤ m := by
  constructor
  · intro hle
    have hfits := hle.trans (min_le_left m w)
    rcases le_total v m with hvm | hvm
    · rw [min_eq_right hvm] at hfits
      exact .inr hfits
    · rw [min_eq_left hvm] at hfits
      have hone : a ≤ 1 := le_of_mul_le_mul_right (by rwa [one_mul]) hm
      exact .inl (le_antisymm hone ha)
  · rintro (hone | hfits)
    · rw [hone,one_mul] at hw ⊢
      exact min_le_min_left m hw
    · have hvm : v ≤ m := (le_mul_of_one_le_left hv ha).trans hfits
      rw [min_eq_right hvm]
      exact le_min hfits hw

/-- The weighted mean of positive prices lies between the lowest and the highest of them exactly if
a volume is given and the lowest price is one or its product with the whole volume fits. -/
theorem computeVwap_between_iff (h : PriceList ps)
    (hvolumes : ∀ v ∈ volumes, 0 ≤ v ∧ v ≤ i128Max) :
    ps.min h.nonempty ≤ computeVwap ps volumes ∧ computeVwap ps volumes ≤ ps.max h.nonempty ↔
      volumes ≠ [] ∧
        (ps.min h.nonempty = 1 ∨ ps.min h.nonempty * volume ps volumes ≤ i128Max) := by
  have hbounds : ∀ x ∈ ps, ps.min h.nonempty ≤ x ∧ x ≤ ps.max h.nonempty :=
    fun x hx => ⟨List.min_le_of_mem hx,List.le_max_of_mem hx⟩
  have hlowest : 1 ≤ ps.min h.nonempty := (h.prices _ (List.min_mem h.nonempty)).1
  have hhighest : 1 ≤ ps.max h.nonempty := (h.prices _ (List.max_mem h.nonempty)).1
  have hmax : 0 < i128Max := by decide
  by_cases hne : volumes = []
  · subst hne
    have hnone : computeVwap ps [] = 0 := by simp [computeVwap]
    rw [hnone]
    constructor
    · rintro ⟨hlow,-⟩
      omega
    · rintro ⟨hsome,-⟩
      exact absurd rfl hsome
  · rw [computeVwap_clamped h (fun v hv => (hvolumes v hv).2) hne,and_iff_right hne]
    obtain ⟨hlow,hhigh⟩ := turnover_between volumes hbounds
    have hnonneg : 0 ≤ volume ps volumes := volume_nonneg
    split_ifs with hzero
    · rw [hzero,mul_zero]
      exact iff_of_true (computeMean_between h hbounds) (.inr hmax.le)
    · have hpos : 0 < min i128Max (volume ps volumes) := by
        rw [lt_min_iff]
        exact ⟨hmax,lt_of_le_of_ne hnonneg (Ne.symm hzero)⟩
      have hceiling := Int.ediv_le_of_le_mul hpos (clamped_le hhighest hmax.le hhigh)
      rw [Int.le_ediv_iff_mul_le hpos,le_clamped_iff hlowest hmax hnonneg hlow]
      exact and_iff_left hceiling

end Range

/-- Two prices of sixty thousand and more, with eighteen decimals. -/
def pricesEighteen : List Int := [60000 * 10 ^ 18, 61000 * 10 ^ 18]

theorem pricesEighteen_list : PriceList pricesEighteen :=
  ⟨by decide,by decide,by unfold pricesEighteen; decide⟩

theorem small_volumes_average :
    pricesEighteen.min pricesEighteen_list.nonempty ≤
        computeVwap pricesEighteen [10 ^ 15, 10 ^ 15] ∧
      computeVwap pricesEighteen [10 ^ 15, 10 ^ 15] ≤
        pricesEighteen.max pricesEighteen_list.nonempty :=
  (computeVwap_between_iff pricesEighteen_list (by decide)).2 ⟨by decide,.inr (by decide)⟩

/-- The weighted sum stops at the largest value while the volume goes on: the mean is about eight
and a half thousand. -/
theorem large_volumes_underprice :
    (∀ v ∈ ([10 ^ 16, 10 ^ 16] : List Int), 0 ≤ v ∧ v ≤ i128Max) ∧
      ¬(pricesEighteen.min pricesEighteen_list.nonempty ≤
          computeVwap pricesEighteen [10 ^ 16, 10 ^ 16] ∧
        computeVwap pricesEighteen [10 ^ 16, 10 ^ 16] ≤
          pricesEighteen.max pricesEighteen_list.nonempty) := by
  constructor
  · decide
  · decide

end PriceOracle.Pricing
