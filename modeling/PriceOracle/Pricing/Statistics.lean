import PriceOracle.Pricing.Selection
import Mathlib.Algebra.Order.BigOperators.Group.List

/-! # The statistics of a list of prices

Whatever method a round uses, what it makes of positive prices lies between the lowest and the
highest of them: sorting rearranges the list, and the mean is the floor of the exact one on either
of its paths. Only the volume-weighted mean leaves this range, once its sums saturate; it stays
positive even then. -/

namespace PriceOracle.Pricing

open Lib.MachineInt Lib.OrderStatistic Model.Pricing

theorem isPrice_of_bounds {x : Int} (hpos : 0 < x) (hmax : x ≤ i128Max) : IsPrice x := by
  refine ⟨hpos,?_,hmax⟩
  unfold i128Min
  omega

/-- Prices a round can collect: at least one, and no more than a vector can hold. -/
structure PriceList (prices : List Int) : Prop where
  nonempty : prices ≠ []
  count : prices.length < 2 ^ 32
  prices : ∀ p ∈ prices, IsPrice p

section Lists

variable {ps qs : List Int}

theorem PriceList.of_subset (h : PriceList ps) (hne : qs ≠ []) (hlen : qs.length ≤ ps.length)
    (hsub : qs ⊆ ps) : PriceList qs :=
  ⟨hne,hlen.trans_lt h.count,fun p hp => h.prices p (hsub hp)⟩

theorem PriceList.perm (h : PriceList ps) (hperm : qs.Perm ps) : PriceList qs := by
  apply h.of_subset _ hperm.length_eq.le hperm.subset
  intro hnil
  rw [hnil,List.nil_perm] at hperm
  exact h.nonempty hperm

theorem PriceList.sublist (h : PriceList ps) (hne : qs ≠ []) (hsub : qs.Sublist ps) :
    PriceList qs :=
  h.of_subset hne hsub.length_le hsub.subset

theorem PriceList.length_pos (h : PriceList ps) : 0 < ps.length := List.length_pos_iff.2 h.nonempty

theorem get_mem {i : Nat} (hi : i < ps.length) : get ps i ∈ ps := by
  simp [Model.Pricing.get,hi]

theorem PriceList.get (h : PriceList ps) {i : Nat} (hi : i < ps.length) : IsPrice (get ps i) :=
  h.prices _ (get_mem hi)

end Lists

section Sorting

variable {p : List Int} {n current : Nat}

theorem heapify_perm (fuel : Nat) (hn : n ≤ p.length) (hcurrent : current < p.length) :
    (heapify fuel p n current).Perm p := by
  induction fuel generalizing p current with
  | zero => exact List.Perm.refl p
  | succ fuel ih =>
    unfold heapify
    extract_lets left right largest largest'
    split_ifs with hstay
    · exact List.Perm.refl p
    · have hlargest : largest < p.length := by
        by_cases h : left < n ∧ get p current < get p left
        · simp only [largest,if_pos h]
          omega
        · simp only [largest,if_neg h]
          exact hcurrent
      have hlargest' : largest' < p.length := by
        by_cases h : right < n ∧ get p largest < get p right
        · simp only [largest',if_pos h]
          omega
        · simp only [largest',if_neg h]
          exact hlargest
      have hswap : (swap p current largest').Perm p := swap_perm hcurrent hlargest'
      refine (ih ?_ ?_).trans hswap
      · rw [hswap.length_eq]
        exact hn
      · rw [hswap.length_eq]
        exact hlargest'

theorem buildHeap_perm {i : Nat} (hn : n ≤ p.length) (hi : i < p.length) :
    (buildHeap n i p).Perm p := by
  induction i generalizing p with
  | zero => exact heapify_perm n hn hi
  | succ i ih =>
    have hheap : (heapify n p n (i+1)).Perm p := heapify_perm n hn hi
    refine (ih ?_ ?_).trans hheap
    · rw [hheap.length_eq]
      exact hn
    · rw [hheap.length_eq]
      omega

theorem extractHeap_perm {stop : Nat} (hstop : stop < p.length) :
    (extractHeap n stop p).Perm p := by
  induction stop generalizing p with
  | zero =>
    have hswap : (swap p 0 0).Perm p := swap_perm hstop hstop
    refine (heapify_perm n (Nat.zero_le _) ?_).trans hswap
    rw [hswap.length_eq]
    exact hstop
  | succ stop ih =>
    have hswap : (swap p 0 (stop+1)).Perm p := swap_perm (by omega) hstop
    have hlen := hswap.length_eq
    have hheap : (heapify n (swap p 0 (stop+1)) (stop+1) 0).Perm p :=
      (heapify_perm n (by omega) (by omega)).trans hswap
    refine (ih ?_).trans hheap
    rw [hheap.length_eq]
    omega

/-- The heap sort rearranges its prices. -/
theorem sortPrices_perm (p : List Int) : (sortPrices p).Perm p := by
  unfold sortPrices
  extract_lets n
  split_ifs with hn
  · exact List.Perm.refl p
  · have hbuild : (buildHeap n (n / 2) p).Perm p := buildHeap_perm (le_refl n) (by omega)
    refine (extractHeap_perm ?_).trans hbuild
    rw [hbuild.length_eq]
    omega

end Sorting

section Mean

variable {ps : List Int}

theorem checkedSum_eq {s t : Int} (h : checkedSum ps s = some t) : t = s + ps.sum := by
  induction ps generalizing s with
  | nil => simpa [checkedSum] using h.symm
  | cons p ps ih =>
    unfold checkedSum at h
    split_ifs at h
    rw [ih h,List.sum_cons]
    omega

theorem sum_ediv_emod (ps : List Int) (n : Int) :
    n * (ps.map (· / n)).sum + (ps.map (· % n)).sum = ps.sum := by
  induction ps with
  | nil => simp
  | cons p ps ih =>
    have hp := Int.mul_ediv_add_emod p n
    simp only [List.map_cons,List.sum_cons,Int.mul_add]
    omega

/-- Summing the quotients and the remainders apart does not wrap while both sums fit. -/
theorem foldl_wrapAdd {n q r : Int} (hn : 0 < n) (hps : ∀ p ∈ ps, 0 ≤ p) (hq : 0 ≤ q) (hr : 0 ≤ r)
    (hqs : q + (ps.map (· / n)).sum ≤ i128Max) (hrs : r + (ps.map (· % n)).sum ≤ i128Max) :
    ps.foldl (fun (acc : Int × Int) p => (wrapAdd acc.1 (p.tdiv n),wrapAdd acc.2 (p.tmod n)))
      (q,r) = (q + (ps.map (· / n)).sum,r + (ps.map (· % n)).sum) := by
  induction ps generalizing q r with
  | nil => simp
  | cons p ps ih =>
    rw [List.forall_mem_cons] at hps
    obtain ⟨hp,hps⟩ := hps
    have hdivs : 0 ≤ (ps.map (· / n)).sum := by
      apply List.sum_nonneg
      intro x hx
      obtain ⟨y,hy,rfl⟩ := List.mem_map.1 hx
      exact Int.ediv_nonneg (hps y hy) hn.le
    have hmods : 0 ≤ (ps.map (· % n)).sum := by
      apply List.sum_nonneg
      intro x hx
      obtain ⟨y,-,rfl⟩ := List.mem_map.1 hx
      exact Int.emod_nonneg y hn.ne'
    have hdiv : 0 ≤ p / n := Int.ediv_nonneg hp hn.le
    have hmod : 0 ≤ p % n := Int.emod_nonneg p hn.ne'
    simp only [List.map_cons,List.sum_cons] at hqs hrs ⊢
    have hquotient : wrapAdd q (p.tdiv n) = q + p / n := by
      rw [Int.tdiv_eq_ediv_of_nonneg hp]
      apply wrap_of_isI128
      unfold IsI128 i128Min
      omega
    have hremainder : wrapAdd r (p.tmod n) = r + p % n := by
      rw [Int.tmod_eq_emod_of_nonneg hp]
      apply wrap_of_isI128
      unfold IsI128 i128Min
      omega
    rw [List.foldl_cons,hquotient,hremainder,
      ih hps (by omega) (by omega) (by omega) (by omega),Int.add_assoc,Int.add_assoc]

theorem isI128_mean (hne : ps ≠ []) (hps : ∀ p ∈ ps, 0 ≤ p ∧ p ≤ i128Max) :
    IsI128 (ps.sum / ps.length) := by
  constructor
  · have hmin := List.min_le_sum_div_length_int hne
    have hlow := (hps _ (List.min_mem hne)).1
    unfold i128Min
    omega
  · exact (List.sum_div_length_le_max_int hne).trans (hps _ (List.max_mem hne)).2

/-- Keeping the quotients and the remainders apart gives the floor of the mean of any list. -/
theorem meanNoOverflow_eq (hne : ps ≠ []) (hlen : ps.length < 2 ^ 32)
    (hps : ∀ p ∈ ps, 0 ≤ p ∧ p ≤ i128Max) : meanNoOverflow ps = ps.sum / ps.length := by
  have hpos : 0 < ps.length := List.length_pos_iff.2 hne
  have hnonneg : ∀ p ∈ ps, 0 ≤ p := fun p hp => (hps p hp).1
  have hmean : IsI128 (ps.sum / ps.length) := isI128_mean hne hps
  unfold meanNoOverflow
  obtain ⟨n,hn⟩ : ∃ n : Int, n = ps.length := ⟨_,rfl⟩
  rw [← hn] at hmean ⊢
  have hn0 : 0 < n := by omega
  have hquotients : (ps.map (· / n)).sum ≤ i128Max := by
    have hle := List.sum_le_card_nsmul (ps.map (· / n)) (i128Max / n) (by
      intro x hx
      obtain ⟨y,hy,rfl⟩ := List.mem_map.1 hx
      exact Int.ediv_le_ediv hn0 (hps y hy).2)
    rw [List.length_map,Int.nsmul_eq_mul,← hn] at hle
    exact hle.trans (Int.mul_ediv_self_le hn0.ne')
  have hremainders : (ps.map (· % n)).sum ≤ n * n := by
    have hle := List.sum_le_card_nsmul (ps.map (· % n)) n (by
      intro x hx
      obtain ⟨y,-,rfl⟩ := List.mem_map.1 hx
      exact (Int.emod_lt_of_pos y hn0).le)
    rwa [List.length_map,Int.nsmul_eq_mul,← hn] at hle
  have hsquare : n * n ≤ 2 ^ 32 * 2 ^ 32 := by
    apply Int.mul_le_mul <;> omega
  have hfits : (ps.map (· % n)).sum ≤ i128Max := by
    unfold i128Max
    omega
  have hmods : 0 ≤ (ps.map (· % n)).sum := by
    apply List.sum_nonneg
    intro x hx
    obtain ⟨y,-,rfl⟩ := List.mem_map.1 hx
    exact Int.emod_nonneg y hn0.ne'
  have hexact : wrapAdd (ps.map (· / n)).sum ((ps.map (· % n)).sum / n) = ps.sum / n := by
    have hsplit : (ps.map (· / n)).sum + (ps.map (· % n)).sum / n = ps.sum / n := by
      rw [← sum_ediv_emod ps n,Int.add_comm (n * _),Int.add_mul_ediv_left _ _ hn0.ne',Int.add_comm]
    unfold wrapAdd
    rw [hsplit]
    exact wrap_of_isI128 hmean
  dsimp only
  rw [foldl_wrapAdd hn0 hnonneg le_rfl le_rfl (by omega) (by omega),Int.zero_add,Int.zero_add,
    Int.tdiv_eq_ediv_of_nonneg hmods,hexact]

/-- `compute_mean` is the floor of the exact mean, whether or not the running sum overflows. -/
theorem computeMean_eq (hne : ps ≠ []) (hlen : ps.length < 2 ^ 32)
    (hps : ∀ p ∈ ps, 0 ≤ p ∧ p ≤ i128Max) : computeMean ps = ps.sum / ps.length := by
  have hpos : 0 < ps.length := List.length_pos_iff.2 hne
  unfold computeMean
  rw [if_neg hpos.ne']
  cases hsum : checkedSum ps 0 with
  | some sum =>
    have heq : sum = ps.sum := by simpa using checkedSum_eq hsum
    rw [heq]
    exact Int.tdiv_eq_ediv_of_nonneg (List.sum_nonneg fun p hp => (hps p hp).1)
  | none => exact meanNoOverflow_eq hne hlen hps

theorem computeMean_between {a b : Int} (h : PriceList ps) (hb : ∀ x ∈ ps, a ≤ x ∧ x ≤ b) :
    a ≤ computeMean ps ∧ computeMean ps ≤ b := by
  rw [computeMean_eq h.nonempty h.count fun p hp => ⟨(h.prices p hp).1.le,(h.prices p hp).2.2⟩]
  constructor
  · exact (hb _ (List.min_mem h.nonempty)).1.trans (List.min_le_sum_div_length_int h.nonempty)
  · exact (List.sum_div_length_le_max_int h.nonempty).trans (hb _ (List.max_mem h.nonempty)).2

/-- `compute_mean` is the exact floor of the mean of every list of prices that are not negative, and
so is the path it takes when the running sum overflows: within the list, and the same in any
order. -/
theorem computeMean_exact (prices : List Int) (hne : prices ≠ []) (hlen : prices.length ≤ u32Max)
    (hprices : ∀ p ∈ prices, 0 ≤ p ∧ p ≤ i128Max) :
    computeMean prices = prices.sum / prices.length ∧
      meanNoOverflow prices = prices.sum / prices.length ∧
      prices.min hne ≤ computeMean prices ∧ computeMean prices ≤ prices.max hne ∧
      ∀ ys, ys.Perm prices → computeMean ys = computeMean prices := by
  have hcount : prices.length < 2 ^ 32 := by
    unfold u32Max at hlen
    omega
  have hmean : computeMean prices = prices.sum / prices.length := computeMean_eq hne hcount hprices
  refine ⟨hmean,meanNoOverflow_eq hne hcount hprices,?_,?_,?_⟩
  · rw [hmean]
    exact List.min_le_sum_div_length_int hne
  · rw [hmean]
    exact List.sum_div_length_le_max_int hne
  · intro ys h
    have hys : ys ≠ [] := by
      rintro rfl
      exact hne (List.nil_perm.1 h)
    rw [hmean,computeMean_eq hys (by rwa [h.length_eq]) fun p hp => hprices p (h.mem_iff.1 hp),
      h.sum_eq,h.length_eq]

/-- Two prices whose sum overflows, and a third. -/
theorem computeMean_exact_overflow :
    computeMean [i128Max, i128Max, 5] = [i128Max, i128Max, 5].sum / 3 ∧
      meanNoOverflow [i128Max, i128Max, 5] = [i128Max, i128Max, 5].sum / 3 ∧
      [i128Max, i128Max, 5].min (by simp) ≤ computeMean [i128Max, i128Max, 5] ∧
      computeMean [i128Max, i128Max, 5] ≤ [i128Max, i128Max, 5].max (by simp) ∧
      ∀ ys, ys.Perm [i128Max, i128Max, 5] → computeMean ys = computeMean [i128Max, i128Max, 5] :=
  computeMean_exact [i128Max,i128Max,5] (by simp) (by decide) (by decide)

end Mean

section Methods

variable {ps : List Int}

theorem PriceList.bounds (h : PriceList ps) : ∀ x ∈ ps, 1 ≤ x ∧ x ≤ i128Max :=
  fun x hx => ⟨(h.prices x hx).1,(h.prices x hx).2.2⟩

section Bounded

variable {a b : Int} (h : PriceList ps) (hb : ∀ x ∈ ps, a ≤ x ∧ x ≤ b)

include h hb

theorem computeMedian_between : a ≤ computeMedian ps ∧ computeMedian ps ≤ b := by
  rw [computeMedian_eq h.prices]
  exact median_between h.nonempty hb

theorem computeTrimmedMean_between (trimPercent : Nat) :
    a ≤ computeTrimmedMean ps trimPercent ∧ computeTrimmedMean ps trimPercent ≤ b := by
  have hsorted : PriceList (sortPrices ps) := h.perm (sortPrices_perm ps)
  have hbounds : ∀ x ∈ sortPrices ps, a ≤ x ∧ x ≤ b :=
    fun x hx => hb x ((sortPrices_perm ps).mem_iff.1 hx)
  have hlen : (sortPrices ps).length = ps.length := (sortPrices_perm ps).length_eq
  have hpos := h.length_pos
  unfold computeTrimmedMean
  extract_lets n sorted trimCount trimmed
  have htrimmed : trimmed.Sublist sorted :=
    (List.take_sublist _ _).trans (List.drop_sublist _ _)
  split_ifs with hzero hpercent htrim hempty
  · omega
  · exact computeMean_between h hb
  · exact computeMean_between hsorted hbounds
  · exact hbounds _ (get_mem (by omega))
  · rw [List.isEmpty_iff] at hempty
    exact computeMean_between (hsorted.sublist hempty htrimmed)
      fun x hx => hbounds x (htrimmed.subset hx)

/-- What the fault-tolerant aggregate averages is some of the sorted prices. -/
theorem aggregateBftPrices_between (faultTolerance method : Nat) :
    a ≤ aggregateBftPrices ps faultTolerance method ∧
      aggregateBftPrices ps faultTolerance method ≤ b := by
  have hsorted : PriceList (sortPrices ps) := h.perm (sortPrices_perm ps)
  have hpos := h.length_pos
  unfold aggregateBftPrices
  extract_lets n sorted q1 q3 margin accepted consensus trimCount trimmed kept
  have hconsensus : consensus ≠ [] ∧ consensus.Sublist sorted := by
    by_cases hempty : accepted.isEmpty = true
    · simp only [consensus,if_pos hempty]
      exact ⟨hsorted.nonempty,List.Sublist.refl _⟩
    · simp only [consensus,if_neg hempty]
      rw [List.isEmpty_iff] at hempty
      refine ⟨hempty,?_⟩
      by_cases hfour : 4 ≤ n
      · simp only [accepted,if_pos hfour]
        exact List.filter_sublist
      · simp only [accepted,if_neg hfour,List.nil_sublist]
  have hkept : kept ≠ [] ∧ kept.Sublist sorted := by
    by_cases htrim : 0 < trimCount ∧ satMul32 trimCount 2 < consensus.length
    · simp only [kept,if_pos htrim]
      by_cases hempty : trimmed.isEmpty = true
      · rw [if_pos hempty]
        exact hconsensus
      · rw [if_neg hempty]
        rw [List.isEmpty_iff] at hempty
        exact ⟨hempty,((List.take_sublist _ _).trans (List.drop_sublist _ _)).trans hconsensus.2⟩
    · simp only [kept,if_neg htrim]
      exact hconsensus
  have hlist : PriceList kept := hsorted.sublist hkept.1 hkept.2
  have hbounds : ∀ x ∈ kept, a ≤ x ∧ x ≤ b :=
    fun x hx => hb x ((sortPrices_perm ps).mem_iff.1 (hkept.2.subset hx))
  split_ifs with hzero hone
  · omega
  · exact hb _ (get_mem hpos)
  · split
    · exact computeMean_between hlist hbounds
    · exact computeTrimmedMean_between hlist hbounds 10
    · exact computeMedian_between hlist hbounds

end Bounded

theorem isPrice_of_between {x : Int} (h : 1 ≤ x ∧ x ≤ i128Max) : IsPrice x :=
  isPrice_of_bounds h.1 h.2

/-- The exact sum of price times volume; what has no volume does not count. -/
def turnover (prices volumes : List Int) : Int :=
  ((prices.zip volumes).map fun x => x.1 * max x.2 0).sum

/-- The weighted sums are exact as long as the larger one fits, and it lies between the bounds of
the prices times the smaller one. -/
theorem vwap_fold_exact {a b : Int} {pvs : List (Int × Int)}
    (hpvs : ∀ x ∈ pvs, 0 < x.1 ∧ a ≤ x.1 ∧ x.1 ≤ b) {s t : Int} (ht : 0 ≤ t) (hts : t ≤ s)
    (hlow : a * t ≤ s) (hhigh : s ≤ b * t)
    (hfits : s + (pvs.map fun x => x.1 * max x.2 0).sum ≤ i128Max) :
    ∃ s' t', pvs.foldl (fun (acc : Int × Int) (pv : Int × Int) =>
        if pv.2 ≤ 0 then acc
        else (satAdd acc.1 (satMul pv.1 pv.2),satAdd acc.2 pv.2)) (s,t) = (s',t') ∧
      0 ≤ t' ∧ t' ≤ s' ∧ a * t' ≤ s' ∧ s' ≤ b * t' := by
  induction pvs generalizing s t with
  | nil => exact ⟨s,t,rfl,ht,hts,hlow,hhigh⟩
  | cons x pvs ih =>
    obtain ⟨p,v⟩ := x
    rw [List.forall_mem_cons] at hpvs
    obtain ⟨⟨hp,hap,hpb⟩,hrest⟩ := hpvs
    rw [List.map_cons,List.sum_cons] at hfits
    dsimp only at hfits hp hap hpb
    rw [List.foldl_cons]
    split_ifs with hvolume
    · apply ih hrest ht hts hlow hhigh
      rwa [max_eq_right hvolume,mul_zero,zero_add] at hfits
    · have hv : 0 < v := not_le.1 hvolume
      rw [max_eq_left hv.le] at hfits
      have hpv : v ≤ p * v := le_mul_of_one_le_left hv.le hp
      have hsum : 0 ≤ (pvs.map fun x => x.1 * max x.2 0).sum :=
        List.sum_nonneg fun y hy => by
          obtain ⟨x,hx,rfl⟩ := List.mem_map.1 hy
          exact mul_nonneg (hrest x hx).1.le (le_max_right _ _)
      have hproduct : satMul p v = p * v := saturate_of_isI128 (by
        unfold IsI128 i128Min
        omega)
      have hweighted : satAdd s (p * v) = s + p * v := saturate_of_isI128 (by
        unfold IsI128 i128Min
        omega)
      have htotal : satAdd t v = t + v := saturate_of_isI128 (by
        unfold IsI128 i128Min
        omega)
      rw [hproduct,hweighted,htotal]
      apply ih hrest (by omega) (by omega)
      · have hav := mul_le_mul_of_nonneg_right hap hv.le
        rw [mul_add]
        omega
      · have hbv := mul_le_mul_of_nonneg_right hpb hv.le
        rw [mul_add]
        omega
      · omega

theorem computeVwap_between {a b : Int} {volumes : List Int} (h : PriceList ps)
    (hb : ∀ x ∈ ps, a ≤ x ∧ x ≤ b) (hvolumes : volumes ≠ [])
    (hfits : turnover ps volumes ≤ i128Max) :
    a ≤ computeVwap ps volumes ∧ computeVwap ps volumes ≤ b := by
  have hlen : 0 < min ps.length volumes.length := by
    have hv := List.length_pos_iff.2 hvolumes
    have hp := h.length_pos
    omega
  have hzip : ∀ x ∈ ps.zip volumes, 0 < x.1 ∧ a ≤ x.1 ∧ x.1 ≤ b := by
    intro x hx
    have hmem := (List.of_mem_zip (a := x.1) (b := x.2) hx).1
    exact ⟨(h.prices x.1 hmem).1,hb x.1 hmem⟩
  obtain ⟨s,t,hfold,ht,hts,hlow,hhigh⟩ := vwap_fold_exact hzip (le_refl 0) (le_refl 0)
    (by omega) (by omega) (by rw [zero_add]; exact hfits)
  unfold computeVwap
  rw [if_neg hlen.ne',hfold]
  dsimp only
  split_ifs with hzero
  · exact computeMean_between h hb
  · have htpos : 0 < t := by omega
    rw [Int.tdiv_eq_ediv_of_nonneg (by omega)]
    constructor
    · exact (Int.le_ediv_iff_mul_le htpos).2 hlow
    · exact Int.ediv_le_of_le_mul htpos hhigh

end Methods

section Weighted

variable {ps : List Int}

theorem midpoint_between {x y a b : Int} (hx : IsPrice x) (hy : IsPrice y) (hxy : x ≤ y)
    (ha : a ≤ x) (hb : y ≤ b) : a ≤ midpoint x y ∧ midpoint x y ≤ b := by
  rw [midpoint_eq hx hy hxy]
  omega

/-- The scan stops at a price, or between two, before the weights are used up. -/
theorem weightedScan_between {a b : Int} {total cumulative : Nat} {pws : List (Int × Nat)}
    (hpws : ∀ x ∈ pws, IsPrice x.1 ∧ a ≤ x.1 ∧ x.1 ≤ b)
    (hsorted : pws.Pairwise fun a b => a.1 ≤ b.1) (hopen : cumulative * 2 < total)
    (htotal : total ≤ (cumulative + (pws.map Prod.snd).sum) * 2) :
    ∃ x, weightedScan total cumulative pws = some x ∧ a ≤ x ∧ x ≤ b := by
  induction pws generalizing cumulative with
  | nil =>
    simp only [List.map_nil,List.sum_nil] at htotal
    omega
  | cons pw pws ih =>
    obtain ⟨p,w⟩ := pw
    rw [List.forall_mem_cons] at hpws
    obtain ⟨⟨hp,hbounds⟩,hrest⟩ := hpws
    rw [List.pairwise_cons] at hsorted
    simp only [List.map_cons,List.sum_cons] at htotal
    unfold weightedScan
    by_cases hstop : total ≤ (cumulative + w) * 2
    · rw [if_pos hstop]
      cases pws with
      | nil => exact ⟨p,rfl,hbounds⟩
      | cons next rest =>
        dsimp only
        by_cases htie : (cumulative + w) * 2 = total
        · rw [if_pos htie]
          obtain ⟨hnext,-,hhigh⟩ := hrest next (by simp)
          exact ⟨_,rfl,midpoint_between hp hnext (hsorted.1 next (by simp)) hbounds.1 hhigh⟩
        · rw [if_neg htie]
          exact ⟨p,rfl,hbounds⟩
    · rw [if_neg hstop]
      exact ih hrest hsorted.2 (by omega) (by omega)

theorem weightedMedian_between {a b : Int} {weights : List Nat}
    (h : ∀ p ∈ ps, IsPrice p ∧ a ≤ p ∧ p ≤ b) (hps : 0 < ps.length)
    (hweights : weights.length = ps.length) :
    a ≤ weightedMedian ps weights ∧ weightedMedian ps weights ≤ b := by
  unfold weightedMedian
  extract_lets pairs sorted
  have hperm : sorted.Perm pairs := List.perm_insertionSort _ pairs
  have hsum : (sorted.map Prod.snd).sum = totalWeight (pairs.map Prod.snd) := by
    rw [(hperm.map Prod.snd).sum_eq]
    exact List.sum_eq_foldl_nat
  have hprices : ∀ x ∈ pairs, (IsPrice x.1 ∧ a ≤ x.1 ∧ x.1 ≤ b) ∧ 0 < x.2 := by
    intro x hx
    obtain ⟨y,hy,rfl⟩ := List.mem_map.1 hx
    have hzip := List.of_mem_zip (a := y.1) (b := y.2) (List.mem_of_mem_take hy)
    exact ⟨h y.1 hzip.1,by simp⟩
  have hlen : 0 < pairs.length := by
    simp only [pairs,List.length_map,List.length_take,List.length_zip,hweights]
    unfold maxEntries
    omega
  have htotal : 0 < (sorted.map Prod.snd).sum := by
    obtain ⟨x,hx⟩ := List.exists_mem_of_length_pos hlen
    rw [List.sum_pos_iff_exists_pos_nat]
    exact ⟨x.2,List.mem_map_of_mem (hperm.mem_iff.2 hx),(hprices x hx).2⟩
  have hpairwise : sorted.Pairwise fun a b => a.1 ≤ b.1 := by
    exact List.pairwise_insertionSort _ pairs
  obtain ⟨x,hx,hbounds⟩ := weightedScan_between
    (fun x hx => (hprices x (hperm.mem_iff.1 hx)).1) hpairwise (Nat.zero_mul 2 ▸ htotal)
    (show (sorted.map Prod.snd).sum ≤ (0 + (sorted.map Prod.snd).sum) * 2 by omega)
  rw [← hsum,hx]
  exact hbounds

theorem weightedAggregate_between {a b : Int} (h : PriceList ps) (hb : ∀ x ∈ ps, a ≤ x ∧ x ≤ b)
    (weights : List Nat) :
    a ≤ weightedAggregate ps weights ∧ weightedAggregate ps weights ≤ b := by
  have hpos := h.length_pos
  unfold weightedAggregate
  extract_lets taken
  apply weightedMedian_between
  · intro p hp
    have hmem := List.mem_of_mem_take hp
    exact ⟨h.prices p hmem,hb p hmem⟩
  · rw [List.length_take]
    unfold maxEntries
    omega
  · simp

end Weighted

end PriceOracle.Pricing
