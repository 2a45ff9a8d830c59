import PriceOracle.Pricing.Sorting

/-! # The fault-tolerant aggregate

The interquartile fence keeps a window of the sorted prices that holds the middle half, and the
trimming takes `f` prices off each side of it if more than `2 f` are left. With fewer left the
window is used as it is: its middle is still among the honest prices, but its ends need not be. -/

namespace PriceOracle.Pricing

open Lib.MachineInt Lib.OrderStatistic Model.Pricing

def window (s : List Int) (i m : Nat) : List Int := (s.drop i).take m

section Windows

variable {s ps : List Int} {i m t k n : Nat} {S : Finset Nat}

theorem window_length (h : i + m ≤ s.length) : (window s i m).length = m := by
  unfold window
  rw [List.length_take,List.length_drop]
  omega

theorem window_getElem? (hk : k < m) : (window s i m)[k]? = s[i + k]? := by
  unfold window
  rw [List.getElem?_take_of_lt hk,List.getElem?_drop]

theorem window_window (h : t + k ≤ m) : ((window s i m).drop t).take k = window s (i + t) k := by
  unfold window
  rw [List.drop_take,List.take_take,List.drop_drop,Nat.min_eq_left (by omega)]

theorem window_sorted (hs : s.Pairwise (· ≤ ·)) : (window s i m).Pairwise (· ≤ ·) :=
  hs.sublist ((List.take_sublist _ _).trans (List.drop_sublist _ _))

theorem window_prices (h : PriceList s) (hm : 0 < m) (him : i + m ≤ s.length) :
    PriceList (window s i m) := by
  apply h.sublist
  · apply List.ne_nil_of_length_pos
    rw [window_length him]
    exact hm
  · exact (List.take_sublist _ _).trans (List.drop_sublist _ _)

theorem withinRest_of_window {r : Int} (hs : s = ps.insertionSort (· ≤ ·)) (hm : 0 < m)
    (hlow : S.card ≤ i) (hhigh : i + m + S.card ≤ ps.length)
    (hr : ∀ a b, (∀ x ∈ window s i m, a ≤ x ∧ x ≤ b) → a ≤ r ∧ r ≤ b) : WithinRest ps S r := by
  have hlen : s.length = ps.length := by
    rw [hs]
    exact (List.perm_insertionSort _ ps).length_eq
  have hcentral : ∀ x ∈ window s i m, WithinRest ps S x := by
    intro x hx
    obtain ⟨k,hk⟩ := List.mem_iff_getElem?.1 hx
    have hkm : k < m := by
      have hlt := (List.getElem?_eq_some_iff.1 hk).1
      rwa [window_length (by omega)] at hlt
    rw [window_getElem? hkm,hs] at hk
    exact withinRest_of_kth hk (by omega) (by omega)
  have hne : window s i m ≠ [] := by
    apply List.ne_nil_of_length_pos
    rw [window_length (by omega)]
    exact hm
  obtain ⟨hmin,hmax⟩ := hr ((window s i m).min hne) ((window s i m).max hne) fun x hx =>
    ⟨List.min_le_of_mem hx,List.le_max_of_mem hx⟩
  exact (hcentral _ (List.min_mem hne)).between (hcentral _ (List.max_mem hne)) hmin hmax

end Windows

section Statistics

variable {s ps : List Int} {i m : Nat} {a b : Int}

theorem sortPrices_of_sorted (hs : s.Pairwise (· ≤ ·)) : sortPrices s = s := by
  rw [sortPrices_eq]
  exact (sorted_unique (List.Perm.refl s) hs).symm

/-- How many of `m` prices a ten percent trim drops on each side. -/
def tenthTrim (m : Nat) : Nat := min (satMul32 m 10 / 100 / 2) (m - 1)

theorem tenthTrim_lt (hm : 0 < m) : tenthTrim m + tenthTrim m < m := by
  unfold tenthTrim satMul32
  omega

/-- The trimmed mean of a window is the mean of a narrower one. -/
theorem computeTrimmedMean_window (hs : s.Pairwise (· ≤ ·)) (hm : 0 < m)
    (him : i + m ≤ s.length) : computeTrimmedMean (window s i m) 10 =
      computeMean (window s (i + tenthTrim m) (m - tenthTrim m - tenthTrim m)) := by
  have htrim := tenthTrim_lt hm
  have hlen := window_length him
  unfold computeTrimmedMean
  rw [hlen,sortPrices_of_sorted (window_sorted hs),if_neg hm.ne',if_neg (by omega)]
  change (if tenthTrim m = 0 then _ else _) = _
  by_cases hzero : tenthTrim m = 0
  · rw [if_pos hzero,hzero]
    rfl
  · rw [if_neg hzero]
    change (if (((window s i m).drop (tenthTrim m)).take (m - tenthTrim m - tenthTrim m)).isEmpty =
      true then _ else computeMean (((window s i m).drop (tenthTrim m)).take
        (m - tenthTrim m - tenthTrim m))) = _
    rw [window_window (by omega),if_neg]
    rw [List.isEmpty_iff]
    intro hnil
    have hnarrow : (window s (i + tenthTrim m) (m - tenthTrim m - tenthTrim m)).length =
        m - tenthTrim m - tenthTrim m := window_length (by omega)
    rw [hnil,List.length_nil] at hnarrow
    omega

/-- The statistic a fault-tolerant round takes of its consensus set. -/
def consensusPrice (method : Nat) (consensus : List Int) : Int :=
  match method with
  | 1 => computeMean consensus
  | 2 => computeTrimmedMean consensus 10
  | _ => computeMedian consensus

end Statistics

section Fence

variable {ps s : List Int} {f : Nat} {q1 q3 margin : Int}

theorem fence_spec (hq1 : IsPrice q1) (hq3 : IsPrice q3) (hle : q1 ≤ q3)
    (hmargin : margin = (satMul (satSub q3 q1) 3).tdiv 2) :
    satSub q1 margin ≤ q1 ∧ q3 ≤ satAdd q3 margin := by
  have hpos : 0 ≤ satMul (satSub q3 q1) 3 := by
    unfold satMul satSub saturate i128Min i128Max
    omega
  have hnonneg : 0 ≤ margin := by
    rw [hmargin,Int.tdiv_eq_ediv_of_nonneg hpos]
    omega
  obtain ⟨hpos1,hmin1,hmax1⟩ := hq1
  obtain ⟨hpos3,hmin3,hmax3⟩ := hq3
  unfold satSub satAdd saturate
  omega

/-- What the fence leaves of the sorted prices is a window around the quartiles. -/
theorem accepted_window (h : PriceList ps) (hs : s = ps.insertionSort (· ≤ ·))
    (hn : 4 ≤ ps.length) (hq1 : q1 = get s (ps.length / 4))
    (hq3 : q3 = get s (ps.length * 3 / 4 - 1))
    (hmargin : margin = (satMul (satSub q3 q1) 3).tdiv 2) :
    ∃ a l, (s.filter fun v => satSub q1 margin ≤ v ∧ v ≤ satAdd q3 margin) = window s a l ∧
      a ≤ ps.length / 4 ∧ ps.length * 3 / 4 ≤ a + l ∧ a + l ≤ ps.length := by
  have hperm : s.Perm ps := by
    rw [hs]
    exact List.perm_insertionSort _ ps
  have hsorted : s.Pairwise (· ≤ ·) := by
    rw [hs]
    exact List.pairwise_insertionSort _ ps
  have hprices : PriceList s := h.perm hperm
  have hlen : s.length = ps.length := hperm.length_eq
  have hget (i : Nat) (hi : i < s.length) : s[i]? = some (get s i) := by
    simp [Model.Pricing.get,hi]
  have hkth1 : kth ps (ps.length / 4) = some q1 := by
    rw [kth,← hs,hq1]
    exact hget _ (by omega)
  have hkth3 : kth ps (ps.length * 3 / 4 - 1) = some q3 := by
    rw [kth,← hs,hq3]
    exact hget _ (by omega)
  have hle : q1 ≤ q3 := kth_le_kth (by omega) hkth1 hkth3
  obtain ⟨hlow,hhigh⟩ := fence_spec (hq1 ▸ hprices.get (by omega)) (hq3 ▸ hprices.get (by omega))
    hle hmargin
  obtain ⟨mid,hmid,lo,hi,heq,hlo,hhi⟩ :=
    filter_between hsorted (satSub q1 margin) (satAdd q3 margin)
  have htotal : lo.length + mid.length + hi.length = s.length := by
    rw [heq,List.length_append,List.length_append]
  refine ⟨lo.length,mid.length,?_,?_,?_,?_⟩
  · rw [hmid]
    unfold window
    rw [heq]
    simp
  · -- the lower quartile is not below the fence
    by_contra hlt
    have hmem : q1 ∈ lo := by
      have hat := hget (ps.length / 4) (by omega)
      rw [← hq1,heq,List.append_assoc,List.getElem?_append_left (by omega)] at hat
      exact List.mem_of_getElem? hat
    exact absurd (hlo q1 hmem) (not_lt.2 hlow)
  · -- the upper quartile is not above it
    by_contra hlt
    have hmem : q3 ∈ hi := by
      have hat := hget (ps.length * 3 / 4 - 1) (by omega)
      rw [← hq3,heq,List.getElem?_append_right (by simp; omega)] at hat
      exact List.mem_of_getElem? hat
    exact absurd (hhi q3 hmem) (not_lt.2 hhigh)
  · omega

/-- The aggregate is the statistic of what the fence leaves, less `f` prices on each side where more
than twice as many are left. -/
theorem aggregateBftPrices_of_accepted (h : PriceList ps) (hs : s = ps.insertionSort (· ≤ ·))
    (hn : 4 ≤ ps.length) {a l : Nat} (hq1 : q1 = get s (ps.length / 4))
    (hq3 : q3 = get s (ps.length * 3 / 4 - 1)) (hmargin : margin = (satMul (satSub q3 q1) 3).tdiv 2)
    (haccepted : (s.filter fun v => satSub q1 margin ≤ v ∧ v ≤ satAdd q3 margin) = window s a l)
    (hl : 0 < l) (hle : a + l ≤ ps.length) (f method : Nat) :
    aggregateBftPrices ps f method = consensusPrice method
      (if 0 < min f (l / 2) ∧ 2 * min f (l / 2) < l then
        window s (a + min f (l / 2)) (l - min f (l / 2) - min f (l / 2)) else window s a l) := by
  have hlen : s.length = ps.length := by
    rw [hs]
    exact (List.perm_insertionSort _ ps).length_eq
  have hwindow : (window s a l).length = l := window_length (by omega)
  have hcount := h.count
  unfold aggregateBftPrices
  dsimp only
  rw [if_neg (by omega),if_neg (by omega),sortPrices_eq,← hs,if_pos hn,← hq1,← hq3,← hmargin,
    haccepted]
  have hne : (window s a l).isEmpty = false := by
    rw [List.isEmpty_eq_false_iff]
    apply List.ne_nil_of_length_pos
    omega
  have hdouble : satMul32 (min f (l / 2)) 2 = 2 * min f (l / 2) := by
    unfold satMul32 u32Max
    omega
  rw [hne,if_neg Bool.false_ne_true,hwindow,hdouble]
  by_cases htrim : 0 < min f (l / 2) ∧ 2 * min f (l / 2) < l
  · have hkept : (((window s a l).drop (min f (l / 2))).take
        (l - min f (l / 2) - min f (l / 2))).isEmpty = false := by
      rw [window_window (by omega),List.isEmpty_eq_false_iff]
      apply List.ne_nil_of_length_pos
      rw [window_length (by omega)]
      omega
    rw [if_pos htrim,if_pos htrim,hkept,if_neg Bool.false_ne_true,window_window (by omega)]
    rfl
  · rw [if_neg htrim,if_neg htrim]
    rfl

end Fence

section Tolerance

variable {ps s : List Int} {S : Finset Nat} {i m n f method : Nat}

/-- A window that leaves as many prices on either side as are faulty has an honest mean. -/
theorem mean_withinRest (h : PriceList ps) (hs : s = ps.insertionSort (· ≤ ·)) (hm : 0 < m)
    (hlow : S.card ≤ i) (hhigh : i + m + S.card ≤ ps.length) :
    WithinRest ps S (computeMean (window s i m)) := by
  have hperm : s.Perm ps := by
    rw [hs]
    exact List.perm_insertionSort _ ps
  have hprices : PriceList (window s i m) :=
    window_prices (h.perm hperm) hm (by rw [hperm.length_eq]; omega)
  exact withinRest_of_window hs hm hlow hhigh fun a b hb => computeMean_between hprices hb

/-- The median of a window is honest once its middle is. -/
theorem median_withinRest (h : PriceList ps) (hs : s = ps.insertionSort (· ≤ ·)) (hm : 0 < m)
    (him : i + m ≤ ps.length) (hlow : S.card ≤ i + (m - 1) / 2)
    (hhigh : i + m / 2 + S.card < ps.length) :
    WithinRest ps S (computeMedian (window s i m)) := by
  have hsorted : s.Pairwise (· ≤ ·) := by
    rw [hs]
    exact List.pairwise_insertionSort _ ps
  have hlen : s.length = ps.length := by
    rw [hs]
    exact (List.perm_insertionSort _ ps).length_eq
  have hwindow : (window s i m).length = m := window_length (by omega)
  have hne : window s i m ≠ [] := by
    apply List.ne_nil_of_length_pos
    omega
  have hkth (k : Nat) (hk : k < m) : kth (window s i m) k = kth ps (i + k) := by
    rw [kth_of_sorted (window_sorted hsorted),window_getElem? hk,kth,← hs]
  rw [computeMedian_kth hne,hwindow,hkth (m / 2) (by omega)]
  obtain ⟨b,hb⟩ := exists_kth (show i + m / 2 < ps.length by omega)
  have hupper : WithinRest ps S b := withinRest_of_kth hb (by omega) (by omega)
  by_cases heven : m % 2 = 0
  · rw [if_pos heven,hkth (m / 2 - 1) (by omega)]
    obtain ⟨a,ha⟩ := exists_kth (show i + (m / 2 - 1) < ps.length by omega)
    have hlower : WithinRest ps S a := withinRest_of_kth ha (by omega) (by omega)
    have hab := kth_le_kth (by omega) ha hb
    rw [ha,hb,Option.getD_some,Option.getD_some,
      midpoint_eq (h.prices a (kth_mem ha)) (h.prices b (kth_mem hb)) hab]
    exact hlower.between hupper (by omega) (by omega)
  · rw [if_neg heven,hb,Option.getD_some]
    exact hupper

/-- Whatever at most `f` of `n` sources report, the aggregate is between two honest prices. -/
def Tolerates (n f method : Nat) : Prop :=
  ∀ (prices : List Int) (faulty : Finset Nat), prices.length = n → (∀ p ∈ prices, IsPrice p) →
    faulty.card ≤ f → WithinRest prices faulty (aggregateBftPrices prices f method)

/-- The sources a method needs beyond `3 f + 1`: the mean takes what the fence leaves as it is, the
trimmed mean drops a tenth of it, and the median needs no more. -/
def EnoughSources (n f method : Nat) : Prop :=
  match method with
  | 1 => 4 * f ≤ n
  | 2 => 3 * f ≤ n * 3 / 4 + tenthTrim (2 * f)
  | _ => True

theorem tolerates_of_enough (hf : 1 ≤ f) (hn : 3 * f + 1 ≤ n) (hmax : n < 2 ^ 32)
    (henough : EnoughSources n f method) : Tolerates n f method := by
  intro ps S hlen hprices hcard
  have h : PriceList ps := by
    refine ⟨List.ne_nil_of_length_pos (by omega),by omega,hprices⟩
  obtain ⟨s,hs⟩ : ∃ s, s = ps.insertionSort (· ≤ ·) := ⟨_,rfl⟩
  have hsorted : s.Pairwise (· ≤ ·) := by
    rw [hs]
    exact List.pairwise_insertionSort _ ps
  have hslen : s.length = ps.length := by
    rw [hs]
    exact (List.perm_insertionSort _ ps).length_eq
  obtain ⟨a,l,haccepted,ha,hal,hle⟩ := accepted_window h hs (by omega) rfl rfl rfl
  rw [aggregateBftPrices_of_accepted h hs (by omega) rfl rfl rfl haccepted (by omega) hle]
  by_cases htrim : 0 < min f (l / 2) ∧ 2 * min f (l / 2) < l
  · rw [if_pos htrim]
    obtain ⟨i,hi⟩ : ∃ i, i = a + min f (l / 2) := ⟨_,rfl⟩
    obtain ⟨m,hm⟩ : ∃ m, m = l - min f (l / 2) - min f (l / 2) := ⟨_,rfl⟩
    rw [← hi,← hm]
    -- `f` prices are dropped on each side, or one is left, and that one is in the middle
    have hcentral : f ≤ i ∧ i + m + f ≤ n ∧ 0 < m := by omega
    have htenth := tenthTrim_lt hcentral.2.2
    unfold consensusPrice
    split
    · exact mean_withinRest h hs (by omega) (by omega) (by omega)
    · rw [computeTrimmedMean_window hsorted (by omega) (by omega)]
      exact mean_withinRest h hs (by omega) (by omega) (by omega)
    · exact median_withinRest h hs (by omega) (by omega) (by omega) (by omega)
  · rw [if_neg htrim]
    have hpair : 0 < l ∧ l % 2 = 0 ∧ l ≤ 2 * f := by omega
    unfold EnoughSources at henough
    unfold consensusPrice
    split at henough
    · exact mean_withinRest h hs (by omega) (by omega) (by omega)
    · have htenth := tenthTrim_lt hpair.1
      have hwider : tenthTrim (2 * f) + l ≤ tenthTrim l + 2 * f := by
        unfold tenthTrim satMul32
        omega
      rw [computeTrimmedMean_window hsorted (by omega) (by omega)]
      exact mean_withinRest h hs (by omega) (by omega) (by omega)
    · exact median_withinRest h hs (by omega) (by omega) (by omega) (by omega)

end Tolerance

/-- Sorted prices whose first `f` are faulty: `a` far below the honest ones, the others just below
them; `b` honest prices lie far above. -/
def splitPrices (f a b : Nat) : List Int :=
  List.replicate a 1 ++ (List.replicate (f - a) 99 ++
    (List.replicate (f + a) 100 ++ List.replicate b 1000))

section Split

variable {f a b i m k n method : Nat}

theorem splitPrices_length (ha : a ≤ f) : (splitPrices f a b).length = 2 * f + a + b := by
  simp only [splitPrices,List.length_append,List.length_replicate]
  omega

theorem splitPrices_price : ∀ p ∈ splitPrices f a b, IsPrice p := by
  intro p hp
  simp only [splitPrices,List.mem_append,List.mem_replicate] at hp
  rcases hp with ⟨-,rfl⟩ | ⟨-,rfl⟩ | ⟨-,rfl⟩ | ⟨-,rfl⟩ <;> decide

theorem splitPrices_sorted : (splitPrices f a b).Pairwise (· ≤ ·) := by
  simp only [splitPrices,List.pairwise_append,List.pairwise_replicate,List.mem_append,
    List.mem_replicate]
  refine ⟨by simp,⟨by simp,⟨by simp,by simp,?_⟩,?_⟩,?_⟩ <;> rintro x ⟨-,rfl⟩ y hy <;> omega

theorem get_splitPrices (ha : a ≤ f) (hk : k < 2 * f + a + b) : get (splitPrices f a b) k =
    if k < a then 1 else if k < f then 99 else if k < 2 * f + a then 100 else 1000 := by
  unfold Model.Pricing.get splitPrices
  simp only [List.getD_eq_getElem?_getD,List.getElem?_append,List.length_replicate,
    List.getElem?_replicate]
  split_ifs <;> first | rfl | omega

theorem splitPrices_accepted (ha : a ≤ f) :
    ((splitPrices f a b).filter fun v => satSub 99 1 ≤ v ∧ v ≤ satAdd 100 1) =
      window (splitPrices f a b) a (2 * f) := by
  have hmid : window (splitPrices f a b) a (2 * f) =
      List.replicate (f - a) 99 ++ List.replicate (f + a) 100 := by
    unfold window splitPrices
    rw [List.drop_left' (List.length_replicate ..),← List.append_assoc,
      List.take_left' (by simp; omega)]
  have hfence : satSub 99 1 = 98 ∧ satAdd 100 1 = 101 := by decide
  rw [hmid,hfence.1,hfence.2]
  simp [splitPrices,List.filter_append]

/-- A window that starts at a faulty price and ends before the high ones has too low a mean. -/
theorem splitPrices_mean_lt (ha : a ≤ i) (hi : i < f) (hm : 0 < m) (him : i + m ≤ 2 * f + a)
    (hmax : 2 * f + a + b < 2 ^ 32) : computeMean (window (splitPrices f a b) i m) < 100 := by
  have hlen : (splitPrices f a b).length = 2 * f + a + b := splitPrices_length (by omega)
  have hprices : PriceList (splitPrices f a b) :=
    ⟨List.ne_nil_of_length_pos (by omega),by omega,splitPrices_price⟩
  have hwindow : (window (splitPrices f a b) i m).length = m := window_length (by omega)
  have h : PriceList (window (splitPrices f a b) i m) := window_prices hprices hm (by omega)
  have hfirst : window (splitPrices f a b) i m =
      99 :: window (splitPrices f a b) (i+1) (m - 1) := by
    have hget : get (splitPrices f a b) i = 99 := by
      rw [get_splitPrices (by omega) (by omega),if_neg (by omega),if_pos hi]
    obtain ⟨k,rfl⟩ : ∃ k, m = k+1 := ⟨m - 1,by omega⟩
    unfold window
    rw [List.drop_eq_getElem_cons (by omega),List.take_succ_cons,Nat.add_sub_cancel]
    simpa [Model.Pricing.get,hlen,show i < 2 * f + a + b by omega] using hget
  have hrest : ∀ x ∈ window (splitPrices f a b) (i+1) (m - 1), x ≤ 100 := by
    intro x hx
    obtain ⟨k,hk⟩ := List.mem_iff_getElem?.1 hx
    have hkm : k < m - 1 := by
      have hlt := (List.getElem?_eq_some_iff.1 hk).1
      rwa [window_length (by omega)] at hlt
    rw [window_getElem? hkm] at hk
    have hget : get (splitPrices f a b) (i+1 + k) = x := by simp [Model.Pricing.get,hk]
    rw [← hget,get_splitPrices (by omega) (by omega)]
    split_ifs <;> omega
  rw [computeMean_eq h.nonempty h.count fun p hp => ⟨(h.prices p hp).1.le,(h.prices p hp).2.2⟩,
    hwindow]
  apply Int.ediv_lt_of_lt_mul (by omega)
  have hsum := List.sum_le_card_nsmul _ 100 hrest
  rw [window_length (by omega),Int.nsmul_eq_mul] at hsum
  rw [hfirst,List.sum_cons]
  omega

/-- With fewer sources the lowest faulty prices pull the mean below every honest price. -/
theorem not_tolerates (hf : 1 ≤ f) (hn : 3 * f + 1 ≤ n) (hmax : n < 2 ^ 32)
    (hfew : ¬EnoughSources n f method) : ¬Tolerates n f method := by
  obtain ⟨a,ha⟩ : ∃ a, a = n * 3 / 4 - 2 * f := ⟨_,rfl⟩
  obtain ⟨b,hb⟩ : ∃ b, b = n - n * 3 / 4 := ⟨_,rfl⟩
  have hfew' : n < 4 * f ∧ (method = 1 ∨ method = 2 ∧ a + tenthTrim (2 * f) < f) := by
    unfold EnoughSources at hfew
    split at hfew
    · exact ⟨by omega,.inl rfl⟩
    · exact ⟨by omega,.inr ⟨rfl,by omega⟩⟩
    · exact absurd trivial hfew
  have hlen : (splitPrices f a b).length = n := by
    rw [splitPrices_length (by omega)]
    omega
  have h : PriceList (splitPrices f a b) :=
    ⟨List.ne_nil_of_length_pos (by omega),by omega,splitPrices_price⟩
  have hs : splitPrices f a b = (splitPrices f a b).insertionSort (· ≤ ·) :=
    sorted_unique (List.Perm.refl _) splitPrices_sorted
  have hq1 : 99 = get (splitPrices f a b) ((splitPrices f a b).length / 4) := by
    rw [get_splitPrices (by omega) (by omega),if_neg (by omega),if_pos (by omega)]
  have hq3 : 100 = get (splitPrices f a b) ((splitPrices f a b).length * 3 / 4 - 1) := by
    rw [get_splitPrices (by omega) (by omega),if_neg (by omega),if_neg (by omega),
      if_pos (by omega)]
  have hbft := aggregateBftPrices_of_accepted h hs (by omega) hq1 hq3 (by decide)
    (splitPrices_accepted (by omega)) (by omega) (by omega) f method
  rw [if_neg (by omega)] at hbft
  have hlow : aggregateBftPrices (splitPrices f a b) f method < 100 := by
    rw [hbft]
    rcases hfew'.2 with rfl | ⟨rfl,hlt⟩
    · exact splitPrices_mean_lt (le_refl a) (by omega) (by omega) (by omega) (by omega)
    · change computeTrimmedMean _ 10 < 100
      rw [computeTrimmedMean_window splitPrices_sorted (by omega) (by omega)]
      exact splitPrices_mean_lt (by omega) hlt (by omega) (by omega) (by omega)
  intro htolerates
  obtain ⟨⟨i,x,hi,hx,hle⟩,-⟩ := htolerates (splitPrices f a b) (Finset.range f) hlen
    splitPrices_price (by simp)
  have hin : i < 2 * f + a + b := by
    rw [← splitPrices_length (by omega)]
    exact (List.getElem?_eq_some_iff.1 hx).1
  have hget : get (splitPrices f a b) i = x := by simp [Model.Pricing.get,hx]
  rw [get_splitPrices (by omega) hin] at hget
  rw [Finset.mem_range] at hi
  split_ifs at hget <;> omega

end Split

/-- The aggregate of `n ≥ 3 f + 1` positive prices, `f` of them faulty, is always among the honest
prices exactly if there are enough sources for the method. -/
theorem tolerates_iff_enough (n f method : Nat) (hf : 1 ≤ f) (hn : 3 * f + 1 ≤ n)
    (hmax : n < 2 ^ 32) : Tolerates n f method ↔ EnoughSources n f method := by
  constructor
  · intro h
    by_contra hfew
    exact not_tolerates hf hn hmax hfew h
  · exact tolerates_of_enough hf hn hmax

theorem tolerates_four_mean : Tolerates 4 1 1 :=
  (tolerates_iff_enough 4 1 1 (by decide) (by decide) (by decide)).2 (show 4 * 1 ≤ 4 by decide)

/-- Seven sources, the first two faulty: the fence leaves four prices, none is trimmed, and their
mean is below every honest price. -/
theorem mean_escapes_honest : ¬WithinRest [1, 99, 100, 100, 100, 1000, 1000] {0, 1}
    (aggregateBftPrices [1, 99, 100, 100, 100, 1000, 1000] 2 1) := by
  have hprice : aggregateBftPrices [1,99,100,100,100,1000,1000] 2 1 = 99 := by decide
  rw [hprice]
  rintro ⟨⟨i,x,hi,hx,hle⟩,-⟩
  have hin : i < 7 := (List.getElem?_eq_some_iff.1 hx).1
  have hhonest : ∀ i < 7, i ∉ ({0, 1} : Finset Nat) →
      100 ≤ get [1,99,100,100,100,1000,1000] i := by decide
  have hget : get [1,99,100,100,100,1000,1000] i = x := by simp [Model.Pricing.get,hx]
  have hbound := hhonest i hin hi
  omega

end PriceOracle.Pricing
