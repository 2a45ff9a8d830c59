import PriceOracle.Pricing.Sorting

/-! # The pure core agrees with the contract

The two selections choose other pivots and send ties to other sides; both end with an order
statistic at its place. Below it the core takes the greatest of the lower part for the lower middle
price. -/

namespace PriceOracle.Pricing

open Lib.MachineInt Lib.OrderStatistic Model.Pricing

section Pairs

variable {p : List Int} {left right i j : Nat}

theorem orderPair_shuffles (hr : right < p.length) (hi : left ≤ i ∧ i ≤ right)
    (hj : left ≤ j ∧ j ≤ right) : Shuffles left right p (orderPair p i j) := by
  unfold orderPair
  split_ifs
  · exact shuffles_swap hr hi hj
  · exact Shuffles.refl p

/-- Ordering a pair leaves the smaller price first and the others alone. -/
theorem get_orderPair (hi : i < p.length) (hj : j < p.length) (hij : i ≠ j) (k : Nat) :
    get (orderPair p i j) k = if k = i then min (get p i) (get p j)
      else if k = j then max (get p i) (get p j) else get p k := by
  unfold orderPair
  by_cases hless : get p j < get p i
  · rw [if_pos hless,get_swap hi hj,min_eq_right hless.le,max_eq_left hless.le]
    split_ifs <;> first | rfl | omega
  · rw [if_neg hless,min_eq_left (not_lt.1 hless),max_eq_right (not_lt.1 hless)]
    split_ifs with hki hkj
    · rw [hki]
    · rw [hkj]
    · rfl

end Pairs

section CoreSelection

variable {p : List Int} {lo hi k fuel : Nat}

/-- `partition_core` puts a price where it belongs, ties going left. -/
theorem partitionCore_placed (hr : hi < p.length) (hlh : lo ≤ hi) :
    Placed lo hi p (partitionCore p lo hi).1 (partitionCore p lo hi).2 := by
  unfold partitionCore
  extract_lets mid arr pivot
  have hmid : lo ≤ mid ∧ mid ≤ hi := by
    omega
  have harr : Shuffles lo hi p arr := by
    have hfirst : Shuffles lo hi p (orderPair p lo mid) :=
      orderPair_shuffles hr ⟨le_refl lo,hlh⟩ hmid
    have hsecond : Shuffles lo hi (orderPair p lo mid) (orderPair (orderPair p lo mid) lo hi) :=
      orderPair_shuffles (by rw [hfirst.length]; exact hr) ⟨le_refl lo,hlh⟩ ⟨hlh,le_refl hi⟩
    have hboth := hfirst.trans hsecond
    exact hboth.trans (orderPair_shuffles (by rw [hboth.length]; exact hr) hmid ⟨hlh,le_refl hi⟩)
  have hswap : Shuffles lo hi p (swap arr mid hi) :=
    harr.trans (shuffles_swap (by rw [harr.length]; exact hr) hmid ⟨hlh,le_refl hi⟩)
  have hlen : hi < (swap arr mid hi).length := by
    rw [hswap.length]
    exact hr
  have hlast : get (swap arr mid hi) hi = pivot := by
    rw [get_swap (by rw [harr.length]; omega) (by rw [harr.length]; exact hr),if_pos rfl]
  have hstep : partitionCoreStep pivot = siftStep (· ≤ pivot) := by
    funext acc i
    unfold partitionCoreStep siftStep
    rw [swap_comm]
  rw [hstep]
  have hloop : Sifted lo hi (hi - lo) (· ≤ pivot) (swap arr mid hi)
      ((List.range' lo (hi - lo)).foldl (siftStep (· ≤ pivot)) (swap arr mid hi,lo)) :=
    siftLoop_sifted hlen (by omega)
  obtain ⟨hshuffles,hbounds,hpivot,hbelow,habove⟩ := hloop.place hlen hlh
  rw [hlast] at hpivot
  constructor
  · exact hswap.trans hshuffles
  · exact hbounds
  · intro i hl hi'
    rw [hpivot]
    exact hbelow i hl hi'
  · intro i hl hi'
    rw [hpivot]
    exact (not_le.1 (habove i hl hi')).le

/-- A window of two or three prices ends in order. -/
theorem sortTiny_spec (hr : hi < p.length) (hsize : hi = lo+1 ∨ hi = lo+2) :
    Shuffles lo hi p (sortTiny p lo hi) ∧ SortedUpTo (sortTiny p lo hi) lo hi := by
  unfold sortTiny
  extract_lets arr
  have harr : Shuffles lo hi p arr :=
    orderPair_shuffles hr ⟨le_refl lo,by omega⟩ ⟨by omega,by omega⟩
  have hlen := harr.length
  have hget : ∀ k, get arr k = if k = lo then min (get p lo) (get p (lo+1))
      else if k = lo+1 then max (get p lo) (get p (lo+1)) else get p k :=
    get_orderPair (by omega) (by omega) (by omega)
  rcases hsize with rfl | rfl
  · rw [if_neg (by omega)]
    refine ⟨harr,fun a b ha hab hb => ?_⟩
    obtain ⟨rfl,rfl⟩ : a = lo ∧ b = lo+1 := by omega
    rw [hget a,hget (a+1),if_pos rfl,if_neg (by omega),if_pos rfl]
    exact min_le_max
  · rw [if_pos (by omega)]
    have hlast : Shuffles lo (lo+2) arr (orderPair arr (lo+1) (lo+2)) :=
      orderPair_shuffles (by omega) ⟨by omega,by omega⟩ ⟨by omega,le_refl _⟩
    have hlen' := hlast.length
    have hget' : ∀ k, get (orderPair arr (lo+1) (lo+2)) k =
        if k = lo+1 then min (get arr (lo+1)) (get arr (lo+2))
        else if k = lo+2 then max (get arr (lo+1)) (get arr (lo+2)) else get arr k :=
      get_orderPair (by omega) (by omega) (by omega)
    set arr' := orderPair arr (lo+1) (lo+2)
    have hget'' : ∀ k, get (orderPair arr' lo (lo+1)) k =
        if k = lo then min (get arr' lo) (get arr' (lo+1))
        else if k = lo+1 then max (get arr' lo) (get arr' (lo+1)) else get arr' k :=
      get_orderPair (by omega) (by omega) (by omega)
    have hfirst : Shuffles lo (lo+2) arr' (orderPair arr' lo (lo+1)) :=
      orderPair_shuffles (by omega) ⟨le_refl lo,by omega⟩ ⟨by omega,by omega⟩
    have hlow : get arr lo ≤ get arr (lo+1) := by
      rw [hget lo,hget (lo+1),if_pos rfl,if_neg (by omega),if_pos rfl]
      exact min_le_max
    have hkeep : get arr' lo = get arr lo := by rw [hget',if_neg (by omega),if_neg (by omega)]
    have hmid : get arr' (lo+1) = min (get arr (lo+1)) (get arr (lo+2)) := by
      rw [hget',if_pos rfl]
    have hhigh : get arr' (lo+2) = max (get arr (lo+1)) (get arr (lo+2)) := by
      rw [hget',if_neg (by omega),if_pos rfl]
    have hstart : get (orderPair arr' lo (lo+1)) lo ≤
        get (orderPair arr' lo (lo+1)) (lo+1) := by
      rw [hget'' lo,hget'' (lo+1),if_pos rfl,if_neg (by omega),if_pos rfl]
      exact min_le_max
    have hend : get (orderPair arr' lo (lo+1)) (lo+1) ≤
        get (orderPair arr' lo (lo+1)) (lo+2) := by
      rw [hget'' (lo+1),hget'' (lo+2),if_neg (by omega),if_pos rfl,if_neg (by omega),
        if_neg (by omega),hkeep,hmid,hhigh]
      exact max_le (hlow.trans (le_max_left _ _)) min_le_max
    refine ⟨harr.trans (hlast.trans hfirst),fun a b ha hab hb => ?_⟩
    obtain ⟨rfl,rfl⟩ | ⟨rfl,rfl⟩ | ⟨rfl,rfl⟩ :
        a = lo ∧ b = lo+1 ∨ a = lo ∧ b = lo+2 ∨ a = lo+1 ∧ b = lo+2 := by omega
    · exact hstart
    · exact hstart.trans hend
    · exact hend

/-- A sorted window has every rank at its place. -/
theorem Selects.ofSorted {q : List Int} (hk : lo ≤ k ∧ k ≤ hi) (hs : Shuffles lo hi p q)
    (h : SortedUpTo q lo hi) : Selects lo hi k p (q,get q k) where
  shuffles := hs
  value := rfl
  below i hl hi' := by
    by_cases hik : i = k
    · rw [hik]
    · exact h i k hl (by omega) hk.2
  above i hi' hir := by
    by_cases hik : i = k
    · rw [hik]
    · exact h k i hk.1 (by omega) hir

/-- The selection finds the price of the wanted rank in every window it can shrink. -/
theorem quickselectLoop_selects (hk : lo ≤ k ∧ k ≤ hi) (hr : hi < p.length)
    (hfuel : hi - lo ≤ fuel) :
    Selects lo hi k p (quickselectLoop fuel p lo hi k,get (quickselectLoop fuel p lo hi k) k) := by
  induction fuel generalizing p lo hi with
  | zero =>
    apply Selects.ofSorted hk (Shuffles.refl p)
    intro a b ha hab hb
    omega
  | succ fuel ih =>
    unfold quickselectLoop
    by_cases hsingle : hi ≤ lo
    · rw [if_pos hsingle]
      apply Selects.ofSorted hk (Shuffles.refl p)
      intro a b ha hab hb
      omega
    · rw [if_neg hsingle]
      by_cases htiny : hi - lo < 3
      · rw [if_pos htiny]
        obtain ⟨hshuffles,hsorted⟩ := sortTiny_spec hr (show hi = lo+1 ∨ hi = lo+2 by omega)
        exact Selects.ofSorted hk hshuffles hsorted
      · rw [if_neg htiny]
        have hp := partitionCore_placed hr (show lo ≤ hi by omega)
        set placed := partitionCore p lo hi
        have hlen : hi < placed.1.length := by
          rw [hp.shuffles.length]
          exact hr
        have hs := hp.bounds
        dsimp only
        by_cases hlt : k < placed.2
        · rw [if_pos hlt]
          exact Selects.ofLeft hp ⟨hk.1,hlt⟩ (ih (by omega) (by omega) (by omega))
        · rw [if_neg hlt]
          by_cases hgt : placed.2 < k
          · rw [if_pos hgt]
            exact Selects.ofRight hp ⟨hgt,hk.2⟩ (ih (by omega) hlen (by omega))
          · rw [if_neg hgt]
            rw [show placed.2 = k by omega] at hp
            exact Selects.ofPlaced hp

theorem quickselectCore_selects (hk : k < p.length) :
    Selects 0 (p.length - 1) k p (quickselectCore p k,get (quickselectCore p k) k) := by
  unfold quickselectCore
  extract_lets n
  by_cases hshort : n ≤ 1 ∨ n ≤ k
  · rw [if_pos hshort]
    apply Selects.ofSorted ⟨Nat.zero_le k,by omega⟩ (Shuffles.refl p)
    intro a b ha hab hb
    omega
  · rw [if_neg hshort]
    exact quickselectLoop_selects ⟨Nat.zero_le k,by omega⟩ (by omega) (by omega)

end CoreSelection

section CoreMedian

variable {xs : List Int} {k : Nat}

theorem foldl_max_spec (a : Int) (vs : List Int) :
    vs.foldl (fun a v => if a < v then v else a) a ∈ a :: vs ∧
      ∀ v ∈ a :: vs, v ≤ vs.foldl (fun a v => if a < v then v else a) a := by
  induction vs generalizing a with
  | nil => simp
  | cons v vs ih =>
    rw [List.foldl_cons]
    obtain ⟨b,hb⟩ : ∃ b, b = if a < v then v else a := ⟨_,rfl⟩
    have hab : a ≤ b ∧ v ≤ b ∧ (b = a ∨ b = v) := by
      rw [hb]
      split_ifs <;> omega
    rw [← hb]
    obtain ⟨hmem,hmax⟩ := ih b
    obtain ⟨hba,hbv,hb⟩ := hab
    have hbmax := hmax b List.mem_cons_self
    constructor
    · rcases List.mem_cons.1 hmem with heq | hrest
      · rw [heq]
        rcases hb with rfl | rfl <;> simp
      · simp [hrest]
    · intro w hw
      rcases List.mem_cons.1 hw with rfl | hw
      · exact hba.trans hbmax
      · rcases List.mem_cons.1 hw with rfl | hw
        · exact hbv.trans hbmax
        · exact hmax w (List.mem_cons_of_mem b hw)

/-- Once rank `k + 1` is placed, the greatest price before it has rank `k`. -/
theorem Selects.lower {r : List Int × Int} (hk : k+1 < xs.length)
    (h : Selects 0 (xs.length - 1) (k+1) xs r) :
    kth xs k = some (((r.1.take (k+1)).drop 1).foldl (fun a v => if a < v then v else a)
      (get r.1 0)) := by
  have hlen : r.1.length = xs.length := h.shuffles.length
  have hget (i : Nat) (hi : i < r.1.length) : r.1[i] = get r.1 i := by
    simp [Model.Pricing.get,hi]
  have hhead : get r.1 0 :: (r.1.take (k+1)).drop 1 = r.1.take (k+1) := by
    rw [← hget 0 (by omega),List.drop_take,← List.take_succ_cons,
      ← List.drop_eq_getElem_cons (by omega),List.drop_zero]
    rfl
  obtain ⟨hmem,hmax⟩ := foldl_max_spec (get r.1 0) ((r.1.take (k+1)).drop 1)
  rw [hhead] at hmem hmax
  set v := ((r.1.take (k+1)).drop 1).foldl (fun a v => if a < v then v else a) (get r.1 0)
  have hbelow : v ≤ r.2 := by
    obtain ⟨i,hi,heq⟩ := List.mem_take_iff_getElem.1 hmem
    rw [← heq,hget i (by omega)]
    exact h.below i (Nat.zero_le i) (by omega)
  have hperm : ((r.1.take (k+1)).erase v ++ v :: r.1.drop (k+1)).Perm xs := by
    have hsplit : (r.1.take (k+1)).Perm (v :: (r.1.take (k+1)).erase v) :=
      List.perm_cons_erase hmem
    refine List.perm_middle.trans ((hsplit.symm.append_right _).trans ?_)
    rw [List.take_append_drop]
    exact h.shuffles.perm
  have hkth : kth xs ((r.1.take (k+1)).erase v).length = some v := by
    apply kth_of_split hperm
    · intro x hx
      exact hmax x (List.mem_of_mem_erase hx)
    · intro x hx
      obtain ⟨i,hi,rfl⟩ := List.mem_drop_iff_getElem.1 hx
      rw [hget (k+1 + i) (by omega)]
      exact hbelow.trans (h.above (k+1 + i) (by omega) (by omega))
  rw [List.length_erase_of_mem hmem,List.length_take,Nat.min_eq_left (by omega)] at hkth
  exact hkth

theorem medianCore_window (hlen : xs.length ≤ medianWindow) (htwo : 2 ≤ xs.length) :
    medianCore xs =
      if xs.length % 2 = 1 then get (quickselectCore xs (xs.length / 2)) (xs.length / 2)
      else midpoint (((quickselectCore xs (xs.length / 2)).take (xs.length / 2)).drop 1 |>.foldl
        (fun a v => if a < v then v else a) (get (quickselectCore xs (xs.length / 2)) 0))
        (get (quickselectCore xs (xs.length / 2)) (xs.length / 2)) := by
  rcases xs with _ | ⟨p,_ | ⟨q,ps⟩⟩
  · simp at htwo
  · simp at htwo
  · unfold medianCore
    rw [List.take_of_length_le hlen]

theorem medianCore_eq (hlen : xs.length ≤ medianWindow) : medianCore xs = computeMedian xs := by
  rcases xs with _ | ⟨p,_ | ⟨q,ps⟩⟩
  · rfl
  · rfl
  · have htwo : 2 ≤ (p :: q :: ps).length := by simp
    rw [medianCore_window hlen htwo,computeMedian_kth (List.cons_ne_nil p _)]
    set xs := p :: q :: ps
    have hselects := quickselectCore_selects (show xs.length / 2 < xs.length by omega)
    obtain ⟨-,hupper⟩ := hselects.ranked (by omega)
    by_cases hodd : xs.length % 2 = 1
    · rw [if_pos hodd,if_neg (by omega),hupper,Option.getD_some]
    · rw [if_neg hodd,if_pos (by omega),hupper,Option.getD_some]
      obtain ⟨k,hk⟩ : ∃ k, xs.length / 2 = k+1 := ⟨xs.length / 2 - 1,by omega⟩
      rw [hk] at hselects ⊢
      rw [Nat.add_sub_cancel,hselects.lower (by omega),Option.getD_some]

end CoreMedian

theorem meanCore_eq (ps : List Int) : meanCore ps = computeMean ps := rfl

/-- Within the window and for every trim percentage, the trimmed mean of the core is that of the
contract, and its slice is in range. -/
theorem trimmedMeanCore_eq {ps : List Int} {t : Nat} (hlen : ps.length ≤ medianWindow)
    (ht : t ≤ 100) : trimmedMeanCore ps t = some (computeTrimmedMean ps t) := by
  have hsame : (ps.insertionSort (· ≤ ·)).length = ps.length :=
    (List.perm_insertionSort _ ps).length_eq
  unfold trimmedMeanCore computeTrimmedMean
  dsimp only
  rw [List.take_of_length_le hlen,sortPrices_eq,hsame]
  set sorted := ps.insertionSort (· ≤ ·)
  set trimCount := min (satMul32 ps.length t / 100 / 2) (ps.length - 1) with htrim
  have hhalf : trimCount ≤ ps.length / 2 := by
    have hmul : ps.length * t ≤ ps.length * 100 := Nat.mul_le_mul_left ps.length ht
    have hsat : satMul32 ps.length t ≤ ps.length * t := Nat.min_le_left _ _
    omega
  by_cases hzero : ps.length = 0
  · rw [if_pos hzero,if_pos hzero]
  · rw [if_neg hzero,if_neg hzero]
    by_cases hnone : t = 0
    · rw [if_pos hnone,if_pos hnone,meanCore_eq]
    · rw [if_neg hnone,if_neg hnone]
      by_cases hkeep : trimCount = 0
      · rw [if_pos hkeep,if_pos hkeep,meanCore_eq]
      · have hslice : slice sorted trimCount (ps.length - trimCount) =
            some ((sorted.drop trimCount).take (ps.length - trimCount - trimCount)) := by
          unfold slice
          rw [if_pos (by omega)]
        rw [hslice,Option.bind_eq_bind,Option.bind_some]
        split_ifs
        · rfl
        · rfl

/-- The pure core agrees with the contract on every list within its window: both medians, and both
trimmed means at every percentage up to a hundred. -/
theorem core_agrees (prices : List Int) (hlen : prices.length ≤ medianWindow) :
    medianCore prices = computeMedian prices ∧
      ∀ t ≤ 100, trimmedMeanCore prices t = some (computeTrimmedMean prices t) :=
  ⟨medianCore_eq hlen,fun _ ht => trimmedMeanCore_eq hlen ht⟩

theorem core_agrees_four : medianCore [7, 3, 5, 3] = computeMedian [7, 3, 5, 3] ∧
    ∀ t ≤ 100, trimmedMeanCore [7, 3, 5, 3] t = some (computeTrimmedMean [7, 3, 5, 3] t) :=
  core_agrees [7,3,5,3] (by decide)

end PriceOracle.Pricing
