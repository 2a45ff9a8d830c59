import PriceOracle.Model.Pricing

/-! # Selection in place

`select_kth` narrows a range around the wanted rank, rearranging prices by swaps inside the range.
Whatever pivot the medians of five suggest, the range shrinks and the price it returns is an order
statistic, so `compute_median` is the median. -/

namespace PriceOracle.Pricing

open Lib.MachineInt Lib.OrderStatistic Model.Pricing

/-- The prices of `left..=right` are rearranged, and the others are where they were. -/
structure Shuffles (left right : Nat) (p q : List Int) : Prop where
  perm : q.Perm p
  outside : ∀ i, i < left ∨ right < i → get q i = get p i
  inside : ∀ i, left ≤ i → i ≤ right → ∃ j, left ≤ j ∧ j ≤ right ∧ get q i = get p j

section Shuffles

variable {left right i j k : Nat} {p q r : List Int}

theorem Shuffles.refl (p : List Int) : Shuffles left right p p :=
  ⟨List.Perm.refl p,fun _ _ => rfl,fun i hl hr => ⟨i,hl,hr,rfl⟩⟩

theorem Shuffles.trans (h : Shuffles left right p q) (h' : Shuffles left right q r) :
    Shuffles left right p r where
  perm := h'.perm.trans h.perm
  outside i hi := (h'.outside i hi).trans (h.outside i hi)
  inside i hl hr := by
    obtain ⟨j,hjl,hjr,hj⟩ := h'.inside i hl hr
    obtain ⟨k,hkl,hkr,hk⟩ := h.inside j hjl hjr
    exact ⟨k,hkl,hkr,hj.trans hk⟩

theorem Shuffles.length (h : Shuffles left right p q) : q.length = p.length := h.perm.length_eq

/-- A rearrangement of a smaller range is one of the larger. -/
theorem Shuffles.widen {left' right' : Nat} (h : Shuffles left right p q) (hl : left' ≤ left)
    (hr : right ≤ right') : Shuffles left' right' p q where
  perm := h.perm
  outside i hi := h.outside i (by omega)
  inside i hil hir := by
    by_cases hin : left ≤ i ∧ i ≤ right
    · obtain ⟨j,hjl,hjr,hj⟩ := h.inside i hin.1 hin.2
      exact ⟨j,by omega,by omega,hj⟩
    · exact ⟨i,hil,hir,h.outside i (by omega)⟩

theorem Shuffles.all {P : Int → Prop} (h : Shuffles left right p q)
    (hP : ∀ i, left ≤ i → i ≤ right → P (get p i)) :
    ∀ i, left ≤ i → i ≤ right → P (get q i) := by
  intro i hl hr
  obtain ⟨j,hjl,hjr,hj⟩ := h.inside i hl hr
  rw [hj]
  exact hP j hjl hjr

theorem swap_perm (hi : i < p.length) (hj : j < p.length) : (swap p i j).Perm p := by
  have hget (k : Nat) (hk : k < p.length) : get p k = p[k] := by simp [Model.Pricing.get,hk]
  rw [swap,hget i hi,hget j hj]
  exact List.set_set_perm hi hj

theorem get_swap (hi : i < p.length) (hj : j < p.length) (k : Nat) :
    get (swap p i j) k = if k = j then get p i else if k = i then get p j else get p k := by
  by_cases hkj : k = j
  · subst hkj
    simp [Model.Pricing.get,swap,hj]
  · by_cases hki : k = i
    · subst hki
      simp [Model.Pricing.get,swap,hi,hkj,Ne.symm hkj]
    · simp [Model.Pricing.get,swap,hkj,hki,Ne.symm hkj,Ne.symm hki]

theorem shuffles_swap (hr : right < p.length) (hi : left ≤ i ∧ i ≤ right)
    (hj : left ≤ j ∧ j ≤ right) : Shuffles left right p (swap p i j) where
  perm := swap_perm (by omega) (by omega)
  outside k hk := by
    rw [get_swap (by omega) (by omega),if_neg (by omega),if_neg (by omega)]
  inside k hkl hkr := by
    rw [get_swap (by omega) (by omega)]
    split_ifs
    · exact ⟨i,hi.1,hi.2,rfl⟩
    · exact ⟨j,hj.1,hj.2,rfl⟩
    · exact ⟨k,hkl,hkr,rfl⟩

theorem shuffles_foldl {f : List Int → Nat → List Int} {xs : List Nat} (hr : right < p.length)
    (hf : ∀ i ∈ xs, ∀ q : List Int, right < q.length → Shuffles left right q (f q i)) :
    Shuffles left right p (xs.foldl f p) := by
  induction xs generalizing p with
  | nil => exact Shuffles.refl p
  | cons i xs ih =>
    have hfirst := hf i (by simp) p hr
    apply hfirst.trans
    apply ih
    · rw [hfirst.length]
      exact hr
    · intro j hj
      exact hf j (by simp [hj])

end Shuffles

section Pivots

variable {left right : Nat} {p : List Int}

theorem insertLeft_shuffles {j : Nat} (hj : j ≤ right) (hr : right < p.length) :
    Shuffles left right p (insertLeft left j p) := by
  induction j generalizing p with
  | zero => exact Shuffles.refl p
  | succ j ih =>
    unfold insertLeft
    split_ifs with hless
    · have hswap : Shuffles left right p (swap p (j+1) j) :=
        shuffles_swap hr ⟨by omega,by omega⟩ ⟨by omega,by omega⟩
      apply hswap.trans
      apply ih (by omega)
      rw [hswap.length]
      exact hr
    · exact Shuffles.refl p

theorem medianOfFive_shuffles (hr : right < p.length) :
    Shuffles left right p (medianOfFive p left right).1 := by
  apply shuffles_foldl hr
  intro i hi q hq
  rw [List.mem_range'_1] at hi
  exact insertLeft_shuffles (by omega) hq

theorem medianOfFive_bounds (p : List Int) {left right : Nat} (hlr : left ≤ right) :
    left ≤ (medianOfFive p left right).2 ∧ (medianOfFive p left right).2 ≤ right := by
  dsimp only [medianOfFive]
  omega

/-- Gathering medians fills the front of the range, at least one place of it. -/
theorem gatherMedians_spec (fuel store i : Nat) (hr : right < p.length) (hls : left ≤ store)
    (hsi : store ≤ i) (hsr : store ≤ right+1) :
    Shuffles left right p (gatherMedians right fuel p store i).1 ∧
      store ≤ (gatherMedians right fuel p store i).2 ∧
      (gatherMedians right fuel p store i).2 ≤ right+1 ∧
      (0 < fuel → i ≤ right → store < (gatherMedians right fuel p store i).2) := by
  induction fuel generalizing p store i with
  | zero => exact ⟨Shuffles.refl p,le_refl _,hsr,by simp⟩
  | succ fuel ih =>
    unfold gatherMedians
    by_cases hi : i ≤ right
    · simp only [hi,if_true]
      set groupEnd := if i + 4 ≤ right then i + 4 else right with hgroup
      have hend : i ≤ groupEnd ∧ groupEnd ≤ right := by
        rw [hgroup]
        split_ifs <;> omega
      have hfive : Shuffles left right p (medianOfFive p i groupEnd).1 :=
        (medianOfFive_shuffles (by omega)).widen (by omega) hend.2
      have hmedian := medianOfFive_bounds p hend.1
      have hswap : Shuffles left right (medianOfFive p i groupEnd).1
          (swap (medianOfFive p i groupEnd).1 (medianOfFive p i groupEnd).2 store) :=
        shuffles_swap (by rw [hfive.length]; exact hr) ⟨by omega,by omega⟩ ⟨by omega,by omega⟩
      have hfirst := hfive.trans hswap
      obtain ⟨hrest,hle,hbound,-⟩ := ih (store+1) (i+5)
        (by rw [hfirst.length]; exact hr) (by omega) (by omega) (by omega)
      exact ⟨hfirst.trans hrest,by omega,hbound,fun _ _ => by omega⟩
    · simp only [hi,if_false]
      exact ⟨Shuffles.refl p,le_refl _,hsr,by simp⟩

theorem selectPivot_spec (hlr : left ≤ right) (hr : right < p.length) :
    Shuffles left right p (selectPivot p left right).1 ∧
      left ≤ (selectPivot p left right).2 ∧ (selectPivot p left right).2 ≤ right := by
  unfold selectPivot
  split_ifs
  · exact ⟨medianOfFive_shuffles hr,medianOfFive_bounds p hlr⟩
  · obtain ⟨hgather,-,hbound,hmore⟩ := gatherMedians_spec (right - left + 1) left left hr
      (le_refl left) (le_refl left) (by omega)
    set gathered := gatherMedians right (right - left + 1) p left left
    have hlen : gathered.2 - 1 < gathered.1.length := by
      rw [hgather.length]
      omega
    have hshort : left ≤ gathered.2 - 1 := by omega
    have hmedian := medianOfFive_bounds gathered.1 hshort
    refine ⟨hgather.trans ((medianOfFive_shuffles hlen).widen (le_refl left) (by omega)),?_⟩
    dsimp only
    omega

end Pivots

section Partition

variable {left right n : Nat} {p : List Int} {c : Int → Prop} [DecidablePred c]

theorem swap_comm (p : List Int) (i j : Nat) : swap p i j = swap p j i := by
  by_cases hij : i = j
  · rw [hij]
  · exact List.set_comm _ _ hij

/-- One iteration of a partition loop: a price that meets `c` joins those at the front. -/
def siftStep (c : Int → Prop) [DecidablePred c] (acc : List Int × Nat) (i : Nat) :
    List Int × Nat :=
  if c (get acc.1 i) then (swap acc.1 acc.2 i, acc.2 + 1) else acc

/-- A partition loop after `n` positions: those that meet `c`, those that do not, then the rest. -/
structure Sifted (left right n : Nat) (c : Int → Prop) (p : List Int) (acc : List Int × Nat) :
    Prop where
  shuffles : Shuffles left right p acc.1
  bounds : left ≤ acc.2 ∧ acc.2 ≤ left + n
  below : ∀ i, left ≤ i → i < acc.2 → c (get acc.1 i)
  above : ∀ i, acc.2 ≤ i → i < left + n → ¬c (get acc.1 i)
  last : get acc.1 right = get p right

theorem siftStep_sifted {acc : List Int × Nat} (hr : right < p.length) (hn : left + n < right)
    (h : Sifted left right n c p acc) :
    Sifted left right (n+1) c p (siftStep c acc (left + n)) := by
  obtain ⟨hlow,hhigh⟩ := h.bounds
  have hlen : right < acc.1.length := by
    rw [h.shuffles.length]
    exact hr
  unfold siftStep
  by_cases hless : c (get acc.1 (left + n))
  · rw [if_pos hless]
    have hget := get_swap (p := acc.1) (i := acc.2) (j := left + n) (by omega) (by omega)
    constructor
    · exact h.shuffles.trans (shuffles_swap hlen ⟨hlow,by omega⟩ ⟨by omega,by omega⟩)
    · omega
    · intro i hl hi
      rw [hget]
      split_ifs with hlast hstore
      · have hsame : acc.2 = left + n := by omega
        rw [hsame]
        exact hless
      · exact hless
      · exact h.below i hl (by omega)
    · intro i hl hi
      rw [hget]
      split_ifs with hlast hstore
      · exact h.above acc.2 (le_refl _) (by omega)
      · omega
      · exact h.above i (by omega) (by omega)
    · rw [hget,if_neg (by omega),if_neg (by omega)]
      exact h.last
  · rw [if_neg hless]
    constructor
    · exact h.shuffles
    · omega
    · exact h.below
    · intro i hl hi
      by_cases hlast : i = left + n
      · subst hlast
        exact hless
      · exact h.above i hl (by omega)
    · exact h.last

theorem siftLoop_sifted (hr : right < p.length) (hn : left + n ≤ right) :
    Sifted left right n c p ((List.range' left n).foldl (siftStep c) (p,left)) := by
  induction n with
  | zero =>
    refine ⟨Shuffles.refl p,by simp,?_,?_,rfl⟩
    · intro i hl hi
      simp at hi
      omega
    · intro i hl hi
      simp at hl
      omega
  | succ n ih =>
    rw [List.range'_1_concat,List.foldl_append]
    exact siftStep_sifted hr (by omega) (ih (by omega))

omit [DecidablePred c] in
/-- Swapping the last price behind those that meet `c` puts it between the two kinds. -/
theorem Sifted.place {acc : List Int × Nat} (hr : right < p.length) (hlr : left ≤ right)
    (h : Sifted left right (right - left) c p acc) :
    Shuffles left right p (swap acc.1 acc.2 right) ∧ (left ≤ acc.2 ∧ acc.2 ≤ right) ∧
      get (swap acc.1 acc.2 right) acc.2 = get p right ∧
      (∀ i, left ≤ i → i < acc.2 → c (get (swap acc.1 acc.2 right) i)) ∧
      ∀ i, acc.2 < i → i ≤ right → ¬c (get (swap acc.1 acc.2 right) i) := by
  obtain ⟨hlow,hhigh⟩ := h.bounds
  have hlen : right < acc.1.length := by
    rw [h.shuffles.length]
    exact hr
  have hget := get_swap (p := acc.1) (i := acc.2) (j := right) (by omega) hlen
  refine ⟨?_,by omega,?_,?_,?_⟩
  · exact h.shuffles.trans (shuffles_swap hlen ⟨hlow,by omega⟩ ⟨by omega,le_refl right⟩)
  · rw [hget,h.last]
    by_cases hsame : acc.2 = right
    · rw [if_pos hsame,hsame,h.last]
    · rw [if_neg hsame,if_pos rfl]
  · intro i hl hi
    rw [hget,if_neg (by omega),if_neg (by omega)]
    exact h.below i hl hi
  · intro i hl hi
    rw [hget]
    split_ifs with hright hstore
    · exact h.above acc.2 (le_refl _) (by omega)
    · omega
    · exact h.above i (by omega) (by omega)

/-- A price at its place: those left of it are not greater, those right of it not smaller. -/
structure Placed (left right : Nat) (p q : List Int) (s : Nat) : Prop where
  shuffles : Shuffles left right p q
  bounds : left ≤ s ∧ s ≤ right
  below : ∀ i, left ≤ i → i < s → get q i ≤ get q s
  above : ∀ i, s < i → i ≤ right → get q s ≤ get q i

/-- `partition` puts a price where it belongs. -/
theorem partition_placed {pivotIndex : Nat} (hr : right < p.length)
    (hpivot : left ≤ pivotIndex ∧ pivotIndex ≤ right) :
    Placed left right p (partition p left right pivotIndex).1
      (partition p left right pivotIndex).2 := by
  have hswap : Shuffles left right p (swap p pivotIndex right) :=
    shuffles_swap hr hpivot ⟨by omega,le_refl right⟩
  have hlast : get (swap p pivotIndex right) right = get p pivotIndex := by
    rw [get_swap (by omega) hr,if_pos rfl]
  have hlen : right < (swap p pivotIndex right).length := by
    rw [hswap.length]
    exact hr
  have heq : partition p left right pivotIndex =
      let acc := (List.range' left (right - left)).foldl (siftStep (· < get p pivotIndex))
        (swap p pivotIndex right,left)
      (swap acc.1 acc.2 right,acc.2) := rfl
  rw [heq]
  have hloop : Sifted left right (right - left) (· < get p pivotIndex) (swap p pivotIndex right)
      ((List.range' left (right - left)).foldl (siftStep (· < get p pivotIndex))
        (swap p pivotIndex right,left)) := siftLoop_sifted hlen (by omega)
  obtain ⟨hshuffles,hbounds,hmid,hbelow,habove⟩ := hloop.place hlen (by omega)
  rw [hlast] at hmid
  constructor
  · exact hswap.trans hshuffles
  · exact hbounds
  · intro i hl hi
    rw [hmid]
    exact (hbelow i hl hi).le
  · intro i hl hi
    rw [hmid]
    exact not_lt.1 (habove i hl hi)

end Partition

section Selection

variable {left right k fuel : Nat} {p : List Int} {r : List Int × Int} {q : List Int} {s : Nat}

/-- The price at rank `k` of the range, with the prices of the range on their side of it. -/
structure Selects (left right k : Nat) (p : List Int) (r : List Int × Int) : Prop where
  shuffles : Shuffles left right p r.1
  value : r.2 = get r.1 k
  below : ∀ i, left ≤ i → i ≤ k → get r.1 i ≤ r.2
  above : ∀ i, k ≤ i → i ≤ right → r.2 ≤ get r.1 i

/-- Selecting left of a placed price. -/
theorem Selects.ofLeft (hp : Placed left right p q s) (hks : left ≤ k ∧ k < s)
    (h : Selects left (s - 1) k q r) : Selects left right k p r where
  shuffles := hp.shuffles.trans (h.shuffles.widen (le_refl left) (by have := hp.bounds; omega))
  value := h.value
  below := h.below
  above i hk hi := by
    by_cases his : i ≤ s - 1
    · exact h.above i hk his
    · have hvalue : get r.1 k ≤ get q s := by
        apply h.shuffles.all (P := fun x => x ≤ get q s) _ k hks.1 (by omega)
        intro j hl hj
        exact hp.below j hl (by omega)
      rw [h.value,h.shuffles.outside i (by omega)]
      by_cases hsame : i = s
      · rw [hsame]
        exact hvalue
      · exact hvalue.trans (hp.above i (by omega) hi)

/-- Selecting right of a placed price. -/
theorem Selects.ofRight (hp : Placed left right p q s) (hks : s < k ∧ k ≤ right)
    (h : Selects (s+1) right k q r) : Selects left right k p r where
  shuffles := hp.shuffles.trans (h.shuffles.widen (by have := hp.bounds; omega) (le_refl right))
  value := h.value
  below i hl hi := by
    by_cases his : s+1 ≤ i
    · exact h.below i his hi
    · have hvalue : get q s ≤ get r.1 k := by
        apply h.shuffles.all (P := fun x => get q s ≤ x) _ k (by omega) hks.2
        intro j hj hr
        exact hp.above j (by omega) hr
      rw [h.value,h.shuffles.outside i (by omega)]
      by_cases hsame : i = s
      · rw [hsame]
        exact hvalue
      · exact (hp.below i hl (by omega)).trans hvalue
  above := h.above

/-- Selecting the placed price itself. -/
theorem Selects.ofPlaced (hp : Placed left right p q k) : Selects left right k p (q,get q k) where
  shuffles := hp.shuffles
  value := rfl
  below i hl hi := by
    by_cases hik : i = k
    · rw [hik]
    · exact hp.below i hl (by omega)
  above i hi hir := by
    by_cases hik : i = k
    · rw [hik]
    · exact hp.above i (by omega) hir

/-- A range of one price selects it. -/
theorem Selects.single (hk : left ≤ k ∧ k ≤ right) (hlr : left = right) :
    Selects left right k p (p,get p left) := by
  have hkl : k = left := by omega
  constructor
  · exact Shuffles.refl p
  · rw [hkl]
  · intro i hl hi
    have hil : i = left := by omega
    rw [hil]
  · intro i hl hi
    have hil : i = left := by omega
    rw [hil]

/-- The selection finds the price of the wanted rank in every range it can shrink. -/
theorem selectKth_selects (hk : left ≤ k ∧ k ≤ right) (hr : right < p.length)
    (hfuel : right - left ≤ fuel) : Selects left right k p (selectKth fuel p left right k) := by
  induction fuel generalizing p left right with
  | zero => exact Selects.single hk (by omega)
  | succ fuel ih =>
    unfold selectKth
    by_cases hlr : left = right
    · rw [if_pos hlr]
      exact Selects.single hk hlr
    · rw [if_neg hlr]
      have hchosen := selectPivot_spec (p := p) (show left ≤ right by omega) hr
      obtain ⟨hpivot,hbounds⟩ := hchosen
      set chosen := selectPivot p left right
      have hlen : right < chosen.1.length := by
        rw [hpivot.length]
        exact hr
      have hplaced := partition_placed hlen hbounds
      set placed := partition chosen.1 left right chosen.2
      have hp : Placed left right p placed.1 placed.2 :=
        ⟨hpivot.trans hplaced.shuffles,hplaced.bounds,hplaced.below,hplaced.above⟩
      have hlen' : right < placed.1.length := by
        rw [hp.shuffles.length]
        exact hr
      have hs := hp.bounds
      dsimp only
      by_cases heq : k = placed.2
      · rw [if_pos heq]
        rw [← heq] at hp
        exact Selects.ofPlaced hp
      · rw [if_neg heq]
        by_cases hlt : k < placed.2
        · rw [if_pos hlt]
          exact Selects.ofLeft hp ⟨hk.1,hlt⟩ (ih (by omega) (by omega) (by omega))
        · rw [if_neg hlt]
          exact Selects.ofRight hp ⟨by omega,hk.2⟩ (ih (by omega) hlen' (by omega))

/-- Over the whole list, the selected price is the order statistic of its rank. -/
theorem Selects.ranked (hk : k < p.length) (hsel : Selects 0 (p.length - 1) k p r) :
    r.1.Perm p ∧ kth p k = some r.2 := by
  have hlen : r.1.length = p.length := hsel.shuffles.length
  have hget (i : Nat) (hi : i < r.1.length) : r.1[i] = get r.1 i := by
    simp [Model.Pricing.get,hi]
  have hvalue : r.1[k] = r.2 := (hget k (by omega)).trans hsel.value.symm
  have hsplit : r.1.take k ++ r.2 :: r.1.drop (k+1) = r.1 := by
    rw [← hvalue,← List.drop_eq_getElem_cons (by omega),List.take_append_drop]
  have hperm : (r.1.take k ++ r.2 :: r.1.drop (k+1)).Perm p := by
    rw [hsplit]
    exact hsel.shuffles.perm
  have hkth : kth p (r.1.take k).length = some r.2 := by
    apply kth_of_split hperm
    · intro x hx
      obtain ⟨i,hi,rfl⟩ := List.mem_take_iff_getElem.1 hx
      rw [hget i (by omega)]
      exact hsel.below i (Nat.zero_le i) (by omega)
    · intro x hx
      obtain ⟨i,hi,rfl⟩ := List.mem_drop_iff_getElem.1 hx
      rw [hget (k+1 + i) (by omega)]
      exact hsel.above (k+1 + i) (by omega) (by omega)
  rw [List.length_take,Nat.min_eq_left (by omega)] at hkth
  exact ⟨hsel.shuffles.perm,hkth⟩

theorem selectKth_kth (hk : k < p.length) :
    (selectKth p.length p 0 (p.length - 1) k).1.Perm p ∧
      kth p k = some (selectKth p.length p 0 (p.length - 1) k).2 :=
  Selects.ranked hk (selectKth_selects ⟨Nat.zero_le k,by omega⟩ (by omega) (by omega))

end Selection

section Median

variable {xs : List Int} {a b : Int}

/-- Between prices that are not too far apart the midpoint is the floor of the mean. -/
theorem midpoint_of_narrow (ha : IsI128 a) (hb : IsI128 b) (hab : a ≤ b) (h : b - a ≤ i128Max) :
    midpoint a b = (a + b) / 2 := by
  have hdiff : wrapSub b a = b - a := by
    refine wrap_of_isI128 ⟨?_,h⟩
    unfold i128Min
    omega
  have hhalf : (b - a).tdiv 2 = (b - a) / 2 := Int.tdiv_eq_ediv_of_nonneg (by omega)
  have hsum : wrapAdd a ((b - a) / 2) = a + (b - a) / 2 := by
    apply wrap_of_isI128
    constructor
    · have hlow := ha.1
      omega
    · have hhigh := hb.2
      omega
  unfold Model.Pricing.midpoint
  rw [hdiff,hhalf,hsum]
  omega

theorem midpoint_eq (ha : 0 < a ∧ IsI128 a) (hb : 0 < b ∧ IsI128 b) (hab : a ≤ b) :
    midpoint a b = (a + b) / 2 := by
  refine midpoint_of_narrow ha.2 hb.2 hab ?_
  have hhigh := hb.2.2
  omega

/-- `compute_median` reads off the middle order statistics, and wraps where the code does. -/
theorem computeMedian_kth (hne : xs ≠ []) : computeMedian xs =
    if xs.length % 2 = 0 then
      midpoint ((kth xs (xs.length / 2 - 1)).getD 0) ((kth xs (xs.length / 2)).getD 0)
    else (kth xs (xs.length / 2)).getD 0 := by
  have hpos : 0 < xs.length := List.length_pos_iff.2 hne
  unfold computeMedian
  rw [if_neg hpos.ne']
  by_cases heven : xs.length % 2 = 0
  · rw [if_pos heven,if_pos heven]
    obtain ⟨hperm,hlower⟩ := selectKth_kth (p := xs) (k := xs.length / 2 - 1) (by omega)
    set r := selectKth xs.length xs 0 (xs.length - 1) (xs.length / 2 - 1)
    have hsame : r.1.length = xs.length := hperm.length_eq
    obtain ⟨-,hupper⟩ := selectKth_kth (p := r.1) (k := xs.length / 2) (by omega)
    rw [hsame,kth_perm hperm] at hupper
    rw [hlower,hupper,Option.getD_some,Option.getD_some]
  · rw [if_neg heven,if_neg heven]
    obtain ⟨-,hmiddle⟩ := selectKth_kth (p := xs) (k := xs.length / 2) (by omega)
    rw [hmiddle,Option.getD_some]

/-- `compute_median` of positive prices is their median. -/
theorem computeMedian_eq (hxs : ∀ x ∈ xs, 0 < x ∧ IsI128 x) : computeMedian xs = median xs := by
  by_cases hempty : xs = []
  · subst hempty
    decide
  · have hpos : 0 < xs.length := List.length_pos_iff.2 hempty
    rw [computeMedian_kth hempty]
    unfold median
    by_cases heven : xs.length % 2 = 0
    · rw [if_pos heven,if_pos heven]
      obtain ⟨a,ha⟩ := exists_kth (show xs.length / 2 - 1 < xs.length by omega)
      obtain ⟨b,hb⟩ := exists_kth (show xs.length / 2 < xs.length by omega)
      rw [ha,hb,Option.getD_some,Option.getD_some]
      exact midpoint_eq (hxs a (kth_mem ha)) (hxs b (kth_mem hb)) (kth_le_kth (by omega) ha hb)
    · rw [if_neg heven,if_neg heven]

/-- The median of positive prices is a positive price. -/
theorem median_price (hne : xs ≠ []) (hxs : ∀ x ∈ xs, 0 < x ∧ IsI128 x) :
    0 < median xs ∧ IsI128 (median xs) := by
  have hbounds : 1 ≤ median xs ∧ median xs ≤ i128Max := by
    apply median_between hne
    intro x hx
    exact ⟨(hxs x hx).1,(hxs x hx).2.2⟩
  refine ⟨by omega,?_,hbounds.2⟩
  unfold i128Min
  omega

end Median

end PriceOracle.Pricing
