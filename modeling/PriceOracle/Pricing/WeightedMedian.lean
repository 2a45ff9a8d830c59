import PriceOracle.Lib.WeightedOrder
import PriceOracle.Pricing.Sorting
import Mathlib.Algebra.BigOperators.Ring.Finset
import Mathlib.Tactic.Ring

/-! # The two weighted medians

`freshness_weight` and the pure core sort the prices and add up their weights. Both end at the price
where the weights pass half of the total. Where they meet it exactly, the first joins the two prices
at the boundary and the core takes the upper of them: the interpolation after its loop asks for a
running weight that has stopped above the half. -/

namespace PriceOracle.Pricing

open Lib.MachineInt Lib.OrderStatistic Lib.WeightedOrder Model.Pricing

section Scans

variable {lo hi : List (Int × Nat)} {x y : Int × Nat} {total cumulative : Nat}

/-- The scan passes over everything before the price at which the weights reach half. -/
theorem weightedScan_below (hbelow : 2 * (cumulative + mass lo) < total) :
    weightedScan total cumulative (lo ++ x :: hi) =
      weightedScan total (cumulative + mass lo) (x :: hi) := by
  induction lo generalizing cumulative with
  | nil => rfl
  | cons z lo ih =>
    rw [mass_cons] at hbelow
    rw [mass_cons,List.cons_append,weightedScan.eq_def]
    dsimp only
    rw [if_neg (by omega),ih (by omega),Nat.add_assoc]

/-- Half of the total falls inside the weight of one price. -/
theorem weightedScan_inside (hbelow : 2 * mass lo < total) (hinside : total < 2 * (mass lo + x.2)) :
    weightedScan total 0 (lo ++ x :: hi) = some x.1 := by
  rw [weightedScan_below (by omega),Nat.zero_add,weightedScan.eq_def]
  dsimp only
  rw [if_pos (by omega)]
  cases hi with
  | nil => rfl
  | cons y hi =>
    dsimp only
    rw [if_neg (by omega)]

theorem weightedScan_tie (hbelow : 2 * mass lo < total) (htie : 2 * (mass lo + x.2) = total) :
    weightedScan total 0 (lo ++ x :: y :: hi) = some (midpoint x.1 y.1) := by
  rw [weightedScan_below (by omega),Nat.zero_add,weightedScan,if_pos (by omega),if_pos (by omega)]

/-- Pairs as the core takes them, with signed weights. -/
def signed (pws : List (Int × Nat)) : List (Int × Int) := pws.map fun x => (x.1, (x.2 : Int))

theorem satAdd_natCast {a b : Nat} (h : ((a + b : Nat) : Int) ≤ i128Max) :
    satAdd (a : Int) (b : Int) = ((a + b : Nat) : Int) := by
  apply saturate_of_isI128
  unfold IsI128 i128Min
  omega

theorem foldl_satAdd (pws : List (Int × Nat)) {a : Nat}
    (hfits : ((a + mass pws : Nat) : Int) ≤ i128Max) :
    (signed pws).foldl (fun acc pw => satAdd acc pw.2) (a : Int) = ((a + mass pws : Nat) : Int) := by
  induction pws generalizing a with
  | nil => simp [signed]
  | cons z pws ih =>
    rw [mass_cons] at hfits ⊢
    unfold signed at ih ⊢
    rw [List.map_cons,List.foldl_cons]
    rw [satAdd_natCast (by omega),ih (by omega),Nat.add_assoc]

theorem scanPast_crossing {half i medianIdx : Nat} (hbelow : cumulative + mass lo ≤ half)
    (hpass : half < cumulative + mass lo + x.2)
    (hfits : ((cumulative + mass (lo ++ x :: hi) : Nat) : Int) ≤ i128Max) :
    scanPast half i cumulative medianIdx (signed (lo ++ x :: hi)) =
      (i + lo.length,((cumulative + mass lo + x.2 : Nat) : Int)) := by
  induction lo generalizing cumulative i medianIdx with
  | nil =>
    simp only [List.nil_append,mass_cons] at hfits
    simp only [mass_nil,Nat.add_zero] at hbelow hpass ⊢
    simp only [List.nil_append,signed,List.map_cons,scanPast,List.length_nil,Nat.add_zero]
    rw [satAdd_natCast (by omega),if_pos (by omega)]
  | cons z lo ih =>
    simp only [List.cons_append,mass_cons] at hfits hbelow hpass ⊢
    unfold signed at ih ⊢
    rw [List.map_cons,scanPast,satAdd_natCast (by omega),if_neg (by omega),
      ih (by omega) (by omega) (by omega),List.length_cons]
    congr 1
    · omega
    · omega

end Scans

/-- A round of prices with a positive 32-bit weight each, no more than the buffers hold. -/
structure Weighed (prices : List Int) (weights : List Nat) : Prop where
  nonempty : 0 < prices.length
  count : prices.length ≤ maxEntries
  same : weights.length = prices.length
  positive : ∀ w ∈ weights, 1 ≤ w ∧ w ≤ u32Max

/-- The prices with their weights in the order of the prices. -/
def ranked (prices : List Int) (weights : List Nat) : List (Int × Nat) :=
  (prices.zip weights).insertionSort fun a b => a.1 ≤ b.1

section Ranked

variable {ps : List Int} {ws : List Nat} {lo hi : List (Int × Nat)} {x y : Int × Nat}

theorem ranked_perm (ps : List Int) (ws : List Nat) : (ranked ps ws).Perm (ps.zip ws) :=
  List.perm_insertionSort _ _

theorem ranked_pairwise (ps : List Int) (ws : List Nat) :
    (ranked ps ws).Pairwise fun a b => a.1 ≤ b.1 := by
  exact List.pairwise_insertionSort _ _

theorem Weighed.mass_zip (h : Weighed ps ws) : mass (ps.zip ws) = ws.sum := by
  unfold mass
  rw [List.map_snd_zip h.same.le]

theorem Weighed.mass_ranked (h : Weighed ps ws) : mass (ranked ps ws) = ws.sum :=
  (mass_perm (ranked_perm ps ws)).trans h.mass_zip

theorem Weighed.weight_pos (h : Weighed ps ws) (hx : x ∈ ranked ps ws) : 0 < x.2 :=
  (h.positive x.2 (List.of_mem_zip (a := x.1) (b := x.2)
    ((ranked_perm ps ws).mem_iff.1 hx)).2).1

theorem mem_of_ranked (hx : x ∈ ranked ps ws) : x.1 ∈ ps :=
  (List.of_mem_zip (a := x.1) (b := x.2) ((ranked_perm ps ws).mem_iff.1 hx)).1

theorem Weighed.sum_pos (h : Weighed ps ws) : 0 < ws.sum := by
  obtain ⟨w,hw⟩ := List.exists_mem_of_length_pos (h.same ▸ h.nonempty)
  exact (h.positive w hw).1.trans (List.le_sum_of_mem hw)

theorem Weighed.sum_fits (h : Weighed ps ws) : ((ws.sum : Nat) : Int) ≤ i128Max := by
  have hle := List.sum_le_card_nsmul ws u32Max fun w hw => (h.positive w hw).2
  have hcount : ws.length ≤ 128 := h.same.le.trans h.count
  rw [Nat.nsmul_eq_mul] at hle
  have hbound : ws.length * u32Max ≤ 128 * u32Max := Nat.mul_le_mul_right _ hcount
  unfold u32Max at hle hbound
  unfold i128Max
  omega

/-- Neither the clamp of a weight nor the size of the buffers matters. -/
theorem Weighed.pairs (h : Weighed ps ws) :
    ((ps.zip ws).take maxEntries).map (fun pw => (pw.1,max pw.2 1)) = ps.zip ws := by
  have hzip : (ps.zip ws).length ≤ maxEntries := by
    rw [List.length_zip,h.same,Nat.min_self]
    exact h.count
  rw [List.take_of_length_le hzip]
  conv_rhs => rw [← List.map_id (ps.zip ws)]
  apply List.map_congr_left
  intro pw hpw
  have hpos := h.positive pw.2 (List.of_mem_zip (a := pw.1) (b := pw.2) hpw).2
  rw [max_eq_left hpos.1]
  rfl

theorem Weighed.weightedMedian_eq (h : Weighed ps ws) :
    weightedMedian ps ws = (weightedScan ws.sum 0 (ranked ps ws)).getD 0 := by
  have htotal : totalWeight ((ps.zip ws).map Prod.snd) = ws.sum := by
    rw [List.map_snd_zip h.same.le]
    exact List.sum_eq_foldl_nat.symm
  unfold weightedMedian ranked
  dsimp only
  rw [h.pairs,htotal]

theorem Weighed.map_fst_ranked (h : Weighed ps ws) :
    (ranked ps ws).map Prod.fst = ps.insertionSort (· ≤ ·) := by
  have hmap := List.map_insertionSort (fun a b : Int × Nat => a.1 ≤ b.1) (· ≤ ·) Prod.fst
    (ps.zip ws) fun a _ b _ => Iff.rfl
  rw [List.map_fst_zip h.same.ge] at hmap
  exact hmap

theorem Weighed.signed_ranked (h : Weighed ps ws) :
    (((ps.zip (ws.map Int.ofNat)).take medianWindow).map fun pw => (pw.1,max pw.2 1)).insertionSort
      (fun a b => a.1 ≤ b.1) = signed (ranked ps ws) := by
  have hpairs : ((ps.zip (ws.map Int.ofNat)).take medianWindow).map
      (fun pw => (pw.1,max pw.2 1)) = signed (ps.zip ws) := by
    rw [← h.pairs,List.zip_map_right,signed,← List.map_take,List.map_map,List.map_map]
    apply List.map_congr_left
    simp
  rw [hpairs]
  exact (List.map_insertionSort (fun a b : Int × Nat => a.1 ≤ b.1)
    (fun a b : Int × Int => a.1 ≤ b.1) (fun x => (x.1,(x.2 : Int))) (ps.zip ws)
    fun a _ b _ => Iff.rfl).symm

/-- The core returns the price at which the weights pass the floored half. -/
theorem Weighed.core_crossing (h : Weighed ps ws)
    (hsplit : ranked ps ws = lo ++ x :: hi) (hbelow : mass lo ≤ ws.sum / 2)
    (hpass : ws.sum / 2 < mass lo + x.2) :
    weightedMedianCore ps (ws.map Int.ofNat) = x.1 := by
  have hmass : mass (lo ++ x :: hi) = ws.sum := by
    rw [← hsplit,h.mass_ranked]
  have hfits := h.sum_fits
  have htotal : (signed (ranked ps ws)).foldl (fun acc pw => satAdd acc pw.2) 0 =
      ((ws.sum : Nat) : Int) := by
    have hfold := foldl_satAdd (ranked ps ws) (a := 0) (by rw [h.mass_ranked]; omega)
    rwa [Nat.zero_add,h.mass_ranked] at hfold
  have hhalf : ((ws.sum : Nat) : Int).tdiv 2 = ((ws.sum / 2 : Nat) : Int) := by
    rfl
  have hpos := h.nonempty
  unfold weightedMedianCore
  dsimp only
  rw [if_neg hpos.ne']
  by_cases hone : ps.length = 1
  · obtain ⟨p,rfl⟩ := List.length_eq_one_iff.1 hone
    have hx : x.1 ∈ [p] := mem_of_ranked (by rw [hsplit]; simp)
    rw [if_pos hone,List.mem_singleton.1 hx]
    rfl
  rw [if_neg hone,if_neg (by rw [List.length_map,h.same]; simp),h.signed_ranked,htotal,hhalf,
    hsplit]
  have hscan : scanPast ((ws.sum / 2 : Nat) : Int) 0 ((0 : Nat) : Int) 0
      (signed (lo ++ x :: hi)) = (0 + lo.length,((0 + mass lo + x.2 : Nat) : Int)) :=
    scanPast_crossing (by omega) (by omega) (by rw [hmass]; omega)
  rw [Nat.cast_zero] at hscan
  rw [hscan]
  rw [if_neg (by omega)]
  simp [Model.Pricing.get,signed]

theorem Weighed.kth_ranked (h : Weighed ps ws) (hsplit : ranked ps ws = lo ++ x :: hi) :
    kth ps lo.length = some x.1 := by
  unfold kth
  rw [← h.map_fst_ranked,hsplit]
  simp

theorem Weighed.kth_ranked_next (h : Weighed ps ws) (hsplit : ranked ps ws = lo ++ x :: y :: hi) :
    kth ps (lo.length+1) = some y.1 := by
  have hnext := h.kth_ranked (show ranked ps ws = (lo ++ [x]) ++ y :: hi by rw [hsplit]; simp)
  rwa [List.length_append,List.length_singleton] at hnext

/-- Where the weights meet half exactly there is a next price. -/
theorem Weighed.exists_next (h : Weighed ps ws) (hsplit : ranked ps ws = lo ++ x :: hi)
    (htie : 2 * (mass lo + x.2) = ws.sum) : ∃ y hi', hi = y :: hi' := by
  cases hi with
  | nil =>
    have hmass := h.mass_ranked
    have hpos := h.sum_pos
    rw [hsplit,mass_append,mass_cons,mass_nil] at hmass
    omega
  | cons y hi => exact ⟨y,hi,rfl⟩

theorem mass_const {w : Nat} {xs : List (Int × Nat)} (hconst : ∀ x ∈ xs, x.2 = w) :
    mass xs = xs.length * w := by
  unfold mass
  rw [List.sum_eq_card_nsmul (xs.map Prod.snd) w,List.length_map,Nat.nsmul_eq_mul]
  intro v hv
  obtain ⟨x,hx,rfl⟩ := List.mem_map.1 hv
  exact hconst x hx

/-- Equal weights are votes: the weighted median is the plain one. -/
theorem Weighed.weightedMedian_of_equal (h : Weighed ps ws) (hequal : ∀ v ∈ ws, ∀ w ∈ ws, v = w) :
    weightedMedian ps ws = computeMedian ps := by
  obtain ⟨w,hw⟩ := List.exists_mem_of_length_pos (h.same ▸ h.nonempty)
  have hwpos : 0 < w := (h.positive w hw).1
  have hconst : ∀ x ∈ ranked ps ws, x.2 = w := fun x hx =>
    hequal x.2 (List.of_mem_zip (a := x.1) (b := x.2) ((ranked_perm ps ws).mem_iff.1 hx)).2 w hw
  obtain ⟨lo,x,hi,hsplit,hbelow,hreach⟩ := exists_halfway (h.mass_ranked ▸ h.sum_pos)
  have hlo : mass lo = lo.length * w := mass_const fun z hz => hconst z (by simp [hsplit,hz])
  have hx : x.2 = w := hconst x (by simp [hsplit])
  have htotal : ws.sum = ps.length * w := by
    rw [← h.mass_ranked,mass_const hconst,(ranked_perm ps ws).length_eq,List.length_zip,
      h.same,Nat.min_self]
  rw [h.mass_ranked,htotal,hlo] at hbelow hreach
  rw [hx] at hreach
  have hpositions : 2 * lo.length < ps.length ∧ ps.length ≤ 2 * (lo.length+1) := by
    constructor
    · exact Nat.lt_of_mul_lt_mul_right (a := w) (by rw [Nat.mul_assoc]; exact hbelow)
    · apply Nat.le_of_mul_le_mul_right _ hwpos
      rw [Nat.mul_assoc,Nat.add_mul,Nat.one_mul]
      exact hreach
  rw [h.weightedMedian_eq,computeMedian_kth (List.length_pos_iff.1 h.nonempty),hsplit]
  by_cases heven : ps.length % 2 = 0
  · have hhalf : ps.length = 2 * (lo.length+1) := by omega
    have htie : 2 * (mass lo + x.2) = ws.sum := by
      rw [htotal,hlo,hx,hhalf]
      ring
    obtain ⟨y,hi',rfl⟩ := h.exists_next hsplit htie
    rw [weightedScan_tie (by rw [htotal,hlo]; exact hbelow) htie,if_pos heven,
      show ps.length / 2 - 1 = lo.length by omega,show ps.length / 2 = lo.length+1 by omega,
      h.kth_ranked hsplit,h.kth_ranked_next hsplit]
    rfl
  · have hinside : ws.sum < 2 * (mass lo + x.2) := by
      rw [htotal,hlo,hx,← Nat.add_one_mul,← Nat.mul_assoc]
      exact Nat.mul_lt_mul_of_pos_right (by omega) hwpos
    rw [weightedScan_inside (by rw [htotal,hlo]; exact hbelow) hinside,if_neg heven,
      show ps.length / 2 = lo.length by omega,h.kth_ranked hsplit]

/-- No price has exactly half of the weight at or below it. -/
def NoTie (prices : List Int) (weights : List Nat) : Prop :=
  ∀ p ∈ prices, 2 * massWhere (· ≤ p) (prices.zip weights) ≠ weights.sum

theorem massWhere_ranked (c : Int → Prop) [DecidablePred c] :
    massWhere c (ps.zip ws) = massWhere c (ranked ps ws) :=
  (massWhere_perm (ranked_perm ps ws)).symm

/-- Half of the weight falls inside one price: both return it, and no price is at the half. -/
theorem Weighed.inside (h : Weighed ps ws) (hsplit : ranked ps ws = lo ++ x :: hi)
    (hbelow : 2 * mass lo < ws.sum) (hinside : ws.sum < 2 * (mass lo + x.2)) :
    weightedMedian ps ws = x.1 ∧ weightedMedianCore ps (ws.map Int.ofNat) = x.1 ∧
      NoTie ps ws := by
  have hsorted := ranked_pairwise ps ws
  rw [hsplit] at hsorted
  refine ⟨?_,?_,?_⟩
  · rw [h.weightedMedian_eq,hsplit,weightedScan_inside hbelow hinside,Option.getD_some]
  · exact h.core_crossing hsplit (by omega) (by omega)
  · intro p _
    rw [massWhere_ranked,hsplit]
    rcases lt_or_ge p x.1 with hlt | hge
    · have hle := massWhere_le_of_lt hsorted hlt
      omega
    · have hle := le_massWhere_le hsorted
      have hmono := massWhere_mono (fun a (ha : a ≤ x.1) => ha.trans hge) (lo ++ x :: hi)
      omega

/-- Half of the weight falls between two prices: one joins them, the other takes the upper. -/
theorem Weighed.tie (h : Weighed ps ws) (hsplit : ranked ps ws = lo ++ x :: y :: hi)
    (hbelow : 2 * mass lo < ws.sum) (htie : 2 * (mass lo + x.2) = ws.sum) :
    weightedMedian ps ws = midpoint x.1 y.1 ∧
      weightedMedianCore ps (ws.map Int.ofNat) = y.1 ∧ (NoTie ps ws ↔ x.1 = y.1) := by
  have hsorted := ranked_pairwise ps ws
  rw [hsplit] at hsorted
  have hsplit' : ranked ps ws = (lo ++ [x]) ++ y :: hi := by
    rw [hsplit,List.append_assoc,List.singleton_append]
  have hsorted' := ranked_pairwise ps ws
  rw [hsplit'] at hsorted'
  have hlo : mass (lo ++ [x]) = mass lo + x.2 := by simp
  have hy : 0 < y.2 := h.weight_pos (x := y) (by rw [hsplit]; simp)
  refine ⟨?_,?_,?_⟩
  · rw [h.weightedMedian_eq,hsplit,weightedScan_tie hbelow htie,Option.getD_some]
  · exact h.core_crossing hsplit' (by omega) (by omega)
  · constructor
    · intro hno
      by_contra hne
      have hxy : x.1 < y.1 := by
        have hle := (List.pairwise_cons.1 (List.pairwise_append.1 hsorted).2.1).1 y
          List.mem_cons_self
        omega
      apply hno x.1 (mem_of_ranked (by rw [hsplit]; simp))
      have hge := le_massWhere_le hsorted
      have hle := massWhere_le_of_lt hsorted' hxy
      rw [massWhere_ranked]
      rw [← hsplit] at hge
      rw [← hsplit'] at hle
      omega
    · intro heq p _
      rw [massWhere_ranked]
      rcases lt_or_ge p x.1 with hlt | hge
      · have hle := massWhere_le_of_lt hsorted hlt
        rw [hsplit]
        omega
      · have hle := le_massWhere_le hsorted'
        have hmono := massWhere_mono (fun a (ha : a ≤ y.1) => ha.trans (heq ▸ hge)) (ranked ps ws)
        rw [← hsplit'] at hle
        omega

end Ranked

section Agreement

variable {ps : List Int} {ws : List Nat}

/-- The two weighted medians return the same value, the plain median where all weights are equal,
exactly when no price has half of the weight at or below it. -/
theorem weightedMedians_agree_iff (h : Weighed ps ws) (hps : ∀ p ∈ ps, IsI128 p)
    (hdiff : ∀ x ∈ ps, ∀ y ∈ ps, IsI128 (x - y)) :
    (weightedMedian ps ws = weightedMedianCore ps (ws.map Int.ofNat) ∧
      ((∀ v ∈ ws, ∀ w ∈ ws, v = w) → weightedMedian ps ws = computeMedian ps)) ↔
    NoTie ps ws := by
  rw [and_iff_left h.weightedMedian_of_equal]
  obtain ⟨lo,x,hi,hsplit,hbelow,hreach⟩ := exists_halfway (h.mass_ranked ▸ h.sum_pos)
  rw [h.mass_ranked] at hbelow hreach
  rcases Nat.lt_or_eq_of_le hreach with hinside | htie
  · obtain ⟨hfresh,hcore,hno⟩ := h.inside hsplit hbelow hinside
    rw [hfresh,hcore]
    exact iff_of_true rfl hno
  · obtain ⟨y,hi',rfl⟩ := h.exists_next hsplit htie.symm
    obtain ⟨hfresh,hcore,hno⟩ := h.tie hsplit hbelow htie.symm
    have hx : x.1 ∈ ps := mem_of_ranked (by rw [hsplit]; simp)
    have hy : y.1 ∈ ps := mem_of_ranked (by rw [hsplit]; simp)
    have hxy : x.1 ≤ y.1 := by
      have hsorted := ranked_pairwise ps ws
      rw [hsplit] at hsorted
      exact (List.pairwise_cons.1 (List.pairwise_append.1 hsorted).2.1).1 y List.mem_cons_self
    rw [hfresh,hcore,hno,midpoint_exact (hps _ hx) (hps _ hy) hxy (hdiff _ hy _ hx)]
    omega

/-- Two prices of equal weight: the contract joins them, the core takes the upper one. -/
theorem weightedMedians_disagree :
    ¬∀ (ps : List Int) (ws : List Nat), Weighed ps ws → (∀ p ∈ ps, IsI128 p) →
      (∀ x ∈ ps, ∀ y ∈ ps, IsI128 (x - y)) →
      weightedMedian ps ws = weightedMedianCore ps (ws.map Int.ofNat) ∧
        ((∀ v ∈ ws, ∀ w ∈ ws, v = w) → weightedMedian ps ws = computeMedian ps) := by
  intro h
  have hprices : ∀ p ∈ ([100,200] : List Int), IsPrice p := by decide
  have hweighed : Weighed [100,200] [1,1] :=
    ⟨by decide,by decide,by decide,by decide⟩
  have hsame := (h [100,200] [1,1] hweighed (fun p hp => (hprices p hp).2)
    (diff_fits_of_positive hprices)).1
  revert hsame
  decide

/-- Of weights that are not all equal, half of the total is passed inside the weight of 200. -/
theorem weightedMedians_agree_unequal :
    weightedMedian [100, 300, 200, 300] [3, 1, 4, 2] = 200 ∧
      weightedMedian [100, 300, 200, 300] [3, 1, 4, 2] =
        weightedMedianCore [100, 300, 200, 300] [3, 1, 4, 2] := by
  have hprices : ∀ p ∈ ([100,300,200,300] : List Int), IsPrice p := by decide
  have hweighed : Weighed [100,300,200,300] [3,1,4,2] :=
    ⟨by decide,by decide,by decide,by decide⟩
  have hnotie : NoTie [100,300,200,300] [3,1,4,2] := by
    unfold NoTie
    decide
  have hagree := (weightedMedians_agree_iff hweighed (fun p hp => (hprices p hp).2)
    (diff_fits_of_positive hprices)).2 hnotie
  exact ⟨by decide,hagree.1⟩

end Agreement

end PriceOracle.Pricing

/-! ## What a coalition can do to the weighted median

The influence cap only lowers weights, and a round it can balance ends with no source above its
share. -/

namespace PriceOracle.Pricing

open Lib.MachineInt Lib.OrderStatistic Lib.WeightedOrder Model.Pricing

section Minority

variable {ps : List Int} {ws : List Nat} {S : Finset Nat}

/-- At least half of the weight is on either side of the weighted median. -/
theorem Weighed.halves (h : Weighed ps ws) (hps : ∀ p ∈ ps, IsI128 p)
    (hdiff : ∀ x ∈ ps, ∀ y ∈ ps, IsI128 (x - y)) :
    ∃ p q, Halves (ps.zip ws) p q ∧ p ≤ weightedMedian ps ws ∧ weightedMedian ps ws ≤ q := by
  obtain ⟨lo,x,hi,hsplit,hbelow,hreach⟩ := exists_halfway (h.mass_ranked ▸ h.sum_pos)
  have hsorted := ranked_pairwise ps ws
  rw [hsplit] at hsorted
  have hmass : mass (lo ++ x :: hi) = ws.sum := by
    rw [← hsplit,h.mass_ranked]
  have hall : mass lo + (x.2 + mass hi) = ws.sum := by
    rw [← hmass,mass_append,mass_cons]
  have hlower := le_massWhere_le hsorted
  rw [h.mass_ranked] at hbelow hreach
  rcases Nat.lt_or_eq_of_le hreach with hinside | htie
  · have hupper := le_massWhere_ge hsorted
    refine ⟨x.1,x.1,?_,?_,?_⟩
    · apply Halves.perm (ranked_perm ps ws)
      rw [hsplit]
      constructor <;> omega
    · exact (h.inside hsplit hbelow hinside).1.ge
    · exact (h.inside hsplit hbelow hinside).1.le
  · obtain ⟨y,hi',rfl⟩ := h.exists_next hsplit htie.symm
    have hxy : x.1 ≤ y.1 :=
      (List.pairwise_cons.1 (List.pairwise_append.1 hsorted).2.1).1 y List.mem_cons_self
    have hx : x.1 ∈ ps := mem_of_ranked (by rw [hsplit]; simp)
    have hy : y.1 ∈ ps := mem_of_ranked (by rw [hsplit]; simp)
    have hvalue := (h.tie hsplit hbelow htie.symm).1
    rw [midpoint_exact (hps _ hx) (hps _ hy) hxy (hdiff _ hy _ hx)] at hvalue
    rw [mass_cons] at hall
    have hsplit' : lo ++ x :: y :: hi' = (lo ++ [x]) ++ y :: hi' := by simp
    rw [hsplit'] at hsorted
    have hupper := le_massWhere_ge hsorted
    rw [← hsplit'] at hupper
    refine ⟨x.1,y.1,?_,by omega,by omega⟩
    apply Halves.perm (ranked_perm ps ws)
    rw [hsplit]
    constructor <;> omega

theorem Weighed.withinRest (h : Weighed ps ws) (hps : ∀ p ∈ ps, IsI128 p)
    (hdiff : ∀ x ∈ ps, ∀ y ∈ ps, IsI128 (x - y)) (hlight : 2 * massAt ws S < ws.sum) :
    WithinRest ps S (weightedMedian ps ws) := by
  obtain ⟨p,q,hhalves,hp,hq⟩ := h.halves hps hdiff
  have hsnd : (ps.zip ws).map Prod.snd = ws := List.map_snd_zip h.same.le
  have hwithin := hhalves.withinRest hp hq (S := S) (by rw [hsnd,h.mass_zip]; exact hlight)
  rwa [List.map_fst_zip h.same.ge] at hwithin

end Minority

section Cap

variable {ws : List Nat} {capBps b : Nat}

def Bounded (b : Nat) (ws : List Nat) : Prop := ∀ w ∈ ws, 1 ≤ w ∧ w ≤ b

theorem bounded_ones (ws : List Nat) (h : Bounded b ws) : Bounded b (ws.map fun _ => 1) := by
  intro w hw
  obtain ⟨v,hv,rfl⟩ := List.mem_map.1 hw
  exact ⟨le_refl 1,(h v hv).1.trans (h v hv).2⟩

theorem capPass_bounded (capBps : Nat) (h : Bounded b ws) : Bounded b (capPass capBps ws) := by
  intro w hw
  obtain ⟨v,hv,rfl⟩ := List.mem_map.1 hw
  have hbounds := h v hv
  dsimp only
  split_ifs <;> omega

theorem capLoop_bounded (fuel : Nat) (h : Bounded b ws) :
    Bounded b (capLoop capBps fuel ws) ∧ (capLoop capBps fuel ws).length = ws.length := by
  induction fuel generalizing ws with
  | zero => exact ⟨h,rfl⟩
  | succ fuel ih =>
    unfold capLoop
    dsimp only
    split_ifs
    · exact ⟨h,rfl⟩
    · obtain ⟨hbounded,hlen⟩ := ih (capPass_bounded capBps h)
      exact ⟨hbounded,hlen.trans (List.length_map _)⟩

theorem applyCap_bounded (capBps : Nat) (h : Bounded b ws) :
    Bounded b (applyCap ws capBps) ∧ (applyCap ws capBps).length = ws.length := by
  unfold applyCap
  dsimp only
  split_ifs
  · exact ⟨h,rfl⟩
  · exact ⟨bounded_ones ws h,List.length_map _⟩
  · exact capLoop_bounded _ h
  · exact ⟨bounded_ones ws h,List.length_map _⟩

theorem totalWeight_eq_sum (ws : List Nat) : totalWeight ws = ws.sum := List.sum_eq_foldl_nat.symm

theorem withinCap_iff :
    withinCap ws capBps = true ↔ ∀ w ∈ ws, w * 10000 ≤ capBps * ws.sum := by
  simp [withinCap,totalWeight_eq_sum]

theorem applyCap_withinCap (hthree : 3 ≤ ws.length) (hcap : capBps < 10000)
    (hreach : 10000 ≤ ws.length * capBps) : withinCap (applyCap ws capBps) capBps = true := by
  unfold applyCap
  dsimp only
  rw [if_neg (by omega),if_neg (by omega)]
  split_ifs with hwithin
  · exact hwithin
  · rw [withinCap_iff]
    intro w hw
    obtain ⟨v,-,rfl⟩ := List.mem_map.1 hw
    rw [List.map_const',List.sum_replicate,Nat.nsmul_eq_mul,Nat.mul_one,Nat.one_mul,Nat.mul_comm]
    exact hreach

theorem massAt_share {S : Finset Nat} (h : withinCap ws capBps = true) :
    10000 * massAt ws S ≤ S.card * capBps * ws.sum := by
  rw [withinCap_iff] at h
  have hle := Finset.sum_le_card_nsmul S (fun i => ws.getD i 0 * 10000) (capBps * ws.sum) (by
    intro i _
    rcases Nat.lt_or_ge i ws.length with hlt | hge
    · have hget : ws.getD i 0 = ws[i] := by simp [hlt]
      rw [hget]
      exact h _ (List.getElem_mem hlt)
    · have hget : ws.getD i 0 = 0 := by simp [hge]
      omega)
  rw [← Finset.sum_mul,Nat.nsmul_eq_mul,← Nat.mul_assoc] at hle
  rw [Nat.mul_comm]
  exact hle

end Cap

section Collusion

variable {ps : List Int} {ws : List Nat} {capBps : Nat} {S : Finset Nat}

/-- What `get_weighted_aggregate` hands to the weighted median: the prices and weights that fit the
buffers. -/
theorem weighed_capped (hne : ps ≠ []) (hsame : ws.length = ps.length) (hws : Bounded 1000 ws) :
    Weighed (ps.take maxEntries) (capped ws capBps) := by
  have hpos := List.length_pos_iff.2 hne
  have htake : Bounded 1000 (ws.take maxEntries) := fun w hw => hws w (List.mem_of_mem_take hw)
  obtain ⟨hbounded,hlen⟩ := applyCap_bounded capBps htake
  rw [List.length_take,hsame] at hlen
  constructor
  · rw [List.length_take]
    unfold maxEntries
    omega
  · exact List.length_take_le _ _
  · rw [List.length_take]
    exact hlen
  · intro w hw
    have hw' := hbounded w hw
    unfold u32Max
    omega

theorem Weighed.weightedAggregate_eq (h : Weighed (ps.take maxEntries) ws) :
    weightedAggregate ps ws = weightedMedian (ps.take maxEntries) ws := by
  unfold weightedAggregate
  dsimp only
  congr 1
  rw [← h.same]
  apply List.ext_getElem
  · simp
  · intro i hi hi'
    simp [hi']

/-- A set of sources that holds less than half of the capped weight cannot take the aggregate out of
the prices of the others. -/
theorem weightedAggregate_withinRest (hne : ps ≠ []) (hps : ∀ p ∈ ps, IsPrice p)
    (hsame : ws.length = ps.length) (hws : Bounded 1000 ws)
    (hlight : 2 * massAt (capped ws capBps) S < (capped ws capBps).sum) :
    WithinRest ps S (weightedAggregate ps (capped ws capBps)) := by
  have hprices : ∀ p ∈ ps.take maxEntries, IsPrice p := fun p hp => hps p (List.mem_of_mem_take hp)
  have hweighed : Weighed (ps.take maxEntries) (capped ws capBps) := weighed_capped hne hsame hws
  have hwithin := hweighed.withinRest (fun p hp => (hprices p hp).2)
    (diff_fits_of_positive hprices) hlight
  rw [hweighed.weightedAggregate_eq]
  have hget (i : Nat) (x : Int) (hx : (ps.take maxEntries)[i]? = some x) : ps[i]? = some x := by
    rw [List.getElem?_take] at hx
    split_ifs at hx
    exact hx
  obtain ⟨⟨i,x,hi,hx,hlow⟩,j,y,hj,hy,hhigh⟩ := hwithin
  exact ⟨⟨i,x,hi,hget i x hx,hlow⟩,j,y,hj,hget j y hy,hhigh⟩

theorem capped_share (hsame : ws.length = ps.length) (hthree : 3 ≤ ps.length)
    (hcap : 1000 ≤ capBps) (hoff : capBps ≠ 10000) (hle : capBps ≤ 10000)
    (hreach : 10000 ≤ ps.length * capBps) :
    10000 * massAt (capped ws capBps) S ≤ S.card * capBps * (capped ws capBps).sum := by
  have hlen : (ws.take maxEntries).length = min maxEntries ps.length := by
    rw [List.length_take,hsame]
  have hmany : 10000 ≤ (ws.take maxEntries).length * capBps := by
    rw [hlen]
    rcases Nat.le_total maxEntries ps.length with hfull | hfits
    · rw [Nat.min_eq_left hfull]
      unfold maxEntries
      omega
    · rw [Nat.min_eq_right hfits]
      exact hreach
  apply massAt_share
  apply applyCap_withinCap _ (by omega) hmany
  rw [hlen]
  unfold maxEntries
  omega

theorem capped_of_few (hfew : ws.length < 3) : capped ws capBps = ws := by
  unfold capped applyCap
  rw [if_pos (Or.inl (by rw [List.length_take]; omega)),List.take_of_length_le]
  unfold maxEntries
  omega

theorem capped_of_unreachable (hthree : 3 ≤ ws.length) (hcap : 1000 ≤ capBps)
    (hunreachable : ws.length * capBps < 10000) :
    capped ws capBps = List.replicate ws.length 1 := by
  have hshort : ws.length < 10 := by
    by_contra hlong
    have hmul : 10 * 1000 ≤ ws.length * capBps := Nat.mul_le_mul (by omega) hcap
    omega
  have hlen : (ws.take maxEntries).length = ws.length := by
    rw [List.length_take]
    unfold maxEntries
    omega
  have hon : ¬10000 ≤ capBps := by
    intro hfull
    have hmul : 3 * 10000 ≤ ws.length * capBps := Nat.mul_le_mul hthree hfull
    omega
  unfold capped applyCap
  rw [hlen,if_neg (by omega),if_pos hunreachable,List.map_const',hlen]

/-- Each of a few sources a round can balance holds at most the cap, so that together they cannot
take the aggregate out of the prices of the others. Rounds that no weights can balance, and those of
fewer than three sources, are exempt: there the same holds of sources with less than half of the
weight. -/
theorem coalition_bounded (hne : ps ≠ []) (hps : ∀ p ∈ ps, IsPrice p)
    (hsame : ws.length = ps.length) (hws : ∀ w ∈ ws, 1 ≤ w ∧ w ≤ 1000)
    (hcap : 1000 ≤ capBps ∧ capBps ≤ 10000) (hfew : S.card * capBps < 5000) :
    (S.card = 0 ∨ 3 ≤ ps.length ∧ 10000 ≤ ps.length * capBps →
      10000 * massAt (capped ws capBps) S ≤ S.card * capBps * (capped ws capBps).sum ∧
        WithinRest ps S (weightedAggregate ps (capped ws capBps))) ∧
    (2 * massAt (capped ws capBps) S < (capped ws capBps).sum →
      WithinRest ps S (weightedAggregate ps (capped ws capBps))) ∧
    (ps.length < 3 → capped ws capBps = ws) ∧
    (3 ≤ ps.length → ps.length * capBps < 10000 →
      capped ws capBps = List.replicate ps.length 1) := by
  have hpositive : 0 < (capped ws capBps).sum := (weighed_capped hne hsame hws).sum_pos
  refine ⟨fun hround => ?_,weightedAggregate_withinRest hne hps hsame hws,
    fun hsmall => capped_of_few (hsame.trans_lt hsmall),fun hthree hunreachable => ?_⟩
  · have hshare : 10000 * massAt (capped ws capBps) S ≤
        S.card * capBps * (capped ws capBps).sum := by
      by_cases hnone : S.card = 0
      · rw [Finset.card_eq_zero.1 hnone]
        exact Nat.zero_le _
      · have hoff : capBps ≠ 10000 := by
          rintro rfl
          omega
        obtain ⟨hthree,hreach⟩ := hround.resolve_left hnone
        exact capped_share hsame hthree hcap.1 hoff hcap.2 hreach
    refine ⟨hshare,weightedAggregate_withinRest hne hps hsame hws ?_⟩
    have hless : S.card * capBps * (capped ws capBps).sum < 5000 * (capped ws capBps).sum :=
      Nat.mul_lt_mul_of_pos_right hfew hpositive
    omega
  · rw [← hsame] at hthree hunreachable ⊢
    exact capped_of_unreachable hthree hcap.1 hunreachable

/-- Two sources are not capped: the heavier one decides. -/
theorem coalition_unbounded :
    ¬∀ (ps : List Int) (ws : List Nat) (capBps : Nat) (S : Finset Nat), ps ≠ [] →
      (∀ p ∈ ps, IsPrice p) → ws.length = ps.length → (∀ w ∈ ws, 1 ≤ w ∧ w ≤ 1000) →
      1000 ≤ capBps ∧ capBps ≤ 10000 → (∀ i ∈ S, i < ps.length) → S.card * capBps < 5000 →
      10000 * massAt (capped ws capBps) S ≤ S.card * capBps * (capped ws capBps).sum ∧
        WithinRest ps S (weightedAggregate ps (capped ws capBps)) := by
  intro h
  have hshare := (h [900,100] [1000,1] 1000 {0} (by decide) (by decide) (by decide) (by decide)
    (by decide) (by decide) (by decide)).1
  revert hshare
  decide

/-- Three sources under a cap of two fifths, one of them far heavier than the others. -/
theorem coalition_bounded_three :
    10000 * massAt (capped [1000, 1, 1] 4000) {0} ≤
        ({0} : Finset Nat).card * 4000 * (capped [1000, 1, 1] 4000).sum ∧
      WithinRest [900, 100, 200] {0}
        (weightedAggregate [900, 100, 200] (capped [1000, 1, 1] 4000)) := by
  have h := @coalition_bounded [900,100,200] [1000,1,1] 4000 {0} (by decide) (by decide)
    (by decide) (by decide) (by decide) (by decide)
  exact h.1 (by decide)

end Collusion

end PriceOracle.Pricing
