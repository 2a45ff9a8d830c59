import PriceOracle.Lib.MachineInt
import PriceOracle.Lib.SquareRoot
import PriceOracle.Lib.OrderStatistic

/-! # Price statistics

The statistics of `storage.rs`, the weighted median of `freshness_weight.rs`, the influence cap and
the fault-tolerant aggregate, as the contract computes them: heapsort, selection by median of
medians, and the overflow behaviour of every operator. Loops that shrink an index are recursive in
it; the others carry as fuel the length that bounds them. -/

namespace PriceOracle.Model.Pricing

open Lib.MachineInt

/-- A price as the contract stores it. -/
def IsPrice (x : Int) : Prop := 0 < x ∧ IsI128 x

instance (x : Int) : Decidable (IsPrice x) :=
  inferInstanceAs (Decidable (0 < x ∧ i128Min ≤ x ∧ x ≤ i128Max))

/-- `get_unchecked` on a price vector. -/
def get (p : List Int) (i : Nat) : Int := p.getD i 0

def swap (p : List Int) (i j : Nat) : List Int := (p.set i (get p j)).set j (get p i)

/-- Sifts the element at `current` down a max-heap of size `n`. There are no more prices than sources in
one ledger entry, so the index of a child does not wrap. -/
def heapify : Nat → List Int → Nat → Nat → List Int
  | 0, p, _, _ => p
  | fuel + 1, p, n, current =>
    let left := 2 * current + 1
    let right := 2 * current + 2
    let largest := if left < n ∧ get p current < get p left then left else current
    let largest := if right < n ∧ get p largest < get p right then right else largest
    if largest = current then p else heapify fuel (swap p current largest) n largest

def buildHeap (n : Nat) : Nat → List Int → List Int
  | 0, p => heapify n p n 0
  | i + 1, p => buildHeap n i (heapify n p n (i + 1))

def extractHeap (n : Nat) : Nat → List Int → List Int
  | 0, p => heapify n (swap p 0 0) 0 0
  | stop + 1, p => extractHeap n stop (heapify n (swap p 0 (stop + 1)) (stop + 1) 0)

def sortPrices (p : List Int) : List Int :=
  let n := p.length
  if n ≤ 1 then p else extractHeap n (n - 1) (buildHeap n (n / 2) p)

/-- The inner loop of `median_of_five`: moves the element at `j` left while it is smaller. -/
def insertLeft (left : Nat) : Nat → List Int → List Int
  | 0, p => p
  | j + 1, p =>
    if left < j + 1 ∧ get p (j + 1) < get p j then insertLeft left j (swap p (j + 1) j) else p

/-- Sorts `left..=right` in place and returns the middle position. -/
def medianOfFive (p : List Int) (left right : Nat) : List Int × Nat :=
  ((List.range' (left + 1) (right - left)).foldl (fun p i => insertLeft left i p) p,
    left + (right - left) / 2)

def partition (p : List Int) (left right pivotIndex : Nat) : List Int × Nat :=
  let pivotValue := get p pivotIndex
  let p := swap p pivotIndex right
  let (p, storeIndex) := (List.range' left (right - left)).foldl
    (fun (acc : List Int × Nat) i =>
      if get acc.1 i < pivotValue then (swap acc.1 acc.2 i, acc.2 + 1) else acc) (p, left)
  (swap p storeIndex right, storeIndex)

/-- Moves the median of each group of five to the front, starting at `i`. -/
def gatherMedians (right : Nat) : Nat → List Int → Nat → Nat → List Int × Nat
  | 0, p, store, _ => (p, store)
  | fuel + 1, p, store, i =>
    if i ≤ right then
      let groupEnd := if i + 4 ≤ right then i + 4 else right
      let (p, median) := medianOfFive p i groupEnd
      gatherMedians right fuel (swap p median store) (store + 1) (i + 5)
    else (p, store)

def selectPivot (p : List Int) (left right : Nat) : List Int × Nat :=
  if right - left + 1 ≤ 5 then medianOfFive p left right
  else
    let (p, store) := gatherMedians right (right - left + 1) p left left
    medianOfFive p left (store - 1)

def selectKth : Nat → List Int → Nat → Nat → Nat → List Int × Int
  | 0, p, left, _, _ => (p, get p left)
  | fuel + 1, p, left, right, k =>
    if left = right then (p, get p left)
    else
      let (p, pivotIndex) := selectPivot p left right
      let (p, pivotIndex) := partition p left right pivotIndex
      if k = pivotIndex then (p, get p k)
      else if k < pivotIndex then selectKth fuel p left (pivotIndex - 1) k
      else selectKth fuel p (pivotIndex + 1) right k

def midpoint (lower upper : Int) : Int :=
  wrapAdd lower ((wrapSub upper lower).tdiv 2)

def computeMedian (prices : List Int) : Int :=
  let n := prices.length
  if n = 0 then 0
  else
    let mid := n / 2
    if n % 2 = 0 then
      let (selected, lower) := selectKth n prices 0 (n - 1) (mid - 1)
      let (_, upper) := selectKth n selected 0 (n - 1) mid
      midpoint lower upper
    else (selectKth n prices 0 (n - 1) mid).2

/-- The checked running sum of `compute_mean`; `none` on overflow. -/
def checkedSum : List Int → Int → Option Int
  | [], sum => some sum
  | p :: ps, sum =>
    if i128Min ≤ sum + p ∧ sum + p ≤ i128Max then checkedSum ps (sum + p) else none

def computeMean (prices : List Int) : Int :=
  let n : Int := prices.length
  if prices.length = 0 then 0
  else match checkedSum prices 0 with
    | some sum => sum.tdiv n
    | none =>
      let (quotient, remainder) := prices.foldl
        (fun (acc : Int × Int) p => (wrapAdd acc.1 (p.tdiv n), wrapAdd acc.2 (p.tmod n))) (0, 0)
      wrapAdd quotient (remainder.tdiv n)

def computeTrimmedMean (prices : List Int) (trimPercent : Nat) : Int :=
  let n := prices.length
  if n = 0 then 0
  else if trimPercent = 0 then computeMean prices
  else
    let sorted := sortPrices prices
    let trimCount := min (satMul32 n trimPercent / 100 / 2) (n - 1)
    if trimCount = 0 then computeMean sorted
    else
      let trimmed := (sorted.drop trimCount).take (n - trimCount - trimCount)
      if trimmed.isEmpty then get sorted (n / 2) else computeMean trimmed

def computeVwap (prices volumes : List Int) : Int :=
  let n := min prices.length volumes.length
  if n = 0 then 0
  else
    let (weightedSum, totalVolume) := (prices.zip volumes).foldl
      (fun (acc : Int × Int) (pv : Int × Int) =>
        if pv.2 ≤ 0 then acc
        else (satAdd acc.1 (satMul pv.1 pv.2), satAdd acc.2 pv.2)) (0, 0)
    if totalVolume = 0 then computeMean prices else weightedSum.tdiv totalVolume

/-- `aggregate_bft_prices`: interquartile acceptance, then symmetric trimming. -/
def aggregateBftPrices (prices : List Int) (faultTolerance method : Nat) : Int :=
  let n := prices.length
  if n = 0 then 0
  else if n = 1 then get prices 0
  else
    let sorted := sortPrices prices
    let q1 := get sorted (n / 4)
    -- the product does not wrap: `n` is at most the number of listed sources
    let q3 := get sorted (n * 3 / 4 - 1)
    let margin := (satMul (satSub q3 q1) 3).tdiv 2
    let accepted := if 4 ≤ n then
        sorted.filter fun v => satSub q1 margin ≤ v ∧ v ≤ satAdd q3 margin
      else []
    let consensus := if accepted.isEmpty then sorted else accepted
    let trimCount := min faultTolerance (consensus.length / 2)
    let consensus := if 0 < trimCount ∧ satMul32 trimCount 2 < consensus.length then
        let trimmed := (consensus.drop trimCount).take (consensus.length - trimCount - trimCount)
        if trimmed.isEmpty then consensus else trimmed
      else consensus
    match method with
    | 1 => computeMean consensus
    | 2 => computeTrimmedMean consensus 10
    | _ => computeMedian consensus

/-- The number of entries the fixed-size buffers of the weighted path hold. -/
def maxEntries : Nat := 128

def totalWeight (weights : List Nat) : Nat := weights.foldl (· + ·) 0

def withinCap (weights : List Nat) (capBps : Nat) : Bool :=
  weights.all fun w => w * 10000 ≤ capBps * totalWeight weights

/-- One pass of the cap over all weights, against the total at its start. -/
def capPass (capBps : Nat) (weights : List Nat) : List Nat :=
  let total := totalWeight weights
  weights.map fun w =>
    let most := wrap32 ((total - w) * capBps / (10000 - capBps))
    if most < w then max most 1 else w

def capLoop (capBps : Nat) : Nat → List Nat → List Nat
  | 0, weights => weights
  | fuel + 1, weights =>
    let next := capPass capBps weights
    if next = weights then weights else capLoop capBps fuel next

def applyCap (weights : List Nat) (capBps : Nat) : List Nat :=
  let n := weights.length
  if n < 3 ∨ 10000 ≤ capBps then weights
  else if n * capBps < 10000 then weights.map fun _ => 1
  else
    let capped := capLoop capBps (n * 4) weights
    if withinCap capped capBps then capped else weights.map fun _ => 1

def influenceBps (weights : List Nat) : List Nat :=
  let total := totalWeight weights
  weights.map fun w => if total = 0 then 0 else wrap32 (w * 10000 / total)

/-- `freshness_weight::capped`. -/
def capped (weights : List Nat) (capBps : Nat) : List Nat :=
  applyCap (weights.take maxEntries) capBps

/-- The scan of `weighted_median` over the pairs in price order. -/
def weightedScan (total : Nat) : Nat → List (Int × Nat) → Option Int
  | _, [] => none
  | cumulative, (p, w) :: rest =>
    let cumulative := cumulative + w
    if total ≤ cumulative * 2 then
      match rest with
      | (hi, _) :: _ => if cumulative * 2 = total then some (midpoint p hi) else some p
      | [] => some p
    else weightedScan total cumulative rest

def weightedMedian (prices : List Int) (weights : List Nat) : Int :=
  let pairs := ((prices.zip weights).take maxEntries).map fun pw => (pw.1, max pw.2 1)
  let sorted := pairs.insertionSort fun a b => a.1 ≤ b.1
  (weightedScan (totalWeight (pairs.map Prod.snd)) 0 sorted).getD 0

/-- `freshness_weight::aggregate`: missing weights count as one. -/
def weightedAggregate (prices : List Int) (weights : List Nat) : Int :=
  let prices := prices.take maxEntries
  weightedMedian prices ((List.range prices.length).map fun i => weights.getD i 1)

/-- `policy::deviation_mask`. -/
def deviationMask (prices : List Int) (maxBps : Nat) : List Bool :=
  if prices.isEmpty then []
  else
    let median := computeMedian prices
    let bound := satMul (wrapAbs median) maxBps
    prices.map fun price => satMul (wrapAbs (wrapSub price median)) 10000 ≤ bound

end PriceOracle.Model.Pricing

/-! ## The dispersion of prices

`integer_sqrt`, `compute_stddev` and `compute_confidence_bps` of `storage.rs`. -/

namespace PriceOracle.Model.Pricing

open Lib.MachineInt Lib.SquareRoot

/-- The bisection of a value of 128 bits takes at most 127 halvings. -/
def integerSqrt (value : Int) : Int :=
  if value ≤ 1 then value else bisect (fun mid => satMul mid mid ≤ value) 127 0 value

def computeStddev (prices : List Int) : Nat :=
  if prices.length = 0 then 0
  else
    let mean := computeMean prices
    let sumSq := prices.foldl
      (fun sum p => satAdd sum (satMul (wrapSub p mean) (wrapSub p mean))) 0
    let variance := sumSq.tdiv prices.length
    wrap32 (toU128 (max (integerSqrt variance) 0))

def computeConfidenceBps (prices : List Int) : Nat :=
  if prices.length = 0 then 0
  else
    let mean := computeMean prices
    if mean ≤ 0 then 0
    else wrap32 (satMul128 (computeStddev prices) 10000 / toU128 mean)

end PriceOracle.Model.Pricing

/-! ## The pure core and the reference median

`core_pricing.rs` computes the statistics of `storage.rs` a second time, in buffers of fixed size
and with another selection; `median_determinism.rs` states the median by sorting. -/

namespace PriceOracle.Model.Pricing

open Lib.MachineInt

/-- The number of inputs the fixed-buffer functions consider. -/
def medianWindow : Nat := 128

/-- `if arr[i] > arr[j] { arr.swap(i, j) }`. -/
def orderPair (arr : List Int) (i j : Nat) : List Int :=
  if get arr j < get arr i then swap arr i j else arr

/-- One iteration of the loop of `partition_core`. -/
def partitionCoreStep (pivot : Int) (acc : List Int × Nat) (i : Nat) : List Int × Nat :=
  if get acc.1 i ≤ pivot then (swap acc.1 i acc.2, acc.2 + 1) else acc

def partitionCore (arr : List Int) (lo hi : Nat) : List Int × Nat :=
  let mid := lo + (hi - lo) / 2
  let arr := orderPair (orderPair (orderPair arr lo mid) lo hi) mid hi
  let pivot := get arr mid
  let (arr, store) := (List.range' lo (hi - lo)).foldl (partitionCoreStep pivot)
    (swap arr mid hi, lo)
  (swap arr store hi, store)

/-- Sorts a window of two or three elements. -/
def sortTiny (arr : List Int) (lo hi : Nat) : List Int :=
  let arr := orderPair arr lo (lo + 1)
  if hi - lo = 2 then orderPair (orderPair arr (lo + 1) hi) lo (lo + 1) else arr

def quickselectLoop : Nat → List Int → Nat → Nat → Nat → List Int
  | 0, arr, _, _, _ => arr
  | fuel + 1, arr, lo, hi, k =>
    if hi ≤ lo then arr
    else if hi - lo < 3 then sortTiny arr lo hi
    else
      let (arr, pivot) := partitionCore arr lo hi
      if k < pivot then quickselectLoop fuel arr lo (pivot - 1) k
      else if pivot < k then quickselectLoop fuel arr (pivot + 1) hi k
      else arr

def quickselectCore (arr : List Int) (k : Nat) : List Int :=
  let n := arr.length
  if n ≤ 1 ∨ n ≤ k then arr else quickselectLoop n arr 0 (n - 1) k

def medianCore (prices : List Int) : Int :=
  match prices with
  | [] => 0
  | [p] => p
  | _ =>
    let buf := prices.take medianWindow
    let len := buf.length
    if len % 2 = 1 then
      let mid := len / 2
      get (quickselectCore buf mid) mid
    else
      let upperMid := len / 2
      let buf := quickselectCore buf upperMid
      let b := get buf upperMid
      -- the lower middle element is the greatest of the lower partition
      let a := ((buf.take upperMid).drop 1).foldl (fun a v => if a < v then v else a) (get buf 0)
      midpoint a b

/-- The sums of the quotients and of the remainders, kept apart. -/
def meanNoOverflow (prices : List Int) : Int :=
  let n : Int := prices.length
  let (quotient, remainder) := prices.foldl
    (fun (acc : Int × Int) p => (wrapAdd acc.1 (p.tdiv n), wrapAdd acc.2 (p.tmod n))) (0, 0)
  wrapAdd quotient (remainder.tdiv n)

def meanCore (prices : List Int) : Int :=
  let n := prices.length
  if n = 0 then 0
  else match checkedSum prices 0 with
    | some sum => sum.tdiv n
    | none => meanNoOverflow prices

/-- The slice `arr[from..to]`. -/
def slice (arr : List Int) (start stop : Nat) : Option (List Int) :=
  if start ≤ stop ∧ stop ≤ arr.length then some ((arr.drop start).take (stop - start)) else none

def trimmedMeanCore (prices : List Int) (trimPercent : Nat) : Option Int :=
  let n := prices.length
  if n = 0 then some 0
  else if trimPercent = 0 then some (meanCore prices)
  else
    let sorted := (prices.take medianWindow).insertionSort (· ≤ ·)
    let len := sorted.length
    let trimCount := min (satMul32 len trimPercent / 100 / 2) (len - 1)
    if trimCount = 0 then some (meanCore sorted)
    else do
      let trimmed ← slice sorted trimCount (len - trimCount)
      if trimmed.isEmpty then pure (get sorted (len / 2)) else pure (meanCore trimmed)

/-- The scan of `weighted_median_core`: the position it ends at and the weight up to there. -/
def scanPast (half : Int) (i : Nat) (cumulative : Int) (medianIdx : Nat) :
    List (Int × Int) → Nat × Int
  | [] => (medianIdx, cumulative)
  | (_, w) :: rest =>
    let cumulative := satAdd cumulative w
    if half < cumulative then (i, cumulative) else scanPast half (i + 1) cumulative i rest

def weightedMedianCore (prices weights : List Int) : Int :=
  let n := prices.length
  if n = 0 then 0
  else if n = 1 then get prices 0
  else if weights.length ≠ n then medianCore prices
  else
    let pairs := ((prices.zip weights).take medianWindow).map fun pw => (pw.1, max pw.2 1)
    let pairs := pairs.insertionSort fun a b => a.1 ≤ b.1
    let totalWeight := pairs.foldl (fun acc pw => satAdd acc pw.2) 0
    let half := totalWeight.tdiv 2
    let (medianIdx, cumulative) := scanPast half 0 0 0 pairs
    let priceAt := get (pairs.map Prod.fst) medianIdx
    -- after a `break` the weight up to here is above the half
    if totalWeight.tmod 2 = 0 ∧ cumulative = half ∧ medianIdx + 1 < pairs.length then
      midpoint priceAt (get (pairs.map Prod.fst) (medianIdx + 1))
    else priceAt

/-- The inner loop of `sort_ascending`: moves the elements greater than `key` one place right. -/
def shiftRight (key : Int) : Nat → List Int → List Int × Nat
  | 0, values => (values, 0)
  | j + 1, values =>
    if key < get values j then shiftRight key j (values.set (j + 1) (get values j))
    else (values, j + 1)

/-- One iteration of the outer loop of `sort_ascending`. -/
def insertAt (values : List Int) (i : Nat) : List Int :=
  let key := get values i
  let (values, j) := shiftRight key i values
  values.set j key

def sortAscending (values : List Int) : List Int :=
  let n := values.length
  if n ≤ 1 then values else (List.range' 1 (n - 1)).foldl insertAt values

def canonicalMedian (values : List Int) : Int :=
  let n := values.length
  if n = 0 then 0
  else
    let sorted := sortAscending values
    if n % 2 = 1 then get sorted (n / 2)
    else midpoint (get sorted (n / 2 - 1)) (get sorted (n / 2))

end PriceOracle.Model.Pricing

/-! ## The incremental aggregate

`incremental_aggregate.rs` keeps the contributing prices sorted, tagged with the epoch of the source
set they belong to, so that a mutation costs one search and the median is read off the middle. -/

namespace PriceOracle.Model.Pricing

structure IncrementalAggregate where
  sorted : List Int
  epoch : Nat
deriving DecidableEq, Repr

namespace IncrementalAggregate

variable (inc : IncrementalAggregate)

def rebuild (prices : List Int) (epoch : Nat) : IncrementalAggregate := ⟨sortPrices prices, epoch⟩

def empty (epoch : Nat) : IncrementalAggregate := ⟨[], epoch⟩

/-- First index whose value is at least `price`. -/
def lowerBound (price : Int) : Nat :=
  let n := inc.sorted.length
  Lib.BinarySearch.lowerBound (fun mid => get inc.sorted mid < price) n 0 n

def insert (price : Int) : IncrementalAggregate :=
  { inc with sorted := inc.sorted.insertIdx (inc.lowerBound price) price }

/-- Removes one occurrence of `price`; the flag tells whether there was one. -/
def remove (price : Int) : IncrementalAggregate × Bool :=
  let pos := inc.lowerBound price
  if pos < inc.sorted.length ∧ get inc.sorted pos = price then
    ({ inc with sorted := inc.sorted.eraseIdx pos }, true)
  else (inc, false)

/-- A source replaced its price `old` with `new`. -/
def replace (old new : Int) : IncrementalAggregate × Bool :=
  let (removed, found) := inc.remove old
  if found then (removed.insert new, true) else (removed, false)

def medianUnchecked : Int :=
  let n := inc.sorted.length
  if n = 0 then 0
  else
    let mid := n / 2
    if n % 2 = 0 then midpoint (get inc.sorted (mid - 1)) (get inc.sorted mid)
    else get inc.sorted mid

/-- No answer when the structure is stale. -/
def medianAt (currentEpoch : Nat) : Option Int :=
  if inc.epoch ≠ currentEpoch then none else some inc.medianUnchecked

end IncrementalAggregate

end PriceOracle.Model.Pricing
