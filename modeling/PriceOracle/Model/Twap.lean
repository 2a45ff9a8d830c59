import PriceOracle.Model.Archive

/-! # Time-weighted prices

The average of the aggregate over a window of ledgers: each history entry weighs as many ledgers as
it was in force. Logarithms and powers are in fixed point with 32 fractional bits. -/

namespace PriceOracle.Model

open Lib.MachineInt

/-- `127 - leading_zeros`, which wraps for zero. -/
def bitIndex (x : Nat) : Nat := if x = 0 then u32Max else x.log2

/-- The bits of the fraction: the mantissa is squared, and halved where it has passed two. -/
def log2Bits : Nat → Nat → Nat
  | 0, _ => 0
  | n + 1, y =>
    let square := satMul128 y y >>> 32
    if 2 <<< 32 ≤ square then 2 ^ n + log2Bits n (square >>> 1) else log2Bits n square

/-- The shifts take their amounts modulo the width. -/
def log2Fixed (value : Int) : Int :=
  let x := toU128 value
  let exp : Int := (bitIndex x : Int) - 32
  let y := if 0 ≤ exp then x >>> (exp.toNat % 128) else wrap128 (x <<< (-exp).toNat)
  exp * 2 ^ 32 + log2Bits 32 y

/-- ln 2. -/
def ln2 : Nat := 2977044471

/-- The power of two of a fraction, by its Taylor polynomial of degree six. -/
def exp2Frac (frac : Nat) : Nat :=
  let x := satMul128 frac ln2 >>> 32
  let x2 := satMul128 x x >>> 32
  let x3 := satMul128 x2 x >>> 32
  let x4 := satMul128 x3 x >>> 32
  let x5 := satMul128 x4 x >>> 32
  let x6 := satMul128 x5 x >>> 32
  [x, x2 / 2, x3 / 6, x4 / 24, x5 / 120, x6 / 720].foldl satAdd128 (1 <<< 32)

def exp2Fixed (log2 : Int) : Int :=
  let intPart := log2 / 2 ^ 32
  let base := exp2Frac (log2 % 2 ^ 32).toNat
  if 0 ≤ intPart then
    if 96 ≤ intPart then i128Max else wrap (base <<< intPart.toNat)
  else
    let shift := wrap32 (-intPart).toNat
    if shift = 0 then base
    else if 128 ≤ shift then 0
    else wrap (satAdd128 base (1 <<< (shift - 1)) >>> shift)

/-- The history entries below a ledger, newest first, down to the first one at or before the start
of the window; an entry of the ledger recorded last is skipped. -/
def History.snapshotsBelow (h : History) (asset : Address) (startLedger : Nat) :
    Nat → Nat → List (Nat × Int)
  | 0, _ => []
  | ledger + 1, last =>
    match h.readHistoryEntry asset ledger with
    | none => h.snapshotsBelow asset startLedger ledger last
    | some entry =>
      let rest := if entry.ledger ≤ startLedger then []
        else h.snapshotsBelow asset startLedger ledger entry.ledger
      if entry.ledger = last then rest else (entry.ledger, entry.price) :: rest

/-- The accumulators of the weighting loop. -/
structure TwapSums where
  totalWeight : Nat := 0
  weightedPrice : Int := 0
  weightedLog2 : Int := 0
  nextBoundary : Nat
  cardinality : Nat := 0
  maxWeight : Nat := 0

/-- One snapshot: it weighs from the start of its segment up to the segment counted before it. -/
def TwapSums.add (s : TwapSums) (method : TwapMethod) (segmentStart : Nat) (price : Int) :
    TwapSums :=
  if segmentStart < s.nextBoundary then
    let weight := s.nextBoundary - segmentStart
    { totalWeight := satAdd64 s.totalWeight weight
      weightedPrice := satAdd s.weightedPrice (satMul price weight)
      weightedLog2 := match method with
        | .arithmetic => s.weightedLog2
        | .geometric => satAdd s.weightedLog2 (satMul (log2Fixed price) weight)
      nextBoundary := segmentStart
      cardinality := s.cardinality + 1
      maxWeight := max s.maxWeight weight }
  else s

/-- The loop over the snapshots ends with the first one that reaches the start of the window. -/
def TwapSums.addAll (method : TwapMethod) (startLedger : Nat) :
    TwapSums → List (Nat × Int) → TwapSums
  | s, [] => s
  | s, (ledger, price) :: rest =>
    let segmentStart := max ledger startLedger
    let s' := s.add method segmentStart price
    if segmentStart = startLedger then s' else s'.addAll method startLedger rest

def TwapSums.price (s : TwapSums) : TwapMethod → Int
  | .arithmetic => s.weightedPrice.tdiv s.totalWeight
  | .geometric => exp2Fixed (s.weightedLog2.tdiv s.totalWeight)

def Store.computeTwapStats (env : Env) (st : Store) (asset : Address)
    (startLedger currentLedger : Nat) (method : TwapMethod) : Option TwapResult :=
  (st.aggregate asset).bind fun currentAgg =>
    let snapshots := (currentLedger, currentAgg.price) ::
      st.history.snapshotsBelow asset startLedger currentLedger currentLedger
    let sums := TwapSums.addAll method startLedger { nextBoundary := satAdd32 currentLedger 1 }
      snapshots
    if sums.totalWeight = 0 then none
    else some
      { price := sums.price method
        timestamp := env.timestamp
        lastUpdated := currentLedger
        cardinality := sums.cardinality
        maxWeightBps := wrap32 (wrap64 (sums.maxWeight * 10000) / sums.totalWeight)
        concentrated := sums.cardinality = 1 }

def Store.computeTwapWindow (env : Env) (st : Store) (asset : Address)
    (startLedger currentLedger : Nat) (method : TwapMethod) : Option PriceData :=
  (st.computeTwapStats env asset startLedger currentLedger method).map fun r =>
    ⟨r.price, r.timestamp, r.lastUpdated⟩

/-- The average that is served while the circuit breaker of an asset is tripped. -/
def Store.computeTwapFallback (env : Env) (st : Store) (asset : Address) :
    Option AggregatePrice :=
  let maxHistory := max st.getMaxHistoryLength 5
  (st.computeTwapWindow env asset (env.sequence - maxHistory) env.sequence .arithmetic).map
    fun data => ⟨data.price, data.timestamp, 0, st.getDecimals, false, 0⟩

end PriceOracle.Model
