import PriceOracle.Model.Settings

/-! # Volatility-bucketed adaptive quorum

The returns of an asset's observed prices are averaged over a window, the average falls into a
bucket, and the bucket selects a quorum. The stored regime moves up at once and down only after a
streak of observations; a round's quorum is pinned from the window. -/

namespace PriceOracle.Model

open Lib.Transaction Lib.MachineInt

def VolatilityBuckets.default : VolatilityBuckets := ⟨[50, 500], [1, 3, 5], 3, 2, 16⟩

/-- `validate_config`: one more quorum than boundaries, none of them zero, boundaries ascending. -/
def VolatilityBuckets.valid (config : VolatilityBuckets) : Bool :=
  !config.boundaries.isEmpty && config.quorums.length == config.boundaries.length + 1 &&
    config.quorums.all (· ≠ 0) &&
    ((config.boundaries.zip config.boundaries.tail).all fun x => x.1 < x.2) &&
    config.window ≠ 0 && config.minSamples ≠ 0

def VolatilityBuckets.bucketOf (config : VolatilityBuckets) (volatilityBps : Nat) : Nat :=
  config.boundaries.findIdx fun boundary => volatilityBps < boundary

def VolatilityBuckets.quorumOf (config : VolatilityBuckets) (bucket : Nat) : Nat :=
  config.quorums.getD (min bucket (config.quorums.length - 1)) 0

def meanAbsReturn (samples : List Nat) : Nat :=
  if samples = [] then 0 else min (samples.sum / samples.length) u32Max

/-- The regime reported while there are too few samples to classify. -/
def VolatilityBuckets.unclassified (config : VolatilityBuckets) (samples : Nat) : QuorumRegime :=
  ⟨0, config.quorums.getD 0 0, 0, samples, 0⟩

def Store.getAdaptiveQuorumConfig (st : Store) : VolatilityBuckets :=
  st.adaptiveQuorum.config.getD .default

def Store.volatilityWindow (st : Store) (asset : Address) : List Nat :=
  (st.adaptiveQuorum.window asset).getD []

/-- Too few observations make the regime meaningless. -/
def Store.classifies (st : Store) (asset : Address) : Bool :=
  st.getAdaptiveQuorumConfig.minSamples ≤ (st.volatilityWindow asset).length

/-- The regime of the window as it is; only the streak comes from the stored regime. -/
def Store.getRegime (st : Store) (asset : Address) : QuorumRegime :=
  let config := st.getAdaptiveQuorumConfig
  let samples := st.volatilityWindow asset
  if st.classifies asset = false then config.unclassified samples.length
  else
    let volatilityBps := meanAbsReturn samples
    let bucket := config.bucketOf volatilityBps
    let streak := ((st.adaptiveQuorum.state asset).map QuorumRegime.streak).getD 0
    ⟨bucket, config.quorumOf bucket, volatilityBps, samples.length, streak⟩

def setAdaptiveQuorumConfig (config : VolatilityBuckets) : Contract Unit := asAdmin do
  ensure (config.valid = true) .invalidAdaptiveQuorum
  modifyAdaptiveQuorum fun q => { q with config := some config }

/-- Whether a price has a return: neither it nor the price before it is zero or negative. -/
def measures (previous : Option Int) (price : Int) : Bool :=
  previous.any fun prev => 0 < prev ∧ 0 < price

/-- The return in basis points; the product is one of 128 bits. -/
def absReturnBps (previous : Option Int) (price : Int) : Nat :=
  let prev := previous.getD 0
  min (wrap128 ((price - prev).natAbs * 10000) / prev.toNat) u32Max

/-- The window after an observation, without its oldest entries if it grew too long. -/
def VolatilityBuckets.observed (config : VolatilityBuckets) (samples : List Nat)
    (previous : Option Int) (price : Int) : List Nat :=
  if measures previous price then
    let grown := samples ++ [absReturnBps previous price]
    grown.drop (grown.length - config.window)
  else samples

/-- The classification of `classify`: tightening is immediate, relaxing waits for the streak. -/
def VolatilityBuckets.damp (config : VolatilityBuckets) (previous : Option QuorumRegime)
    (volatilityBps samples : Nat) : QuorumRegime :=
  let target := config.bucketOf volatilityBps
  let fromBucket := (previous.map QuorumRegime.bucket).getD target
  let priorStreak := (previous.map QuorumRegime.streak).getD 0
  if fromBucket ≤ target ∨ config.relaxAfter ≤ priorStreak + 1 then
    ⟨target, config.quorumOf target, volatilityBps, samples, 0⟩
  else ⟨fromBucket, config.quorumOf fromBucket, volatilityBps, samples, priorStreak + 1⟩

def classify (asset : Address) (config : VolatilityBuckets) (samples : List Nat) :
    Contract QuorumRegime :=
  if samples.length < config.minSamples then pure (config.unclassified samples.length)
  else do
    let regime ← readStore fun _ st =>
      config.damp (st.adaptiveQuorum.state asset) (meanAbsReturn samples) samples.length
    modifyAdaptiveQuorum fun q => { q with
      state := Function.update q.state asset (some regime) }
    pure regime

/-- Callable by anyone; the reference is the price of the last observation. -/
def observePrice (asset : Address) (price : Int) : Contract QuorumRegime := do
  let config ← readStore fun _ st => st.getAdaptiveQuorumConfig
  let previous ← readStore fun _ st => st.adaptiveQuorum.lastPrice asset
  let samples ← readStore fun _ st =>
    config.observed (st.volatilityWindow asset) previous price
  modifyAdaptiveQuorum fun q => { q with
    window := if measures previous price then Function.update q.window asset (some samples)
      else q.window
    lastPrice := Function.update q.lastPrice asset (some price) }
  classify asset config samples

def effectiveQuorum (asset : Address) : Contract Nat := do
  let enough ← readStore fun _ st => st.classifies asset
  ensure (enough = true) .insufficientVolatilitySamples
  readStore fun _ st => (st.getRegime asset).quorum

/-- Callable by anyone, and for a round that is pinned already. -/
def pinRoundQuorum (asset : Address) (round : Nat) : Contract RoundQuorum := do
  let enough ← readStore fun _ st => st.classifies asset
  ensure (enough = true) .insufficientVolatilitySamples
  let regime ← readStore fun _ st => st.getRegime asset
  let pinned : RoundQuorum := ⟨round, regime.bucket, regime.quorum, regime.volatilityBps⟩
  modifyAdaptiveQuorum fun q => { q with
    round := Function.update q.round (asset, round) (some pinned) }
  pure pinned

end PriceOracle.Model
