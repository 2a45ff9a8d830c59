import PriceOracle.Lib.Mask
import PriceOracle.Model.Archive
import PriceOracle.Model.Screening
import PriceOracle.Lib.Lists
import PriceOracle.Model.Timelock

/-! # Aggregation

`aggregate_asset_mode` in three stages: open a round, decide on a price, commit it. The stages
before the commit write per-asset round records only. Beside it stand the other functions that
replay stored submissions: the candidate of the circuit breaker, the quorum count after a
submission, and the permissionless trigger. -/

namespace PriceOracle.Model

open Lib.Transaction Lib.MachineInt Lib.Mask

/-- The reservoir walk over the sources from position `i` on, `kept` of them selected so far. -/
def sampleSources (seed maxAgg total : Nat) : Nat → Nat → List Address → List Address
  | _, _, [] => []
  | i, kept, s :: ss =>
    let remaining := total - i
    let needed := maxAgg - kept
    let h := wrap32 (wrap32 (seed * 1664525) + i + 1013904223)
    if remaining ≤ needed ∨ h % remaining < needed then
      if maxAgg ≤ kept + 1 then [s] else s :: sampleSources seed maxAgg total (i + 1) (kept + 1) ss
    else sampleSources seed maxAgg total (i + 1) kept ss

def Store.selectSources (st : Store) (seed : Nat) : List Address :=
  let maxAgg := st.getMaxAggregationSources
  let sources := st.registry.sources
  if 0 < maxAgg ∧ maxAgg < sources.length then
    sampleSources seed maxAgg sources.length 0 0 sources
  else sources

/-- The seed of an aggregation round, from the hash of the ledger sequence. -/
def roundSeed (env : Env) : Nat := ofLeBytes ((env.host.sha256 (leBytes 4 env.sequence)).take 4)

def priceByMethod : Nat → List Int → List Int → Int
  | 1, prices, _ => Pricing.computeMean prices
  | 2, prices, _ => Pricing.computeTrimmedMean prices 10
  | 3, prices, volumes => Pricing.computeVwap prices volumes
  | _, prices, _ => Pricing.computeMedian prices

def aggregatePrices (asset : Address) (prices volumes : List Int) : Contract Int := do
  let tolerance ← readStore fun _ st => st.readBftFaultTolerance
  if 0 < tolerance then
    readStore fun _ st =>
      Pricing.aggregateBftPrices prices tolerance st.readBftAggregationMethod
  else do
    let policy ← effectivePolicy asset
    pure (priceByMethod policy.method prices volumes)

/-- The parallel vectors a round collects, with its counters. -/
structure Round where
  validPrices : List Int := []
  validVolumes : List Int := []
  validWeights : List Nat := []
  validSources : List Address := []
  validSubLedgers : List Nat := []
  latestTimestamp : Nat := 0
  contributingSources : Nat := 0
  probationCounted : Nat := 0

/-- What a round reads once, before its loop over the sources. -/
structure RoundContext where
  asset : Address
  policy : EffectivePolicy
  guards : PublicationGuards
  minInterval : Nat
  freshWindow : Nat
  curve : FreshnessCurve
  dqRound : Option DqRound
  probationGuard : Bool

def Store.roundContext (env : Env) (st : Store) (asset : Address) (base : EffectivePolicy) :
    RoundContext where
  asset := asset
  policy := st.applyToPolicy asset base
  guards := st.guards
  minInterval := st.minIntervalFor asset
  freshWindow := st.windowFor asset
  curve := st.getCurve asset
  dqRound := st.dqRound env asset
  probationGuard := st.anyProbation

/-- The round's context, or `none` for an asset without a tier where tiers are mandatory. -/
def openRound (asset : Address) : Contract (Option RoundContext) := do
  let base ← effectivePolicy asset
  let ctx ← readStore fun e st => st.roundContext e asset base
  let blocked ← readStore fun _ st => st.enforcementFlag && (st.getTierParams asset).isNone
  if blocked then pure none
  else do
    let dqRound ← beginDq asset
    pure (some { ctx with dqRound })

/-- At most this many values of sources on probation count in one round. -/
def probationMaxCounted : Nat := 1

def Round.push (r : Round) (source : Address) (entry : PriceEntry) (weight : Nat)
    (probation : Bool) : Round where
  validPrices := r.validPrices ++ [entry.price]
  validVolumes := r.validVolumes ++ [entry.volume.getD 0]
  validWeights := r.validWeights ++ [weight]
  validSources := r.validSources ++ [source]
  validSubLedgers := r.validSubLedgers ++ [entry.lastUpdated]
  latestTimestamp := max r.latestTimestamp entry.timestamp
  contributingSources := r.contributingSources + 1
  probationCounted := if probation then r.probationCounted + 1 else r.probationCounted

/-- Freshness under the policy and the asset's window, then the data-quality screen. -/
def RoundContext.screens (ctx : RoundContext) (env : Env) (entry : PriceEntry) : Bool :=
  (ctx.policy.freshnessSecs = 0 ∨
      env.timestamp - entry.ledgerTimestamp ≤ ctx.policy.freshnessSecs) ∧
    isFresh env entry ctx.freshWindow ∧ ctx.dqRound.all fun round => round.screen env entry

/-- Counts the stored submission of `source`, if there is one and nothing keeps it out. -/
def Store.admit (env : Env) (st : Store) (ctx : RoundContext) (r : Round) (source : Address) :
    Round :=
  match st.submission (ctx.asset, source) with
  | none => r
  | some entry =>
    if st.isCorrelationFlagged ctx.asset source = true ∨ ctx.screens env entry = false then r
    else
      let probation := ctx.probationGuard && st.onProbation source
      if probation = true ∧ probationMaxCounted ≤ r.probationCounted then r
      else r.push source entry (entryWeight env entry ctx.curve) probation

/-- With a minimum interval, only a source with a recent enough submission is compliant. -/
def Store.compliant (env : Env) (st : Store) (minInterval : Nat) (asset source : Address) : Bool :=
  minInterval = 0 ∨ (st.stats.lastSubmissionLedger (source, asset)).any fun last =>
    env.sequence - last ≤ minInterval

/-- Flags a source whose last submission is too old. -/
def enforceInterval (minInterval : Nat) (asset source : Address) : Contract Bool := do
  let compliant ← readStore fun e st => st.compliant e minInterval asset source
  let submitted ← readStore fun _ st => (st.stats.lastSubmissionLedger (source, asset)).isSome
  if compliant = false ∧ submitted = true then
    modifyRounds fun r => { r with
      nonCompliant := Function.update r.nonCompliant (source, asset) true }
  pure compliant

/-- The exclusion check, made only once some source has been excluded. -/
def checkExcluded (guards : PublicationGuards) (source : Address) : Contract Bool :=
  if guards.anySourceExcluded then isExcluded source else pure false

/-- One iteration of the loop over the selected sources. -/
def collectSource (ctx : RoundContext) (r : Round) (source : Address) : Contract Round := do
  let excluded ← checkExcluded ctx.guards source
  if excluded then pure r
  else do
    let compliant ← enforceInterval ctx.minInterval ctx.asset source
    if compliant then readStore fun e st => st.admit e ctx r source else pure r

def collectRound (ctx : RoundContext) : Contract Round := do
  let selected ← readStore fun e st => st.selectSources (roundSeed e)
  selected.foldlM (collectSource ctx) {}

/-- The positions that survive both masks; an empty deviation mask keeps everything. -/
def survives (outlierMask deviationMask : List Bool) : List Bool :=
  if deviationMask.isEmpty then outlierMask
  else List.zipWith (fun a b => a && b) outlierMask deviationMask

/-- The mask step: prices, volumes and weights are rebuilt, the other two vectors are not. -/
def Round.masked (r : Round) (keep : List Bool) : Round :=
  let prices := retain keep r.validPrices
  if prices.length = r.validPrices.length then r
  else { r with
    validPrices := prices
    validVolumes := retain keep r.validVolumes
    validWeights := retain keep r.validWeights
    contributingSources := prices.length }

def EffectivePolicy.deviationMask (policy : EffectivePolicy) (prices : List Int) : List Bool :=
  if 0 < policy.maxDeviationBps then Pricing.deviationMask prices policy.maxDeviationBps else []

def maskRound (ctx : RoundContext) (r : Round) : Contract Round := do
  let outlierMask ← filterRound ctx.asset r.validPrices r.validSources
  let exclusions ← readStore fun _ st => st.getExclusions ctx.asset
  if 0 < ctx.policy.maxDeviationBps ∨ exclusions ≠ [] then
    pure (r.masked (survives outlierMask (ctx.policy.deviationMask r.validPrices)))
  else pure r

/-- The aggregate before bounds: the weighted method is superseded by fault tolerance. -/
def rawMedian (ctx : RoundContext) (r : Round) : Contract Int := do
  let tolerance ← readStore fun _ st => st.readBftFaultTolerance
  if ctx.policy.method = 4 ∧ tolerance = 0 then
    readStore fun _ st =>
      Pricing.weightedAggregate r.validPrices (Pricing.capped r.validWeights st.getCapBps)
  else aggregatePrices ctx.asset r.validPrices r.validVolumes

/-- The sanity check, made only once some relation has been declared. -/
def withheldBySanity (guards : PublicationGuards) (asset : Address) (price : Int) :
    Contract Bool :=
  if guards.anySanityRelations then checkSanity asset price else pure false

/-- Neither a blackout nor a deferral holds the publication back. -/
def readyToPublish (asset : Address) (guards : PublicationGuards) : Contract Bool := do
  let suppressed ← suppresses asset
  if suppressed then pure false else shouldPublish asset guards

/-- What a round publishes. -/
structure Decision where
  policy : EffectivePolicy
  round : Round
  price : Int

/-- The `'publish` block up to its commit: bounds and sanity lattice may withhold the price. -/
def screenPrice (ctx : RoundContext) (r : Round) : Contract (Option Decision) := do
  let raw ← rawMedian ctx r
  let published ← readStore fun _ st =>
    if ctx.guards.anyBoundsConfigured then st.applyBounds ctx.asset raw else some raw
  match published with
  | none => pure none
  | some price => do
    let blocked ← withheldBySanity ctx.guards ctx.asset price
    if blocked then pure none else pure (some ⟨ctx.policy, r, price⟩)

/-- Everything a round does before it writes the aggregate. -/
def decideRound (asset : Address) : Contract (Option Decision) := do
  let opened ← openRound asset
  match opened with
  | none => pure none
  | some ctx => do
    let collected ← collectRound ctx
    let r ← maskRound ctx collected
    let ready ← readyToPublish asset ctx.guards
    if ready = true ∧ ctx.policy.minSources ≤ r.contributingSources ∧ r.validPrices ≠ [] then
      screenPrice ctx r
    else pure none

/-- The first publication of an asset becomes revision 0. -/
def recordOriginal (asset : Address) (aggregate : AggregatePrice) : Contract Unit := do
  let recorded ← readStore fun _ st => (st.corrections.revisions asset).isSome
  let sequence ← getSequence
  let actor ← readStore fun e _ => e.host.contractAddress
  if recorded then pure ()
  else modifyCorrections fun c => { c with
    original := Function.update c.original asset (some aggregate.price)
    revisions := Function.update c.revisions asset
      (some [⟨0, aggregate.price, aggregate.timestamp, sequence, actor, "original", false⟩]) }

/-- The version counts changes of the price. -/
def nextVersion (prev : AggregatePrice) (price : Int) : UInt32 :=
  if price ≠ prev.price then satSucc prev.version else prev.version

def Store.previousAggregate (st : Store) (asset : Address) (decimals : Nat) : AggregatePrice :=
  (st.aggregate asset).getD ⟨0, 0, 0, decimals, false, 0⟩

/-- The contributors loop: sources and ledgers are read by position beside the prices. -/
def Store.contributors (st : Store) (r : Round) : List ProvenanceEntry :=
  let influence := Pricing.influenceBps (Pricing.capped r.validWeights st.getCapBps)
  (List.range r.contributingSources).map fun i =>
    ⟨r.validSources.getD i 0, r.validPrices.getD i 0, influence.getD i 0,
      r.validSubLedgers.getD i 0⟩

def Decision.aggregate (d : Decision) (prev : AggregatePrice) (decimals : Nat)
    (recompute : Bool) : AggregatePrice where
  price := d.price
  timestamp := if recompute then max d.round.latestTimestamp prev.timestamp
    else d.round.latestTimestamp
  numSources := d.round.contributingSources
  decimals := decimals
  isOverride := false
  version := nextVersion prev d.price

/-- What the round hands to provenance and history, after the aggregate is written. -/
def Store.publication (st : Store) (asset : Address) (ledger : Nat) (d : Decision)
    (aggregate : AggregatePrice) : Publication where
  price := aggregate.price
  timestamp := aggregate.timestamp
  numSources := aggregate.numSources
  reference := Pricing.computeMedian d.round.validPrices
  method := d.policy.method
  contributors := st.contributors d.round
  deferrals := List.replicate d.round.contributingSources
    (ledger - (st.rounds.lastAggregateLedger asset).getD 0)

def commitRound (asset : Address) (ledger decimals : Nat) (recompute : Bool) (d : Decision) :
    Contract Unit := do
  let prev ← readStore fun _ st => st.previousAggregate asset decimals
  let aggregate := d.aggregate prev decimals recompute
  writeAggregate asset aggregate
  let publication ← readStore fun _ st => st.publication asset ledger d aggregate
  archivePublication asset ledger publication
  markPublished asset
  recordOriginal asset aggregate

def aggregateAssetMode (asset : Address) (ledger decimals : Nat) (recompute : Bool) :
    Contract Unit := do
  let decision ← decideRound asset
  match decision with
  | none => pure ()
  | some d => commitRound asset ledger decimals recompute d

def aggregateAsset (asset : Address) (ledger decimals : Nat) : Contract Unit :=
  aggregateAssetMode asset ledger decimals false

def doAggregate (asset : Address) : Contract Unit := do
  let decimals ← readStore fun _ st => st.getDecimals
  let ledger ← getSequence
  aggregateAsset asset ledger decimals

def recomputeAsset (asset : Address) : Contract (Int × Nat) := do
  let ledger ← getSequence
  let decimals ← readStore fun _ st => st.getDecimals
  aggregateAssetMode asset ledger decimals true
  readStore fun _ st =>
    ((st.aggregate asset).map fun a => (a.price, a.numSources)).getD (0, 0)

/-- The stored submissions of `sources`, with the candidate's own price in place of `source`'s. -/
def Store.candidateEntries (st : Store) (asset source : Address) (price : Int) (timestamp : Nat)
    (sources : List Address) : List (Int × Int × Nat) :=
  sources.filterMap fun src =>
    if src = source then some (price, 0, timestamp)
    else (st.submission (asset, src)).map fun e => (e.price, e.volume.getD 0, e.timestamp)

/-- The aggregate a submission would lead to, if enough sources contribute. -/
def buildCandidateAggregate (asset source : Address) (price : Int) (timestamp decimals : Nat) :
    Contract (Option AggregatePrice) := do
  let policy ← effectivePolicy asset
  let entries ← readStore fun e st =>
    st.candidateEntries asset source price timestamp (st.selectSources (wrap32 e.sequence))
  if policy.minSources ≤ entries.length ∧ entries ≠ [] then do
    let aggregated ← aggregatePrices asset (entries.map Prod.fst) (entries.map fun x => x.2.1)
    let latest := (entries.map fun x => x.2.2).foldl max 0
    pure (some ⟨aggregated, latest, entries.length, decimals, false, 0⟩)
  else pure none

def Store.countContributingSources (env : Env) (st : Store) (asset : Address) : Nat :=
  ((st.selectSources (wrap32 env.sequence)).filter fun src =>
    st.compliant env (st.minIntervalFor asset) asset src && !st.isCorrelationFlagged asset src &&
      (st.submission (asset, src)).isSome).length

def maybeAggregateAfterSubmission (asset : Address) : Contract Bool := do
  let policy ← effectivePolicy asset
  let contributing ← readStore fun e st => st.countContributingSources e asset
  pure (policy.minSources ≤ contributing)

/-- The submissions `trigger_aggregation` replays: the interval of the contract, no other rule. -/
def Store.triggerEntries (env : Env) (st : Store) (asset : Address) : List PriceEntry :=
  (st.registry.sources.filter fun src =>
    st.compliant env st.getMinSubmissionInterval asset src).filterMap fun src =>
      st.submission (asset, src)

def triggerAggregation (asset : Address) : Contract Unit := do
  checkRegisteredAsset asset
  let ledger ← getSequence
  let cooling ← readStore fun _ st => (st.rounds.lastAggregationTrigger asset).any fun last =>
    ledger - last < st.getAggregationCooldown
  ensure (cooling = false) .invalidConfiguration
  let policy ← effectivePolicy asset
  let decimals ← readStore fun _ st => st.getDecimals
  let entries ← readStore fun e st => st.triggerEntries e asset
  ensure (policy.minSources ≤ entries.length ∧ entries ≠ []) .insufficientSources
  let price ← aggregatePrices asset (entries.map PriceEntry.price)
    (entries.map fun e => e.volume.getD 0)
  writeAggregate asset
    ⟨price, (entries.map PriceEntry.timestamp).foldl max 0, entries.length, decimals, false, 0⟩
  modifyRounds fun r => { r with
    lastAggregationTrigger := Function.update r.lastAggregationTrigger asset (some ledger) }

namespace Store

variable (st : Store) (asset : Address)

def submissionThresholdTrigger : Nat :=
  if st.on .triggers then (st.config.triggerSubmissionThreshold asset).getD 0 else 0

def deviationTrigger : Nat :=
  if st.on .triggers then (st.config.triggerDeviationBps asset).getD 0 else 0

/-- Whether the deviation trigger fires at `price`. -/
def deviates (price : Int) : Bool :=
  0 < st.deviationTrigger asset ∧ (st.aggregate asset).any fun agg =>
    0 < agg.price ∧
      let diff := if agg.price < price then wrapSub price agg.price else wrapSub agg.price price
      (st.deviationTrigger asset : Int) ≤ (satMul diff 10000).tdiv agg.price

def triggerCount : Nat := (st.rounds.triggerSubmissionCount asset).getD 0

end Store

def setTriggerCount (asset : Address) (count : Nat) : Contract Unit :=
  modifyRounds fun r => { r with
    triggerSubmissionCount := Function.update r.triggerSubmissionCount asset (some count) }

def setLastAggTime (asset : Address) (now : Nat) : Contract Unit :=
  modifyRounds fun r => { r with
    triggerLastAggTime := Function.update r.triggerLastAggTime asset (some now) }

/-- The aggregation a fired trigger runs, once its counters are reset. -/
def fireTrigger (asset : Address) : Contract Unit := do
  let now ← getTimestamp
  setTriggerCount asset 0
  setLastAggTime asset now
  doAggregate asset

def recordSubmissionForTriggers (asset : Address) (price : Int) : Contract Unit := do
  let threshold ← readStore fun _ st => st.submissionThresholdTrigger asset
  let deviates ← readStore fun _ st => st.deviates asset price
  let count ← readStore fun _ st => satAdd32 (st.triggerCount asset) 1
  if deviates then fireTrigger asset
  else if 0 < threshold then
    if threshold ≤ count then fireTrigger asset else setTriggerCount asset count
  else pure ()

def pokeTimeTrigger (asset : Address) : Contract Bool := do
  checkRegisteredAsset asset
  let interval ← readStore fun _ st => (st.config.triggerTimeInterval asset).getD 0
  let now ← getTimestamp
  let last ← readStore fun _ st => (st.rounds.triggerLastAggTime asset).getD 0
  if interval = 0 ∨ now - last < interval then pure false
  else do
    fireTrigger asset
    pure true

/-- Assets re-aggregated inside one recomputation. -/
def inlineRecomputeAssets : Nat := 2

/-- Recomputes the assets that have an aggregate, the first `left` of them. -/
def recomputeLoop : Nat → List Address → Contract Unit
  | _, [] => pure ()
  | 0, _ => pure ()
  | left + 1, asset :: rest => do
    let published ← readStore fun _ st => (st.aggregate asset).isSome
    if published then do
      let _ ← recomputeAsset asset
      recomputeLoop left rest
    else recomputeLoop (left + 1) rest

def recomputeBounded (assets : List Address) : Contract Unit := do
  let ledger ← getSequence
  modifyRounds fun r => { r with lastForcedRecompute := some ledger }
  recomputeLoop inlineRecomputeAssets assets

end PriceOracle.Model

/-! ## Sampling the sources

`vdf_sampler.rs` draws sources by a partial Fisher-Yates shuffle of their positions. -/

namespace PriceOracle.Model

open Lib.MachineInt Lib.Shuffle

/-- The loop variables of the shuffle. -/
structure Draw where
  indices : List Nat
  result : List Address
  currentRand : Bytes

/-- One iteration of the loop, with the cast that positions go through. -/
def drawStep (cast : Nat → Nat) (host : Host) (sources : List Address) (d : Draw) (i : Nat) :
    Draw :=
  let hashBytes := host.sha256 d.currentRand
  let randU32 := ofBeBytes (hashBytes.take 4)
  let remaining := cast (sources.length - i)
  let j := wrap32 (cast i + randU32 % remaining)
  let indices := exchange d.indices (cast i) j
  let selectedIdx := indices.getD (cast i) 0
  ⟨indices, d.result ++ [sources.getD selectedIdx 0], hashBytes⟩

def drawSources (cast : Nat → Nat) (host : Host) (sources : List Address) (n : Nat)
    (randomness : Bytes) : List Address :=
  let total := sources.length
  if n = 0 ∨ total = 0 then []
  else
    let pick := min n total
    ((List.range pick).foldl (drawStep cast host sources)
      ⟨(List.range total).map cast, [], randomness⟩).result

def selectSourcesDeterministic (host : Host) (sources : List Address) (n : Nat)
    (randomness : Bytes) : List Address :=
  drawSources id host sources n randomness

/-- `select_sources_from_randomness`: the positions of the slice are cast to 32 bits. -/
def selectSourcesFromRandomness (host : Host) (sources : List Address) (n : Nat)
    (randomness : Bytes) : List Address :=
  drawSources wrap32 host sources n randomness

end PriceOracle.Model
