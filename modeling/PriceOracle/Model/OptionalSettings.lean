import PriceOracle.Model.StorageTier

/-! # Optional settings

The settings that own a feature bit, beyond those of the configuration history. A setter marks the
bit and then writes the key; removing a key leaves the bit as it is. -/

namespace PriceOracle.Model

open Lib.Transaction

namespace Store

variable (st : Store)

/-- `explanation::get_retention`. -/
def getRetention : Nat :=
  if st.on .anomalyRetention then st.config.anomalyRetention.getD 16 else 16

def getScoringWindow : Nat :=
  if st.on .contribScoringWindow then st.config.contribScoringWindow.getD 10 else 10

/-- `source_comparison::is_enabled`. -/
def comparisonEnabled (asset : Address) : Bool :=
  st.on .sourceComparison && st.config.sourceComparison asset

/-- The registrations `invoke_price_callbacks` calls. -/
def invokedCallbacks (asset : Address) : List CallbackRegistration :=
  if st.on .priceCallback then (st.config.priceCallbacks asset).getD [] else []

end Store

/-- The keys behind the feature bits, with the value that is written. Under a policy, a class or an
outlier filter, `none` removes the key. -/
inductive OptionalKey
  | influenceCap (capBps : Nat)
  | anomalyRetention (retention : Nat)
  | bft (faultTolerance method : Nat)
  | compactionThreshold (thresholdBps : Nat)
  | pauseFlag
  | commitReveal (enabled : Bool)
  | contribScoringWindow (window : Nat)
  | correlationPair (baseAsset quoteAsset : Address) (band : CorrelationBand)
  | defaultFreshnessWindow (secs : Option Nat)
  | assetFreshnessWindow (asset : Address) (secs : Option Nat)
  | riskTier (asset : Address) (tier : Nat)
  | riskTierEnforcement
  | sourceBond (amount : Int)
  | assetPolicy (asset : Address) (policy : Option PolicyOverride)
  | assetClass (asset : Address) (classId : Option Nat)
  | assetDeferral (asset : Address) (policy : DeferralPolicy)
  | assetDisabled (asset : Address)
  | storageTier (asset : Address) (tier : HistoryStorageTier)
  | anyProbation
  | dqConfig (asset : Address) (cfg : DqConfig)
  | sourceComparison (asset : Address)
  | freshnessCurve (asset : Address) (curve : FreshnessCurve)
  | frozenPrice (asset : Address) (frozen : FrozenPrice)
  | outlierConfig (asset : Address) (config : Option OutlierConfig)
  | priceCallbacks (asset : Address) (registrations : List CallbackRegistration)
  | submissionThreshold (asset : Address) (threshold : Nat)
  | deviationBps (asset : Address) (deviationBps : Nat)
  | blackoutWindow (asset : Address) (window : BlackoutWindow)
  | sourceAssets (source : Address) (assets : List Address)
  | sourceDemerits (source : Address) (state : SourceDemeritState)
  | sourceInactive (source : Address)

namespace OptionalKey

def flag : OptionalKey → FeatureFlag
  | influenceCap _ => .influenceCap
  | anomalyRetention _ => .anomalyRetention
  | bft _ _ => .bft
  | compactionThreshold _ => .compactionThreshold
  | pauseFlag => .pause
  | commitReveal _ => .commitReveal
  | contribScoringWindow _ => .contribScoringWindow
  | correlationPair _ _ _ => .correlation
  | defaultFreshnessWindow _ => .freshnessWindow
  | assetFreshnessWindow _ _ => .freshnessWindow
  | riskTier _ _ => .riskTier
  | riskTierEnforcement => .riskTier
  | sourceBond _ => .sourceBond
  | assetPolicy _ _ => .assetPolicy
  | assetClass _ _ => .assetPolicy
  | assetDeferral _ _ => .assetDeferral
  | assetDisabled _ => .assetDisabled
  | storageTier _ _ => .storageTier
  | anyProbation => .sourceLifecycle
  | dqConfig _ _ => .dqPipeline
  | sourceComparison _ => .sourceComparison
  | freshnessCurve _ _ => .freshnessCurve
  | frozenPrice _ _ => .freeze
  | outlierConfig _ _ => .outlierFilter
  | priceCallbacks _ _ => .priceCallback
  | submissionThreshold _ _ => .triggers
  | deviationBps _ _ => .triggers
  | blackoutWindow _ _ => .blackout
  | sourceAssets _ _ => .sourceAssets
  | sourceDemerits _ _ => .sourceDemerits
  | sourceInactive _ => .sourceInactive

/-- The settings of the configuration after the write. -/
def configWrite (c : Config) : OptionalKey → Config
  | influenceCap capBps => { c with influenceCapBps := some capBps }
  | anomalyRetention retention => { c with anomalyRetention := some retention }
  | bft faultTolerance method =>
    { c with bftFaultTolerance := some faultTolerance, bftAggregationMethod := some method }
  | compactionThreshold thresholdBps => { c with compactionThresholdBps := some thresholdBps }
  | commitReveal enabled => { c with commitRevealEnabled := some enabled }
  | contribScoringWindow window => { c with contribScoringWindow := some window }
  | correlationPair baseAsset quoteAsset band =>
    { c with
      correlationBand := Function.update c.correlationBand (baseAsset, quoteAsset) (some band)
      correlationPairs := if (c.correlationBand (baseAsset, quoteAsset)).isNone then
          c.correlationPairs ++ [⟨baseAsset, quoteAsset⟩]
        else c.correlationPairs }
  | defaultFreshnessWindow secs => { c with defaultFreshnessWindow := secs }
  | assetFreshnessWindow asset secs =>
    { c with assetFreshnessWindow := Function.update c.assetFreshnessWindow asset secs }
  | riskTier asset tier => { c with assetRiskTier := Function.update c.assetRiskTier asset (some tier) }
  | riskTierEnforcement => { c with riskTierEnforcement := some true }
  | sourceBond amount => { c with sourceBondAmount := some amount }
  | assetPolicy asset policy => { c with assetPolicy := Function.update c.assetPolicy asset policy }
  | assetClass asset classId =>
    { c with assetClassId := Function.update c.assetClassId asset classId }
  | assetDeferral asset policy =>
    { c with assetDeferral := Function.update c.assetDeferral asset (some policy) }
  | storageTier asset tier =>
    { c with assetStorageTier := Function.update c.assetStorageTier asset (some tier) }
  | anyProbation => { c with anyProbation := true }
  | dqConfig asset cfg => { c with dqConfig := Function.update c.dqConfig asset (some cfg) }
  | sourceComparison asset =>
    { c with sourceComparison := Function.update c.sourceComparison asset true }
  | freshnessCurve asset curve =>
    { c with freshnessCurve := Function.update c.freshnessCurve asset (some curve) }
  | outlierConfig asset config =>
    { c with outlierConfig := Function.update c.outlierConfig asset config }
  | priceCallbacks asset registrations =>
    { c with priceCallbacks := Function.update c.priceCallbacks asset (some registrations) }
  | submissionThreshold asset threshold =>
    { c with
      triggerSubmissionThreshold :=
        Function.update c.triggerSubmissionThreshold asset (some threshold) }
  | deviationBps asset bps =>
    { c with triggerDeviationBps := Function.update c.triggerDeviationBps asset (some bps) }
  | sourceInactive source =>
    { c with sourceInactive := Function.update c.sourceInactive source (some true) }
  | _ => c

/-- The gates after the write. -/
def gatesWrite (g : Gates) : OptionalKey → Gates
  | pauseFlag => { g with pauseFlag := some true }
  | assetDisabled asset =>
    { g with assetDisabled := Function.update g.assetDisabled asset (some true) }
  | frozenPrice asset frozen => { g with frozen := Function.update g.frozen asset (some frozen) }
  | sourceAssets source assets =>
    { g with sourceAssets := Function.update g.sourceAssets source (some assets) }
  | _ => g

/-- Demerits and blackout windows are kept beside the settings. -/
def write (st : Store) : OptionalKey → Store
  | sourceDemerits source state =>
    { st with demerits := Function.update st.demerits source (some state) }
  | blackoutWindow asset window =>
    { st with rounds := { st.rounds with
      blackoutWindow := Function.update st.rounds.blackoutWindow asset (some window) } }
  | key => { st with config := key.configWrite st.config, gates := key.gatesWrite st.gates }

end OptionalKey

/-- What a setter does once its arguments are accepted. -/
def setOptional (key : OptionalKey) : Contract Unit := do
  mark key.flag
  update fun w => { w with store := key.write w.store }

/-- `influence_cap::set_cap_bps`. -/
def setCapBps (capBps : Nat) : Contract Unit := asAdmin do
  ensure (1000 ≤ capBps ∧ capBps ≤ 10000) .invalidConfiguration
  setOptional (.influenceCap capBps)

/-- `explanation::set_retention`. -/
def setRetention (retention : Nat) : Contract Unit := asAdmin do
  ensure (retention ≠ 0 ∧ retention ≤ 64) .invalidConfiguration
  setOptional (.anomalyRetention retention)

def setBftParameters (faultTolerance method : Nat) : Contract Unit := asAdmin do
  ensure (method ≤ 2) .invalidConfiguration
  setOptional (.bft faultTolerance method)

def setCommitRevealEnabled (enabled : Bool) : Contract Unit := asAdmin do
  setOptional (.commitReveal enabled)

def setScoringWindow (window : Nat) : Contract Unit := asAdmin do
  ensure (2 ≤ window ∧ window ≤ 200) .invalidConfiguration
  setOptional (.contribScoringWindow window)

def setCorrelationPair (baseAsset quoteAsset : Address) (minRatio maxRatio : Nat)
    (enabled : Bool) : Contract Unit := asAdmin do
  ensure (minRatio < maxRatio) .invalidConfiguration
  setOptional (.correlationPair baseAsset quoteAsset ⟨minRatio, maxRatio, enabled⟩)

/-- `note_freshness_window`. -/
def noteFreshnessWindow : Contract Unit := updateGuards fun g => { g with anyFreshnessWindow := true }

/-- `freshness_quorum::set_default_window`; zero removes the window. -/
def setDefaultWindow (secs : Nat) : Contract Unit := asAdmin do
  ensure (secs ≤ 604800) .invalidFreshnessWindow
  setOptional (.defaultFreshnessWindow (if secs = 0 then none else some secs))
  noteFreshnessWindow

/-- `freshness_quorum::set_asset_window`. -/
def setAssetWindow (asset : Address) (secs : Nat) : Contract Unit := asAdmin do
  checkRegisteredAsset asset
  ensure (secs ≤ 604800) .invalidFreshnessWindow
  setOptional (.assetFreshnessWindow asset (if secs = 0 then none else some secs))
  noteFreshnessWindow

/-- `risk_tier::set_tier` to one of the four tiers. -/
def setTier (asset : Address) (tier : Fin 4) (reason : String) : Contract Unit := asAdmin do
  checkRegisteredAsset asset
  ensure (reason.utf8ByteSize ≤ 256) .invalidConfiguration
  setOptional (.riskTier asset tier)
  updateGuards fun g => { g with anyTierAssigned := true }
  if (tierParams tier).any fun p => 0 < p.freshnessSecs then noteFreshnessWindow else pure ()

/-- `risk_tier::set_enforcement` when it is turned on. -/
def enforceTiers : Contract Unit := asAdmin do
  let allTiered ← readStore fun _ st =>
    st.registry.assets.all fun a => (st.getTierParams a).isSome
  ensure (allTiered = true) .invalidRiskTier
  setOptional .riskTierEnforcement

def setSourceBond (amount : Int) : Contract Unit := asAdmin do
  setOptional (.sourceBond amount)

/-- `policy::validate`. -/
def PolicyOverride.valid (p : PolicyOverride) : Bool :=
  (p.method.all fun m => m ≤ 4) && (p.minSources.all fun q => 1 ≤ q && q ≤ 100000) &&
    (p.freshnessSecs.all fun f => 1 ≤ f && f ≤ 604800) &&
    p.maxDeviationBps.all fun d => 1 ≤ d && d ≤ 10000

def setAssetPolicy (asset : Address) (policy : Option PolicyOverride) : Contract Unit := asAdmin do
  checkRegisteredAsset asset
  ensure (policy.all PolicyOverride.valid = true) .invalidConfiguration
  setOptional (.assetPolicy asset policy)

/-- No bit is marked: a class policy is only read through the class of an asset. -/
def setClassPolicy (classId : Nat) (policy : Option PolicyOverride) : Contract Unit := asAdmin do
  ensure (policy.all PolicyOverride.valid = true) .invalidConfiguration
  modifyConfig fun c => { c with classPolicy := Function.update c.classPolicy classId policy }

def setAssetClass (asset : Address) (classId : Option Nat) : Contract Unit := asAdmin do
  checkRegisteredAsset asset
  setOptional (.assetClass asset classId)

/-- `deferral::validate`. -/
def DeferralPolicy.Valid (p : DeferralPolicy) : Prop :=
  (p.quorum ≠ 0 ∧ p.quorum ≤ 64) ∧ (p.windowSecs ≠ 0 ∧ p.windowSecs ≤ 86400) ∧
    p.windowSecs ≤ p.maxDeferSecs ∧ p.maxDeferSecs ≤ 604800

deriving instance Decidable for DeferralPolicy.Valid

/-- `deferral::set_policy`. -/
def setDeferralPolicy (asset : Address) (policy : DeferralPolicy) : Contract Unit := asAdmin do
  checkRegisteredAsset asset
  ensure policy.Valid .invalidDeferralPolicy
  setOptional (.assetDeferral asset policy)
  updateGuards fun g => { g with anyDeferralConfigured := true }

def disableAsset (asset : Address) : Contract Unit := asAdmin do
  checkRegisteredAsset asset
  setOptional (.assetDisabled asset)

/-- What `dq_pipeline::set_config` refuses. -/
def DqConfig.Invalid (cfg : DqConfig) : Prop :=
  cfg.minPrice < 0 ∨ (cfg.maxPrice ≠ 0 ∧ cfg.maxPrice < cfg.minPrice) ∨ 10000 < cfg.maxStepBps ∨
    10000 < cfg.maxDriftBps ∨ (0 < cfg.maxDriftBps ∧ cfg.driftWindowSecs = 0) ∨
    (0 < cfg.maxDriftBps ∧ cfg.maxDriftBps < cfg.maxStepBps)

deriving instance Decidable for DqConfig.Invalid

def removeDqAnchor (asset : Address) : Contract Unit :=
  modifyRounds fun r => { r with dqAnchor := Function.update r.dqAnchor asset none }

/-- `dq_pipeline::set_config`. -/
def setDqConfig (asset : Address) (cfg : DqConfig) : Contract Unit := asAdmin do
  checkRegisteredAsset asset
  ensure (¬cfg.Invalid) .invalidConfiguration
  setOptional (.dqConfig asset cfg)
  removeDqAnchor asset

/-- `source_comparison::set_enabled` when it is turned on. -/
def enableComparison (asset : Address) : Contract Unit := asAdmin do
  checkRegisteredAsset asset
  setOptional (.sourceComparison asset)

/-- `freshness_weight::set_curve`; the bounds it checks are those of a curve. -/
def setCurve (asset : Address) (windowSecs minWeight : Nat) : Contract Unit := asAdmin do
  ensure (windowSecs ≤ 86400 ∧ minWeight ≠ 0) .invalidConfiguration
  if h : 0 < windowSecs ∧ minWeight ≤ 1000 then
    setOptional (.freshnessCurve asset ⟨windowSecs, minWeight, h.1, h.2⟩)
  else abort .invalidConfiguration

/-- The published price that a freeze keeps. -/
def AggregatePrice.freeze (a : AggregatePrice) (reason : String) (ledger : Nat) : FrozenPrice :=
  ⟨a.price, a.timestamp, a.decimals, reason, ledger⟩

def freezePrice (asset : Address) (reason : String) : Contract Unit := asAdmin do
  checkRegisteredAsset asset
  ensure (reason.utf8ByteSize ≤ 256) .reasonTooLong
  let frozen ← readStore fun _ st => (st.gates.frozen asset).isSome
  ensure (frozen = false) .priceFrozen
  let aggregate ← consult fun w => match w.store.aggregate asset with
    | some a => .ok a
    | none => .error .noData
  let sequence ← getSequence
  setOptional (.frozenPrice asset (aggregate.freeze reason sequence))

/-- `outlier_filter::set_config` refuses what is not valid. -/
def OutlierConfig.valid (c : OutlierConfig) : Bool :=
  c.detector ≤ 2 && c.sensitivityBps ≤ 1000000 && 4 ≤ c.minSources && c.minSources ≤ 64

/-- `outlier_filter::set_config`. -/
def setOutlierConfig (asset : Address) (config : Option OutlierConfig) : Contract Unit :=
  asAdmin do
    checkRegisteredAsset asset
    ensure (config.all OutlierConfig.valid = true) .invalidConfiguration
    setOptional (.outlierConfig asset config)

def maxCallbacksPerAsset : Nat := 10

/-- The registrations of an asset with that of a consumer added or, in its place, replaced. -/
def withRegistration (registrations : List CallbackRegistration) (r : CallbackRegistration) :
    List CallbackRegistration :=
  match registrations.findIdx? fun x => x.consumer = r.consumer with
  | some i => registrations.set i r
  | none => registrations ++ [r]

/-- The bit is marked before the capacity is checked; a panic undoes the mark. -/
def registerPriceCallback (consumer asset callbackContract : Address) (method : String) :
    Contract Unit := do
  requireAuth consumer
  checkRegisteredAsset asset
  mark .priceCallback
  let registrations ← readStore fun _ st => (st.config.priceCallbacks asset).getD []
  ensure ((registrations.any fun x => x.consumer = consumer) = true ∨
    registrations.length < maxCallbacksPerAsset) .tooManyCallbacks
  setOptional (.priceCallbacks asset
    (withRegistration registrations ⟨consumer, callbackContract, method, true⟩))

def setSubmissionThresholdTrigger (asset : Address) (threshold : Nat) : Contract Unit :=
  asAdmin do
    checkRegisteredAsset asset
    setOptional (.submissionThreshold asset threshold)

def setDeviationTrigger (asset : Address) (deviationBps : Nat) : Contract Unit := asAdmin do
  checkRegisteredAsset asset
  ensure (deviationBps ≤ 100000) .invalidConfiguration
  setOptional (.deviationBps asset deviationBps)

/-- `add_source_with_assets`, once the source is registered. -/
def grantSourceAssets (source : Address) (assets : List Address) : Contract Unit := asAdmin do
  forM assets checkRegisteredAsset
  setOptional (.sourceAssets source assets)

def checkIsSource (source : Address) : Contract Unit := do
  let active ← readStore fun _ st => (st.registry.srcActive source).getD false
  ensure (active = true) .sourceNotFound

def addSourceAsset (source asset : Address) : Contract Unit := asAdmin do
  checkIsSource source
  checkRegisteredAsset asset
  let assets ← readStore fun _ st => (st.gates.sourceAssets source).getD []
  if asset ∈ assets then pure () else setOptional (.sourceAssets source (assets ++ [asset]))

def resetSourceDemerits (source : Address) : Contract Unit := asAdmin do
  let listed ← readStore fun _ st => (st.registry.srcActive source).isSome
  ensure (listed = true) .sourceNotFound
  let sequence ← getSequence
  setOptional (.sourceDemerits source ⟨0, .active, sequence⟩)

/-- Turns every bit on, for settings written before there were bits. -/
def enableAllFeatureFlags : Contract Unit := asAdmin do
  update fun w => { w with store := { w.store with flags := fun _ => true } }

/-- The keys that are removed, or set back, without a mark. -/
inductive RemovedKey
  | pauseFlag
  | correlationPair (baseAsset quoteAsset : Address)
  | correlationFlag (source asset : Address)
  | riskTier (asset : Address)
  | riskTierEnforcement
  | assetDeferral (asset : Address)
  | assetDisabled (asset : Address)
  | dqConfig (asset : Address)
  | sourceComparison (asset : Address)
  | frozenPrice (asset : Address)
  | priceCallback (asset consumer : Address)
  | blackoutWindow (asset : Address)
  | sourceAssets (source : Address)
  | sourceInactive (source : Address)

/-- The storage once the key is removed; the pause flag is stored as false, and one registration
leaves the list it is in. -/
def RemovedKey.write (st : Store) : RemovedKey → Store
  | pauseFlag => { st with gates := { st.gates with pauseFlag := some false } }
  | correlationPair baseAsset quoteAsset =>
    { st with config := { st.config with
      correlationBand := Function.update st.config.correlationBand (baseAsset, quoteAsset) none
      correlationPairs := st.config.correlationPairs.filter fun p =>
        p.baseAsset ≠ baseAsset ∨ p.quoteAsset ≠ quoteAsset } }
  | correlationFlag source asset =>
    { st with stats := { st.stats with
      correlationFlagged := Function.update st.stats.correlationFlagged (source, asset) false } }
  | riskTier asset =>
    { st with config := { st.config with
      assetRiskTier := Function.update st.config.assetRiskTier asset none } }
  | riskTierEnforcement => { st with config := { st.config with riskTierEnforcement := none } }
  | assetDeferral asset =>
    { st with config := { st.config with
      assetDeferral := Function.update st.config.assetDeferral asset none } }
  | assetDisabled asset =>
    { st with gates := { st.gates with
      assetDisabled := Function.update st.gates.assetDisabled asset none } }
  | dqConfig asset =>
    { st with config := { st.config with dqConfig := Function.update st.config.dqConfig asset none } }
  | sourceComparison asset =>
    { st with config := { st.config with
      sourceComparison := Function.update st.config.sourceComparison asset false } }
  | frozenPrice asset =>
    { st with gates := { st.gates with frozen := Function.update st.gates.frozen asset none } }
  | priceCallback asset consumer =>
    { st with config := { st.config with
      priceCallbacks := Function.update st.config.priceCallbacks asset
        (some (((st.config.priceCallbacks asset).getD []).eraseP fun x => x.consumer = consumer)) } }
  | blackoutWindow asset =>
    { st with rounds := { st.rounds with
      blackoutWindow := Function.update st.rounds.blackoutWindow asset none } }
  | sourceAssets source =>
    { st with gates := { st.gates with
      sourceAssets := Function.update st.gates.sourceAssets source none } }
  | sourceInactive source =>
    { st with config := { st.config with
      sourceInactive := Function.update st.config.sourceInactive source none } }

def removeOptional (key : RemovedKey) : Contract Unit :=
  update fun w => { w with store := key.write w.store }

def removeCorrelationPair (baseAsset quoteAsset : Address) : Contract Unit := asAdmin do
  removeOptional (.correlationPair baseAsset quoteAsset)

def clearCorrelationFlag (source asset : Address) : Contract Unit := asAdmin do
  removeOptional (.correlationFlag source asset)

/-- `risk_tier::set_tier` to no tier. -/
def clearTier (asset : Address) (reason : String) : Contract Unit := asAdmin do
  checkRegisteredAsset asset
  ensure (reason.utf8ByteSize ≤ 256) .invalidConfiguration
  removeOptional (.riskTier asset)

/-- `risk_tier::set_enforcement` when it is turned off. -/
def stopEnforcingTiers : Contract Unit := asAdmin do
  removeOptional .riskTierEnforcement

/-- `deferral::clear_policy`. -/
def clearDeferralPolicy (asset : Address) : Contract Unit := asAdmin do
  checkRegisteredAsset asset
  removeOptional (.assetDeferral asset)

def enableAsset (asset : Address) : Contract Unit := asAdmin do
  checkRegisteredAsset asset
  removeOptional (.assetDisabled asset)

/-- `dq_pipeline::clear_config`. -/
def clearDqConfig (asset : Address) : Contract Unit := asAdmin do
  removeOptional (.dqConfig asset)
  removeDqAnchor asset

/-- `source_comparison::set_enabled` when it is turned off. -/
def disableComparison (asset : Address) : Contract Unit := asAdmin do
  checkRegisteredAsset asset
  removeOptional (.sourceComparison asset)

def unfreezePrice (asset : Address) : Contract Unit := asAdmin do
  let frozen ← readStore fun _ st => (st.gates.frozen asset).isSome
  ensure (frozen = true) .priceNotFrozen
  removeOptional (.frozenPrice asset)

def unregisterPriceCallback (consumer asset : Address) : Contract Unit := do
  requireAuth consumer
  checkRegisteredAsset asset
  let registrations ← readStore fun _ st => (st.config.priceCallbacks asset).getD []
  ensure ((registrations.any fun x => x.consumer = consumer) = true) .callbackNotFound
  removeOptional (.priceCallback asset consumer)

/-- `storage::mark_source_active`. -/
def markSourceActive (source : Address) : Contract Unit := do
  let enabled ← readStore fun _ st => st.on .sourceInactive
  if enabled then removeOptional (.sourceInactive source) else pure ()

/-- `rotate_source_key` moves the assets of a source to its new address. -/
def moveSourceAssets (source newAddress : Address) : Contract Unit :=
  update fun w => match w.store.gates.sourceAssets source with
    | some assets =>
      { w with store := { w.store with gates := { w.store.gates with
        sourceAssets := Function.update (Function.update w.store.gates.sourceAssets source none)
          newAddress (some assets) } } }
    | none => w

/-- The remaining list is written whether or not the asset was in it, and no bit is marked. The
recomputation of an asset that was removed is left out. -/
def removeSourceAsset (source asset : Address) : Contract Unit := asAdmin do
  checkIsSource source
  let assets ← readStore fun _ st => (st.gates.sourceAssets source).getD []
  modifyGates fun g => { g with
    sourceAssets := Function.update g.sourceAssets source
      (some (assets.filter fun a => a ≠ asset)) }
  if asset ∈ assets then
    update fun w => { w with store := { w.store with
      submission := Function.update w.store.submission (asset, source) none } }
  else pure ()

end PriceOracle.Model
