import PriceOracle.Model.Settings

/-! # Configuration history

The captured settings, their setters, and the ring of snapshots taken before each change. A
snapshot is captured through the getters and restored through the stored keys. -/

namespace PriceOracle.Model

open Lib.Transaction Lib.MachineInt

def maxConfigHistory : Nat := 100

namespace Store

variable (st : Store)

def getResolution : Nat := st.config.resolution.getD 0

def getDescription : String := st.config.description.getD "Stellar Price Oracle"

def getMaxPriceDeviation : Nat := st.config.maxPriceDeviation.getD 500

def getCircuitBreakerThreshold : Nat := st.config.circuitBreakerThreshold.getD 0

def getHeartbeatInterval : Nat := st.config.heartbeatInterval.getD 3600

def getInterpolationEnabled : Bool := st.config.interpolationEnabled.getD true

def getMaxSources : Nat := st.config.maxSources.getD 0

def getQueryRateLimit : Nat := st.config.queryRateLimit.getD 100

def getMaxAssets : Nat := st.config.maxAssets.getD 100

def getTimelockDuration : Nat := st.config.timelockDuration.getD 10

/-- What `capture_current` records once `get_min_sources_required` has returned `minSources`. -/
def capture (env : Env) (version minSources : Nat) : ConfigSnapshot where
  version := version
  ledger := env.sequence
  timestamp := env.timestamp
  minSourcesRequired := minSources
  maxHistoryLength := st.getMaxHistoryLength
  resolution := st.getResolution
  decimals := st.getDecimals
  description := st.getDescription
  aggregationMethod := st.getAggregationMethod
  timestampThreshold := st.getTimestampThreshold
  maxPriceDeviation := st.getMaxPriceDeviation
  circuitBreakerThreshold := st.getCircuitBreakerThreshold
  heartbeatInterval := st.getHeartbeatInterval
  maxHistoryPerAsset := st.getMaxHistoryPerAsset
  maxEventsPerCall := st.getMaxEventsPerCall
  maxAggregationSources := st.getMaxAggregationSources
  aggregationCooldown := st.getAggregationCooldown
  minSubmissionInterval := st.getMinSubmissionInterval
  interpolationEnabled := st.getInterpolationEnabled
  maxSources := st.getMaxSources
  queryRateLimit := st.getQueryRateLimit
  maxAssets := st.getMaxAssets
  paused := st.isPaused
  timelockDuration := st.getTimelockDuration

end Store

namespace Config

/-- The loop that drops the oldest versions while the index is over its limit. -/
def evict (c : Config) : List Nat → Config
  | [] => { c with versionIndex := [] }
  | old :: rest =>
    if maxConfigHistory < (old :: rest).length then
      evict { c with snapshot := Function.update c.snapshot old none } rest
    else { c with versionIndex := old :: rest }

def storeSnapshot (c : Config) (s : ConfigSnapshot) : Config :=
  evict { c with
    snapshot := Function.update c.snapshot s.version (some s)
    versionCount := some s.version } (c.versionIndex ++ [s.version])

/-- The version the next snapshot is given. -/
def nextVersion (c : Config) : Nat := wrap32 (c.versionCount.getD 0 + 1)

/-- `apply_snapshot`, but for the pause flag and the feature bits. -/
def applySnapshot (c : Config) (s : ConfigSnapshot) : Config :=
  { c with
    minSources := some s.minSourcesRequired
    maxHistory := some s.maxHistoryLength
    resolution := some s.resolution
    decimals := some s.decimals
    description := some s.description
    aggregationMethod := some s.aggregationMethod
    timestampThreshold := some s.timestampThreshold
    maxPriceDeviation := some s.maxPriceDeviation
    circuitBreakerThreshold := some s.circuitBreakerThreshold
    heartbeatInterval := some s.heartbeatInterval
    maxHistoryPerAsset := some s.maxHistoryPerAsset
    maxEventsPerCall := some s.maxEventsPerCall
    maxAggregationSources := some s.maxAggregationSources
    aggregationCooldown := some s.aggregationCooldown
    minSubmissionInterval := some s.minSubmissionInterval
    interpolationEnabled := some s.interpolationEnabled
    maxSources := some s.maxSources
    queryRateLimit := some s.queryRateLimit
    maxAssets := some s.maxAssets
    timelockDuration := some s.timelockDuration }

end Config

def captureCurrent (version : Nat) : Contract ConfigSnapshot := do
  let minSources ← getMinSourcesRequired
  readStore fun e st => st.capture e version minSources

def snapshotBeforeChange : Contract Unit := do
  let version ← readStore fun _ st => st.config.nextVersion
  let snapshot ← captureCurrent version
  modifyConfig fun c => c.storeSnapshot snapshot

/-- What every setter of a captured setting does once its argument is accepted. -/
def configure (flags : List FeatureFlag) (write : Config → Config) : Contract Unit := do
  snapshotBeforeChange
  forM flags mark
  modifyConfig write

def maxMinSources : Nat := 100000

def maxMaxHistory : Nat := 1000000

def maxResolution : Nat := 1000000

def maxDecimals : Nat := 18

def maxTimestampThreshold : Nat := 86400

def maxHeartbeatInterval : Nat := 31536000

def maxDescriptionLength : Nat := 256

def setMinSourcesRequired (newMin : Nat) : Contract Unit := asAdmin do
  ensure (newMin ≠ 0 ∧ newMin ≤ maxMinSources) .invalidConfiguration
  let count ← readStore fun _ st => st.registry.sources.length
  ensure (0 < count → newMin ≤ count) .invalidConfiguration
  configure [] fun c => { c with minSources := some newMin }

def setMaxHistoryLength (newMax : Nat) : Contract Unit := asAdmin do
  ensure (newMax ≠ 0 ∧ newMax ≤ maxMaxHistory) .invalidConfiguration
  configure [] fun c => { c with maxHistory := some newMax }

def setResolution (newResolution : Nat) : Contract Unit := asAdmin do
  ensure (newResolution ≤ maxResolution) .invalidConfiguration
  configure [] fun c => { c with resolution := some newResolution }

def setDecimals (newDecimals : Nat) : Contract Unit := asAdmin do
  ensure (newDecimals ≤ maxDecimals) .invalidConfiguration
  configure [] fun c => { c with decimals := some newDecimals }

def setDescription (newDescription : String) : Contract Unit := asAdmin do
  ensure (newDescription.utf8ByteSize ≤ maxDescriptionLength) .descriptionTooLong
  configure [] fun c => { c with description := some newDescription }

def setAggregationMethod (method : Nat) : Contract Unit := asAdmin do
  ensure (method ≤ 4) .invalidConfiguration
  configure [] fun c => { c with aggregationMethod := some method }

def setTimestampThreshold (threshold : Nat) : Contract Unit := asAdmin do
  ensure (threshold ≠ 0 ∧ threshold ≤ maxTimestampThreshold) .invalidConfiguration
  configure [.timestampThreshold] fun c => { c with timestampThreshold := some threshold }

def setMaxPriceDeviation (deviationBasisPoints : Nat) : Contract Unit := asAdmin do
  ensure (deviationBasisPoints ≤ 100000) .invalidConfiguration
  configure [] fun c => { c with maxPriceDeviation := some deviationBasisPoints }

def setCircuitBreakerThreshold (thresholdBps : Nat) : Contract Unit := asAdmin do
  ensure (thresholdBps ≤ 100000) .invalidConfiguration
  configure [] fun c => { c with circuitBreakerThreshold := some thresholdBps }

def setHeartbeatInterval (interval : Nat) : Contract Unit := asAdmin do
  ensure (interval ≠ 0 ∧ interval ≤ maxHeartbeatInterval) .invalidConfiguration
  configure [] fun c => { c with heartbeatInterval := some interval }

def setMaxHistoryPerAsset (newMax : Nat) : Contract Unit := asAdmin do
  configure [.maxHistoryPerAsset] fun c => { c with maxHistoryPerAsset := some newMax }

def setMaxEventsPerCall (newMax : Nat) : Contract Unit := asAdmin do
  configure [.maxEventsPerCall] fun c => { c with maxEventsPerCall := some newMax }

def setMaxAggregationSources (newMax : Nat) : Contract Unit := asAdmin do
  configure [.maxAggregationSources] fun c => { c with maxAggregationSources := some newMax }

def setAggregationCooldown (cooldownLedgers : Nat) : Contract Unit := asAdmin do
  configure [] fun c => { c with aggregationCooldown := some cooldownLedgers }

def setMinSubmissionInterval (intervalLedgers : Nat) : Contract Unit := asAdmin do
  configure [.minSubmissionInterval] fun c =>
    { c with minSubmissionInterval := some intervalLedgers }

def setInterpolationEnabled (enabled : Bool) : Contract Unit := asAdmin do
  configure [] fun c => { c with interpolationEnabled := some enabled }

def setMaxSources (newMax : Nat) : Contract Unit := asAdmin do
  configure [] fun c => { c with maxSources := some newMax }

def setQueryRateLimit (maxPerLedger : Nat) : Contract Unit := asAdmin do
  configure [] fun c => { c with queryRateLimit := some maxPerLedger }

def setMaxAssets (newMax : Nat) : Contract Unit := asAdmin do
  configure [] fun c => { c with maxAssets := some newMax }

def setTimelockDuration (duration : Nat) : Contract Unit := asAdmin do
  configure [] fun c => { c with timelockDuration := some duration }

def pause : Contract Unit := asAdmin do
  snapshotBeforeChange
  mark .pause
  modifyGates fun g => { g with pauseFlag := some true }

/-- `unpause` does not mark its bit: a clear bit already reads as not paused. -/
def unpause : Contract Unit := asAdmin do
  snapshotBeforeChange
  modifyGates fun g => { g with pauseFlag := some false }

/-- An emergency sets the same flag as a pause. -/
def emergencyPause (reason : String) (autoUnpauseLedgers : Nat) : Contract Unit := asAdmin do
  let admin ← getAdmin
  ensure (reason.utf8ByteSize ≤ 256) .reasonTooLong
  let sequence ← getSequence
  mark .pause
  modifyGates fun g => { g with pauseFlag := some true }
  setEmergency (some ⟨admin, reason, sequence, wrap32 (sequence + autoUnpauseLedgers)⟩)

def getEmergencyPause : Contract EmergencyPause :=
  consult fun w => match w.store.emergency with
    | some entry => .ok entry
    | none => .error .invalidConfiguration

/-- The pause flag is cleared whoever set it. -/
def cancelEmergencyPause : Contract Unit := asAdmin do
  let _ ← getEmergencyPause
  setEmergency none
  modifyGates fun g => { g with pauseFlag := some false }

/-- The bits of the settings `apply_snapshot` writes. -/
def snapshotFlags : List FeatureFlag :=
  [.timestampThreshold, .maxHistoryPerAsset, .maxEventsPerCall, .maxAggregationSources,
    .minSubmissionInterval, .pause]

def applySnapshot (snapshot : ConfigSnapshot) : Contract Unit := do
  modifyConfig fun c => c.applySnapshot snapshot
  forM snapshotFlags mark
  modifyGates fun g => { g with pauseFlag := some snapshot.paused }

def rollbackConfig (version : Nat) : Contract Unit := asAdmin do
  let target ← consult fun w => match w.store.config.snapshot version with
    | some snapshot => .ok snapshot
    | none => .error .configVersionNotFound
  snapshotBeforeChange
  applySnapshot target

/-- The settings `initialize` writes; a zero argument stands for the default. -/
def Config.initialized (c : Config) (admin : Address) (minSourcesRequired maxHistoryLength decimals :
    Nat) (description : String) : Config :=
  { c with
    admin := some admin
    minSources := some (if 0 < minSourcesRequired then minSourcesRequired else 1)
    maxHistory := some (if 0 < maxHistoryLength then maxHistoryLength else 100)
    resolution := some 0
    decimals := some decimals
    description := some description
    optimisticDisputeWindow := some 120
    optimisticMinBond := some 100000000
    maxAssets := some 100
    aggregationMethod := some 0
    queryRateLimit := some 100 }

/-- `admin::initialize`. -/
def initializeContract (admin : Address) (minSourcesRequired maxHistoryLength decimals : Nat)
    (description : String) : Contract Unit := do
  let initialized ← readStore fun _ st => st.config.admin.isSome
  ensure (initialized = false) .alreadyInitialized
  ensure (description.utf8ByteSize ≤ maxDescriptionLength) .descriptionTooLong
  ensure (decimals ≤ maxDecimals) .invalidConfiguration
  requireAuth admin
  modifyConfig fun c => c.initialized admin minSourcesRequired maxHistoryLength decimals description
  update fun w => { w with store := { w.store with registry := { w.store.registry with
    sources := [], sources_distinct := Eq.refl true, assets := [] } } }

theorem forM_mark_frame (flags : List FeatureFlag) :
    Frame [.flags,.suspension] (forM flags mark) :=
  preserves_forM fun f _ => mark_frame f

theorem snapshotBeforeChange_frame : Frame [.config,.suspension] snapshotBeforeChange :=
  .read fun _ => Preserves.bind
    (getMinSourcesRequired_frame.bind fun _ => readStore_frame _) fun _ => modifyConfig_frame _

theorem configure_frame (flags : List FeatureFlag) (write : Config → Config) :
    Frame [.config,.flags,.suspension] (configure flags write) :=
  (snapshotBeforeChange_frame.mono (by simp)).bind fun _ =>
    ((forM_mark_frame flags).mono (by simp)).bind fun _ => (modifyConfig_frame write).mono (by simp)

end PriceOracle.Model
