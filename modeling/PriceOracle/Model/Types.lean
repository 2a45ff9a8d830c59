import PriceOracle.Lib.MachineInt

/-! # Contract data types

The records the contract stores and exchanges, under the source's field names. Addresses are
opaque identifiers, prices are signed 128-bit integers, ledgers and timestamps are naturals. -/

namespace PriceOracle.Model

open Lib.MachineInt

abbrev Address := Nat

abbrev Bytes := List UInt8

/-- An array of exactly `n` bytes. -/
abbrev BytesN (n : Nat) := { b : Bytes // b.length = n }

/-- A string of the host is its bytes. -/
abbrev Text := Bytes

abbrev Symbol := String

abbrev Map (κ ν : Type) := κ → Option ν

/-- The panics the modelled operations raise; `hostTrap` is an untyped host failure. -/
inductive ErrorCode
  | notAuthorized | insufficientBond | assetNotRegistered | contractPaused | assetDisabled
  | priceFrozen | commitRevealRequired | sourceSuspended | invalidNonce | invalidPrice
  | invalidTimestamp | priceOutOfBounds | assetPaused | circuitBreakerTripped
  | insufficientSources | invalidConfiguration | configMissing | revealWindowClosed
  | commitExpired | commitNotFound | alreadyCommitted | commitHashMismatch | priceBelowMinimum
  | signatureExpired | signingKeyNotRegistered | relayerNotAuthorized | relayerBondInsufficient
  | batchEmpty | batchTooLarge | batchNotFeePrioritized | payloadTooLarge | sourceNotFound
  | feeMarketBelowMinimum | invalidBoundOrdering | invalidCorrectionReason
  | aggregateRejectedByBounds | correctionLimitReached | correctionWindowExpired | noData
  | bondTooSmall | proposalNotFound | proposalAlreadyDisputed | proposalAlreadyResolved
  | proposalExpired | proposalNotDisputed | invalidExternalProof | roundNotFound | roundExpired
  | roundEquivocation | roundEvidenceReplay | operationNotFound | alreadyApproved
  | approvalNotFound | msNotQueueHead | msQuorumNotReached | timelockNotReady | slashFailed
  | storageTierDowngradeNotReady | alreadyFinalized | priceRetracted | configVersionNotFound
  | alreadyInitialized | descriptionTooLong | priorityTimelockNotReady | stakeTokenNotConfigured
  | relayerBondLocked | relayerFailureThresholdMiss | reputationTooHighToSlash | invalidProof
  | assetAlreadyRegistered | maxAssetsReached | invalidFreshnessWindow | invalidDeferralPolicy
  | invalidRiskTier | reasonTooLong | priceNotFrozen | tooManyCallbacks | callbackNotFound
  | relayerAlreadyExists | deadManDisabled | notDegraded | oracleDegraded | notGuardian
  | invalidGuardianConfig | recoveryAlreadyPending | recoveryAlreadyApproved | recoveryNotPending
  | recoveryDelayNotElapsed | invalidAdaptiveQuorum | insufficientVolatilitySamples
  | autoRenewalNotEnabled | autoRenewalCancelled | autoRenewalAllowanceExceeded
  | renewalAuthorizationMissing | renewalAuthorizationReplay | noActiveSubscription
  | subscriptionExpired | recordsLimitExceeded | arithmeticOverflow | poolAlreadyExists
  | poolNotFound | slippageExceeded | ammPriceManipulation | operationAlreadyExists
  | invalidOperationState | dependencyNotMet | textTooLong | invalidTextContent
  | sourceNameEmpty | sourceNameTooLong | sourceAlreadyExists | maxSourcesReached
  | identityRevoked | cooldownNotElapsed | sourceNotPendingRemoval | invalidGovernanceConfig
  | proposalAlreadyExecuted | sourceEvidenceMissing | invalidBreakerDeadband
  | invalidBreakerPolicy | invalidBasketComposition | invalidBasketWeights | recursiveBasket
  | basketNotFound | channelAlreadyOpen | channelNotFound | invalidDuration | rateLimitExceeded
  | lzEndpointNotConfigured | lzNonceOutOfOrder | lzRemoteNotTrusted | lzChainNameNotConfigured
  | foreignAssetNotMapped | foreignAssetMappingDisabled | foreignAssetAlreadyMapped | reentrant
  | invalidSanityTolerance | invalidSanityRelation | invalidSanityRatio | exoticAssetNotConfigured
  | exoticCycleDetected | exoticCycleLimitExceeded | invalidPageSize | exportLimitExceeded
  | exportNotFound | basketConstituentStale | derivedFeedZeroDenominator | invalidScorecardConfig
  | zkVkNotSet | zkProofInvalid | zkInvalidPublicSignals | hostTrap
deriving DecidableEq

/-- One bit of the instance-wide feature mask. -/
inductive FeatureFlag
  | influenceCap | bft | compactionThreshold | pause | timestampThreshold | commitReveal
  | correlation | freshnessWindow | maxAggregationSources | maxEventsPerCall | maxHistoryPerAsset
  | minSubmissionInterval | publicationGuards | riskTier | sourceBond | assetPolicy
  | assetDeferral | assetDisabled | assetMinSubmissionInterval | storageTier | sourceLifecycle
  | dqPipeline | freshnessCurve | freeze | outlierFilter | triggers | blackout | sourceAssets
  | sourceDemerits | sourceInactive | anomalyRetention | contribScoringWindow
  | sourceComparison | priceCallback
deriving DecidableEq

structure PriceEntry where
  price : Int
  timestamp : Nat
  source : Address
  decimals : Nat
  lastUpdated : Nat
  ledgerTimestamp : Nat
  volume : Option Int
deriving DecidableEq

structure AggregatePrice where
  price : Int
  timestamp : Nat
  numSources : Nat
  decimals : Nat
  isOverride : Bool
  version : UInt32
deriving DecidableEq

structure PriceBounds where
  minPrice : Int
  maxPrice : Int
  maxChangeBpsPerLedger : Nat
deriving DecidableEq

/-- The price that readers get while an asset is frozen. -/
structure FrozenPrice where
  price : Int
  timestamp : Nat
  decimals : Nat
  reason : String
  frozenAtLedger : Nat
deriving DecidableEq

/-- A price that the administrator serves in place of the aggregate. -/
structure PriceOverrideEntry where
  price : Int
  reason : String
  expiryLedger : Nat
  setLedger : Nat
deriving DecidableEq

/-- An asset as a reader names it; only a token of the network has prices. -/
inductive Asset
  | stellar (address : Address)
  | other (symbol : String)
deriving DecidableEq

structure PriceData where
  price : Int
  timestamp : Nat
  lastUpdated : Nat
deriving DecidableEq

inductive TwapMethod
  | arithmetic
  | geometric
deriving DecidableEq

structure TwapResult where
  price : Int
  timestamp : Nat
  lastUpdated : Nat
  cardinality : Nat
  maxWeightBps : Nat
  concentrated : Bool
deriving DecidableEq

structure EmergencyPause where
  initiatedBy : Address
  reason : String
  initiatedLedger : Nat
  autoUnpauseLedger : Nat
deriving DecidableEq

structure PriceHistoryEntry where
  price : Int
  timestamp : Nat
  ledger : Nat
  numSources : Nat
  isInterpolated : Bool
deriving DecidableEq

structure CompactionMetadata where
  originalCount : Nat
  compactedCount : Nat
  lastCompactionLedger : Nat
  thresholdBps : Nat
deriving DecidableEq

inductive HistoryStorageTier
  | temporary | persistent
deriving DecidableEq

/-- A pending request to weaken the retention of an asset's history. -/
structure StorageTierDowngradeRequest where
  proposedBy : Address
  approvals : List Address
  readyAtLedger : Nat
  fromTier : HistoryStorageTier
deriving DecidableEq

structure ProvenanceEntry where
  source : Address
  price : Int
  weightBps : Nat
  submissionLedger : Nat
deriving DecidableEq

structure ProvenanceRecord where
  id : Bytes
  asset : Address
  ledger : Nat
  price : Int
  timestamp : Nat
  reference : Int
  numSources : Nat
  method : Nat
  contributors : List ProvenanceEntry
  deferralLedgers : List Nat
  previousHash : Bytes
  hash : Bytes
deriving DecidableEq

/-- What an aggregation round hands to history and provenance. -/
structure Publication where
  price : Int
  timestamp : Nat
  numSources : Nat
  reference : Int
  method : Nat
  contributors : List ProvenanceEntry
  deferrals : List Nat
deriving DecidableEq

structure ProvenanceHead where
  hash : Bytes
  ledger : Nat
deriving DecidableEq

/-- The raw argument of `set_bounds`, before its ordering is validated. -/
structure BoundsTierArg where
  softMin : Int
  softMax : Int
  hardMin : Int
  hardMax : Int
deriving DecidableEq

/-- A stored tier: the ordering is validated on write, so every stored tier is well formed. -/
structure BoundsTier extends BoundsTierArg where
  hardMin_pos : 0 < hardMin
  hardMin_le : hardMin ≤ softMin
  soft_le : softMin ≤ softMax
  le_hardMax : softMax ≤ hardMax
deriving DecidableEq

structure PublicationGuards where
  anySourceExcluded : Bool := false
  anyBoundsConfigured : Bool := false
  anyDeferralConfigured : Bool := false
  anyCorrectionsEnabled : Bool := false
  anyTierAssigned : Bool := false
  anySanityRelations : Bool := false
  anyFreshnessWindow : Bool := false
deriving DecidableEq

structure PolicyOverride where
  method : Option Nat
  minSources : Option Nat
  freshnessSecs : Option Nat
  maxDeviationBps : Option Nat
deriving DecidableEq

structure EffectivePolicy where
  method : Nat
  minSources : Nat
  freshnessSecs : Nat
  maxDeviationBps : Nat
deriving DecidableEq

/-- The window is validated on write, so the weight of an age never divides by zero. -/
structure FreshnessCurve where
  windowSecs : Nat
  minWeight : Nat
  window_pos : 0 < windowSecs
  minWeight_le : minWeight ≤ 1000
deriving DecidableEq

structure OutlierConfig where
  detector : Nat
  sensitivityBps : Nat
  minSources : Nat
deriving DecidableEq

structure OutlierExclusion where
  source : Address
  price : Int
  scoreBps : Nat
  center : Int
  scale : Int
deriving DecidableEq

structure DqConfig where
  maxStalenessSecs : Nat
  minPrice : Int
  maxPrice : Int
  maxStepBps : Nat
  maxDriftBps : Nat
  driftWindowSecs : Nat
deriving DecidableEq

structure DqAnchor where
  price : Int
  setAt : Nat
deriving DecidableEq

structure DeferralPolicy where
  quorum : Nat
  windowSecs : Nat
  maxDeferSecs : Nat
deriving DecidableEq

inductive PublicationState
  | absent | deferred | published | stale
deriving DecidableEq

structure PublicationStatus where
  state : PublicationState
  received : Nat
  missing : Nat
  quorum : Nat
  windowSecs : Nat
  deferredSince : Nat
  maxDeferSecs : Nat
  ledger : Nat
deriving DecidableEq

inductive SanityRelationKind
  | peg | triangle | spread
deriving DecidableEq

inductive SanityAction
  | flag | reject | quarantine
deriving DecidableEq

structure SanityRelation where
  asset : Address
  peer : Address
  peer2 : Option Address
  kind : SanityRelationKind
  toleranceBps : Nat
  ratioNum : Int
  ratioDen : Int
  action : SanityAction
deriving DecidableEq

structure SanityStatus where
  asset : Address
  violated : Bool
  suspended : Bool
  checked : Nat
  conflictingAsset : Option Address
  magnitudeBps : Nat
  toleranceBps : Nat
  action : SanityAction
  quarantined : Bool
  ledger : Nat
deriving DecidableEq

/-- The window `[start, stop)`; `origin` tells what opened it. -/
structure BlackoutWindow where
  start : Nat
  stop : Nat
  origin : Nat
deriving DecidableEq

/-- The sources that have signalled since the first of them did. -/
structure VolatilitySignals where
  since : Nat
  sources : List Address
deriving DecidableEq

structure CorrelationPair where
  baseAsset : Address
  quoteAsset : Address
deriving DecidableEq

structure CallbackRegistration where
  consumer : Address
  callbackContract : Address
  method : String
  active : Bool
deriving DecidableEq

structure CorrelationBand where
  minRatio : Nat
  maxRatio : Nat
  enabled : Bool
deriving DecidableEq

inductive DisqualificationStatus
  | active | warning | probation | disqualified
deriving DecidableEq

structure SourceDemeritState where
  demerits : Nat
  status : DisqualificationStatus
  statusUpdatedLedger : Nat
deriving DecidableEq

structure DemeritConfig where
  warningThreshold : Nat
  probationThreshold : Nat
  disqualifiedThreshold : Nat
  cooldownLedgers : Nat
deriving DecidableEq

structure CircuitBreakerEventEntry where
  asset : Address
  previousPrice : Int
  candidatePrice : Int
  changeBps : Nat
  maxChangeBps : Nat
  ledger : Nat
  timestamp : Nat
deriving DecidableEq

structure PriceRevision where
  index : Nat
  price : Int
  timestamp : Nat
  ledger : Nat
  actor : Address
  reason : String
  corrected : Bool
deriving DecidableEq

structure CorrectionScope where
  assets : Option (List Address)
  windowLedgers : Nat
  maxCorrections : Nat
deriving DecidableEq

inductive OptimisticProposalStatus
  | pending | finalized | disputed | resolved
deriving DecidableEq

structure OptimisticProposal where
  id : Nat
  asset : Address
  proposer : Address
  price : Int
  timestamp : Nat
  bondAmount : Int
  disputeWindow : Nat
  expiresAtLedger : Nat
  status : OptimisticProposalStatus
  disputed : Bool
  resolved : Bool
  resolution : Nat
  disputer : Option Address
deriving DecidableEq

structure ExternalDataProof where
  source : Address
  dataHash : Bytes
  timestamp : Nat
  signature : Bytes
deriving DecidableEq

structure PriceCommit where
  hash : Bytes
  committedLedger : Nat
  source : Address
  asset : Address
  revealed : Bool
deriving DecidableEq

structure MerkleLeaf where
  source : Address
  asset : Address
  price : Int
  timestamp : Nat
deriving DecidableEq

structure MerkleProof where
  leaf : MerkleLeaf
  siblings : List Bytes
  leftBitmap : Nat
deriving DecidableEq

structure RelayedSubmission where
  source : Address
  asset : Address
  price : Int
  timestamp : Nat
  priorityFee : Nat
deriving DecidableEq

structure Groth16VerifyingKey where
  icLen : Nat
  icBytes : Bytes
  pairingPrecomp : Bytes
deriving DecidableEq

structure Groth16Proof where
  a : Bytes
  b : Bytes
  c : Bytes
  fsCheck : BytesN 32
deriving DecidableEq

structure FeeMarketSubmission where
  source : Address
  asset : Address
  price : Int
  timestamp : Nat
  priorityFee : Nat
  submittedLedger : Nat
deriving DecidableEq

structure RoundConfig where
  requiredRounds : Nat
  quorum : Nat
  roundLedgers : Nat
  agreementBps : Nat
deriving DecidableEq

structure RoundVote where
  source : Address
  price : Int
  timestamp : Nat
  ledger : Nat
  observationId : Bytes
deriving DecidableEq

structure RoundTally where
  median : Int
  votes : Nat
  finalizedLedger : Nat
  timestamp : Nat
  sources : List RoundVote
deriving DecidableEq

structure ConfirmedPrice where
  price : Int
  decimals : Nat
  rounds : List Nat
  spreadBps : Nat
  finalizedLedger : Nat
  timestamp : Nat
deriving DecidableEq

inductive OperationType
  | upgrade | setAdmin | setMinSources | setMaxHistory | setResolution | setDecimals
  | setDescription | setTimestampThreshold
deriving DecidableEq

structure MultiSigOperation where
  id : Nat
  opType : OperationType
  data : Bytes
  approvals : List Address
  requiredApprovals : Nat
  proposedLedger : Nat
  proposedBy : Address
  timelockStartLedger : Nat
  nextOpId : Nat
deriving DecidableEq

inductive FinalityStatus
  | pending | finalized | retracted
deriving DecidableEq

/-- An aggregate inside its finality window. -/
structure PendingFinalityEntry where
  price : Int
  timestamp : Nat
  numSources : Nat
  decimals : Nat
  committedLedger : Nat
  finalityLedger : Nat
  status : FinalityStatus
  ledgerHash : Bytes
deriving DecidableEq

structure FinalizedPrice where
  price : Int
  timestamp : Nat
  numSources : Nat
  decimals : Nat
  committedLedger : Nat
  finalizedLedger : Nat
deriving DecidableEq

inductive OperationPriority
  | urgent | normal | longTerm
deriving DecidableEq

structure PendingOperation where
  id : Nat
  opType : OperationType
  proposedBy : Address
  proposedLedger : Nat
  data : Bytes
  priority : OperationPriority
deriving DecidableEq

/-- One element of a batch; the discriminant is the one of `OperationType`. -/
structure BatchOperation where
  opType : Nat
  data : Bytes
deriving DecidableEq

structure PendingBatch where
  id : Nat
  proposedBy : Address
  proposedLedger : Nat
  operations : List BatchOperation
deriving DecidableEq

structure ConfigSnapshot where
  version : Nat
  ledger : Nat
  timestamp : Nat
  minSourcesRequired : Nat
  maxHistoryLength : Nat
  resolution : Nat
  decimals : Nat
  description : String
  aggregationMethod : Nat
  timestampThreshold : Nat
  maxPriceDeviation : Nat
  circuitBreakerThreshold : Nat
  heartbeatInterval : Nat
  maxHistoryPerAsset : Nat
  maxEventsPerCall : Nat
  maxAggregationSources : Nat
  aggregationCooldown : Nat
  minSubmissionInterval : Nat
  interpolationEnabled : Bool
  maxSources : Nat
  queryRateLimit : Nat
  maxAssets : Nat
  paused : Bool
  timelockDuration : Nat
deriving DecidableEq

inductive MigrationStatus
  | inProgress | completed
deriving DecidableEq

structure MigrationState where
  fromVersion : Nat
  toVersion : Nat
  cursor : Nat
  startedLedger : Nat
  status : MigrationStatus
deriving DecidableEq

structure SourceStakeRecord where
  amount : Int
  lastUpdatedLedger : Nat
deriving DecidableEq

/-- A recovery the guardians have begun; its ready ledger is zero until it has a quorum. -/
structure GuardianRecovery where
  newAdmin : Address
  approvals : List Address
  initiatedLedger : Nat
  readyLedger : Nat
deriving DecidableEq

structure DeadManConfig where
  triggerAfter : Nat
  warnAfter : Nat
  operators : List Address
deriving DecidableEq

/-- What the dead-man switch announces. -/
inductive DeadManEvent
  | warning (elapsed triggerAfter lastHeartbeat : Nat)
  | triggered (elapsed triggerAfter lastHeartbeat : Nat)
  | recovered (guardian : Address)
deriving DecidableEq

structure VolatilityBuckets where
  boundaries : List Nat
  quorums : List Nat
  relaxAfter : Nat
  minSamples : Nat
  window : Nat
deriving DecidableEq

structure QuorumRegime where
  bucket : Nat
  quorum : Nat
  volatilityBps : Nat
  samples : Nat
  streak : Nat
deriving DecidableEq

structure RoundQuorum where
  round : Nat
  bucket : Nat
  quorum : Nat
  volatilityBps : Nat
deriving DecidableEq

structure AutoRenewRecord where
  consumer : Address
  token : Address
  planDuration : Nat
  maxAmountPerPeriod : Int
  periodsAuthorized : Nat
  periodsUsed : Nat
  authorizationNonce : Nat
  nextRenewalTimestamp : Nat
  active : Bool
  cancelled : Bool
deriving DecidableEq

structure RenewalAuthorization where
  periodId : Nat
  nonce : Nat
  amount : Int
  consumed : Bool
deriving DecidableEq

structure AmmPool where
  assetX : Address
  assetY : Address
  reserveX : Nat
  reserveY : Nat
  k : Nat
  enabled : Bool
  feeBps : Nat
deriving DecidableEq

inductive OperationStatus
  | pending | executed | cancelled
deriving DecidableEq

structure Operation where
  id : Text
  status : OperationStatus
  dependsOn : List Text
deriving DecidableEq

structure SourceVerification where
  verified : Bool
  verificationMethod : Text
  verifier : Address
deriving DecidableEq

structure SourceEnrollment where
  name : Text
  identityEvidence : Text
  endpointOwnershipEvidence : Text
  operationalContact : Text
  reliabilityEvidence : Text
deriving DecidableEq

structure SourceGovernance where
  approvers : List Address
  threshold : Nat
deriving DecidableEq

structure SourceProposal where
  id : Nat
  source : Address
  name : Text
  approvals : List Address
  executed : Bool
deriving DecidableEq

structure LifecycleConfig where
  probationSecs : Nat
  slashDeviationBps : Nat
deriving DecidableEq

/-- The record of a source that was onboarded under an identity. -/
structure SourceLifecycle where
  identity : Bytes
  onboardedAt : Nat
  probationUntil : Nat
  graduated : Bool
deriving DecidableEq

structure BreakerPolicy where
  tripBps : Nat
  clearBps : Nat
  settleLedgers : Nat
  maxOpenLedgers : Nat
  autoRearm : Bool
deriving DecidableEq

structure BasketConstituent where
  asset : Address
  weight : Nat
deriving DecidableEq

inductive BasketStalenessPolicy
  | reject | degrade
deriving DecidableEq

inductive BasketRebalancePolicy
  | manual | adminDriven
deriving DecidableEq

structure BasketConfig where
  constituents : List BasketConstituent
  totalWeight : Nat
  stalenessPolicy : BasketStalenessPolicy
  rebalancePolicy : BasketRebalancePolicy
deriving DecidableEq

/-- What the fair value of an asset is computed from. -/
inductive AssetType
  | direct
  | lpToken (reserve0 reserve1 totalSupply : Nat)
  | index (components : List Address) (weights : List Nat)
  | option (underlying : Address) (strike expiry : Nat) (isCall : Bool)
deriving DecidableEq

structure AssetPricingConfig where
  assetType : AssetType
  enabled : Bool
  volatilityBps : Nat
deriving DecidableEq

structure StateChannel where
  source : Address
  deposit : Int
  nonce : Nat
  lastPrice : Nat
  lastTimestamp : Nat
  disputeTimeout : Nat
  isClosed : Bool
  tokenContract : Address
deriving DecidableEq

/-- One price update of a state channel. -/
structure BatchItem where
  nonce : UInt64
  price : Nat
  price_lt : price < 2 ^ 128
  timestamp : UInt64
deriving DecidableEq

structure SubscriptionPayment where
  consumer : Address
  amount : Int
  timestamp : Nat
  status : Nat
deriving DecidableEq

structure TokenSubscriptionRecord where
  startTimestamp : Nat
  expiryTimestamp : Nat
  depositedAmount : Int
deriving DecidableEq

structure Challenge where
  id : Nat
  asset : Address
  challenger : Address
  expectedPrice : Int
  proofData : Bytes
  challengedLedger : Nat
  isResolved : Bool
  isValid : Bool
  rewardAmount : Int
deriving DecidableEq

structure ForeignAssetMapping where
  stellarAsset : Address
  chain : Text
  foreignAddress : BytesN 32
  decimals : Nat
  enabled : Bool
deriving DecidableEq

/-- What a bridge delivers; the price is a signed 128-bit integer. -/
structure CrossChainPricePayload where
  foreignAsset : BytesN 32
  price : Int
  price_i128 : IsI128 price
  decimals : UInt32
  timestamp : UInt64
  nonce : UInt64

end PriceOracle.Model
