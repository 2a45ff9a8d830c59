import PriceOracle.Lib.Footprint
import PriceOracle.Model.Types
import Mathlib.Data.Finset.Insert

/-! # Ledger state

The contract's storage grouped by owner, the invocation environment, and the ghost log of the
effects of the current call. A contract function is a transaction over a `World`; the regions of
`World` are what the frame results speak about. -/

namespace PriceOracle.Model

open Lib.Transaction

/-- Values the contract serialises before hashing. -/
inductive ScVal
  | address (a : Address)
  | u32 (n : Nat)
  | u64 (n : Nat)
  | i128 (x : Int)
deriving DecidableEq

/-- What each holder has of each token. -/
abbrev Balances := Address → Address → Int

/-- Host functions and token contracts outside the repository. -/
structure Host where
  sha256 : Bytes → Bytes
  toXdr : ScVal → Bytes
  ed25519Verify : Bytes → Bytes → Bytes → Bool
  networkId : Bytes
  contractAddress : Address
  hasCode : Bytes → Bool
  addressString : Address → Bytes
  /-- `transfer` of a token, from a sender to a recipient; none when the token contract traps. -/
  transfer : Address → Address → Address → Int → Balances → Option Balances
  /-- What a spender may still move of an owner's tokens: token, owner, spender. -/
  allowance : Address → Address → Address → Int
  /-- `transfer_from` of a token by a spender, from an owner to a recipient. -/
  transferFrom : Address → Address → Address → Address → Int → Balances → Option Balances

/-- What one invocation sees of the network: the ledger and the addresses that authorized it. -/
structure Env where
  host : Host
  sequence : Nat
  timestamp : Nat
  authorized : Address → Bool

/-- Settings and the requests to change them; all but an approval and the callbacks are the
administrator's. -/
structure Config where
  admin : Option Address := none
  decimals : Option Nat := none
  timestampThreshold : Option Nat := none
  aggregationMethod : Option Nat := none
  minSources : Option Nat := none
  maxAggregationSources : Option Nat := none
  minSubmissionInterval : Option Nat := none
  assetMinSubmissionInterval : Map Address Nat := fun _ => none
  maxHistory : Option Nat := none
  maxHistoryPerAsset : Option Nat := none
  maxEventsPerCall : Option Nat := none
  aggregationCooldown : Option Nat := none
  bftFaultTolerance : Option Nat := none
  bftAggregationMethod : Option Nat := none
  commitRevealEnabled : Option Bool := none
  commitWindow : Option Nat := none
  revealWindow : Option Nat := none
  compactionThresholdBps : Option Nat := none
  assetStorageTier : Map Address HistoryStorageTier := fun _ => none
  assetStorageTierDowngrade : Map Address StorageTierDowngradeRequest := fun _ => none
  assetStorageTierMigrated : Map Address Nat := fun _ => none
  assetPolicy : Map Address PolicyOverride := fun _ => none
  assetClassId : Map Address Nat := fun _ => none
  classPolicy : Map Nat PolicyOverride := fun _ => none
  assetRiskTier : Map Address Nat := fun _ => none
  riskTierEnforcement : Option Bool := none
  freshnessCurve : Map Address FreshnessCurve := fun _ => none
  assetFreshnessWindow : Map Address Nat := fun _ => none
  defaultFreshnessWindow : Option Nat := none
  influenceCapBps : Option Nat := none
  outlierConfig : Map Address OutlierConfig := fun _ => none
  dqConfig : Map Address DqConfig := fun _ => none
  assetDeferral : Map Address DeferralPolicy := fun _ => none
  sanityRelations : Map Address (List SanityRelation) := fun _ => none
  sanitySuspended : Map Address Nat := fun _ => none
  correlationPairs : List CorrelationPair := []
  correlationBand : Map (Address × Address) CorrelationBand := fun _ => none
  triggerSubmissionThreshold : Map Address Nat := fun _ => none
  triggerDeviationBps : Map Address Nat := fun _ => none
  triggerTimeInterval : Map Address Nat := fun _ => none
  anyProbation : Bool := false
  lifecycle : Map Address SourceLifecycle := fun _ => none
  sourceInactive : Map Address Bool := fun _ => none
  sourceBondAmount : Option Int := none
  demeritConfig : Option DemeritConfig := none
  correctionScope : Option CorrectionScope := none
  optimisticDisputeWindow : Option Nat := none
  optimisticMinBond : Option Int := none
  approvedRelayer : Address → Bool := fun _ => false
  relayerBondAmount : Option Int := none
  relayerFeePerSubmission : Option Int := none
  fmMinPriorityFee : Option Nat := none
  fmFeeDistributionRatio : Option Nat := none
  timelockDuration : Option Nat := none
  commitRevealSlashAmount : Option Int := none
  resolution : Option Nat := none
  assetResolution : Map Address Nat := fun _ => none
  description : Option String := none
  maxPriceDeviation : Option Nat := none
  circuitBreakerThreshold : Option Nat := none
  heartbeatInterval : Option Nat := none
  heartbeatWindow : Option Nat := none
  interpolationEnabled : Option Bool := none
  maxSources : Option Nat := none
  queryRateLimit : Option Nat := none
  maxAssets : Option Nat := none
  anomalyRetention : Option Nat := none
  contribScoringWindow : Option Nat := none
  sourceComparison : Address → Bool := fun _ => false
  priceCallbacks : Map Address (List CallbackRegistration) := fun _ => none
  versionCount : Option Nat := none
  versionIndex : List Nat := []
  snapshot : Map Nat ConfigSnapshot := fun _ => none
  zkVerifyingKey : Option Groth16VerifyingKey := none

/-- The two-tier bounds and the publication guards that switch them on. -/
structure Bounds where
  tier : Map Address BoundsTier := fun _ => none
  guards : Option PublicationGuards := none

/-- What decides whether a submission is accepted for an asset. -/
structure Gates where
  pauseFlag : Option Bool := none
  frozen : Map Address FrozenPrice := fun _ => none
  assetDisabled : Map Address Bool := fun _ => none
  assetPauseFlag : Map Address Bool := fun _ => none
  circuitBreakerTripped : Map Address Bool := fun _ => none
  breakerPause : Address → Bool := fun _ => false
  breakerLogCount : Map Address Nat := fun _ => none
  breakerLog : Map (Address × Nat) CircuitBreakerEventEntry := fun _ => none
  priceBounds : Map Address PriceBounds := fun _ => none
  minPrice : Map Address Int := fun _ => none
  sourceAssets : Map Address (List Address) := fun _ => none

/-- A source is added only while it is absent, so the registry lists it once. The check is
computed, so a concrete registry meets it by evaluation. -/
structure Registry where
  assetIndex : Map Address Bool := fun _ => none
  assetRegistered : Map Address Bool := fun _ => none
  assets : List Address := []
  sources : List Address := []
  sources_distinct : decide sources.Nodup = true := by exact Eq.refl true
  srcActive : Map Address Bool := fun _ => none
  sourceBond : Map Address Int := fun _ => none

theorem Registry.sources_nodup (r : Registry) : r.sources.Nodup :=
  of_decide_eq_true r.sources_distinct

/-- Per-source bookkeeping written by accepted submissions. -/
structure SourceStats where
  nonce : Map Address Nat := fun _ => none
  signedNonce : Map Address Nat := fun _ => none
  submissionKey : Map Address Bytes := fun _ => none
  lastSubmissionLedger : Map (Address × Address) Nat := fun _ => none
  lastPriceLedger : Map Address Nat := fun _ => none
  priceSubmitAfterReactivation : Address → Bool := fun _ => false
  totalSubmissionCount : Option Nat := none
  submissionCount : Map Address Nat := fun _ => none
  correlationFlagged : Address × Address → Bool := fun _ => false
  commits : Map (Address × Address × Nat) PriceCommit := fun _ => none

/-- The heartbeats of the sources and what has been counted against them. -/
structure Heartbeats where
  heartbeat : Map Address Nat := fun _ => none
  missedHeartbeats : Map Address Nat := fun _ => none
  inactiveSinceLedger : Map Address Nat := fun _ => none

/-- Per-asset records an aggregation round keeps beside the price itself. -/
structure RoundRecords where
  nonCompliant : Address × Address → Bool := fun _ => false
  outlierExclusions : Map Address (List OutlierExclusion) := fun _ => none
  dqAnchor : Map Address DqAnchor := fun _ => none
  blackoutWindow : Map Address BlackoutWindow := fun _ => none
  blackoutLastEnd : Map Address Nat := fun _ => none
  publicationStatus : Map Address PublicationStatus := fun _ => none
  sanityStatus : Map Address SanityStatus := fun _ => none
  lastAggregateLedger : Map Address Nat := fun _ => none
  triggerSubmissionCount : Map Address Nat := fun _ => none
  triggerLastAggTime : Map Address Nat := fun _ => none
  lastAggregationTrigger : Map Address Nat := fun _ => none
  lastForcedRecompute : Option Nat := none
  compactionMeta : Map Address CompactionMetadata := fun _ => none

structure History where
  entry : Map (Address × Nat) PriceHistoryEntry := fun _ => none
  bucket : Map (Address × Nat) (List PriceHistoryEntry) := fun _ => none
  bucketIndex : Map Address (List Nat) := fun _ => none
  ledgers : Map Address (List Nat) := fun _ => none

structure Provenance where
  record : Map (Address × Nat) ProvenanceRecord := fun _ => none
  head : Map Address ProvenanceHead := fun _ => none

structure Corrections where
  revisions : Map Address (List PriceRevision) := fun _ => none
  original : Map Address Int := fun _ => none
  count : Map Address Nat := fun _ => none

structure Optimistic where
  proposalCount : Option Nat := none
  proposal : Map Nat OptimisticProposal := fun _ => none

structure Relayers where
  delegationExpiry : Map (Address × Address) Nat := fun _ => none
  delegationNonce : Map Address Nat := fun _ => none
  bond : Map Address Int := fun _ => none
  submissionCount : Map Address Nat := fun _ => none
  feeBalance : Map Address Int := fun _ => none

structure FeeMarket where
  pending : List FeeMarketSubmission := []
  feePool : Option Nat := none
  sourceFeeBalance : Map Address Nat := fun _ => none
  treasuryBalance : Option Nat := none

structure Consensus where
  config : Map Address RoundConfig := fun _ => none
  counter : Map Address Nat := fun _ => none
  start : Map (Address × Nat) Nat := fun _ => none
  vote : Map (Address × Nat × Address) RoundVote := fun _ => none
  voteIndex : Map (Address × Nat) (List Address) := fun _ => none
  tally : Map (Address × Nat) RoundTally := fun _ => none
  evidenceOwner : Map (Address × Bytes) Nat := fun _ => none
  barred : Address × Nat × Address → Bool := fun _ => false
  equivocationCount : Map (Address × Address) Nat := fun _ => none
  abandoned : Map Address Nat := fun _ => none
  confirmedPrice : Map Address ConfirmedPrice := fun _ => none
  confirmedRounds : Map Address (List Nat) := fun _ => none

/-- The governors and the linked queue of their pending operations. -/
structure Multisig where
  governors : Option (List Address) := none
  requiredApprovals : Option Nat := none
  previousRequiredApprovals : Option Nat := none
  op : Map Nat MultiSigOperation := fun _ => none
  queueHead : Option Nat := none
  queueTail : Option Nat := none
  opCount : Option Nat := none

/-- The records of `finality`, by asset and committed ledger. -/
structure Finality where
  pending : Map (Address × Nat) PendingFinalityEntry := fun _ => none
  finalized : Map Address FinalizedPrice := fun _ => none
  ledgers : Option Nat := none
  ledgerHash : Map Nat Bytes := fun _ => none

/-- The administrator's queued operations and batches, and the delays they wait for. -/
structure Timelock where
  pendingOp : Map Nat PendingOperation := fun _ => none
  pendingOpCount : Option Nat := none
  opRequiredDelay : Map Nat Nat := fun _ => none
  pendingBatch : Map Nat PendingBatch := fun _ => none
  pendingBatchCount : Option Nat := none
  batchRequiredDelay : Map Nat Nat := fun _ => none
  urgentDelay : Option Nat := none
  normalDelay : Option Nat := none
  longTermDelay : Option Nat := none
  duration : Option Nat := none

/-- The progress of a storage migration. -/
structure Migration where
  version : Option Nat := none
  state : Option MigrationState := none

/-- Stakes and what decides a slash, beside the balances of the token contracts outside. -/
structure Custody where
  stakeToken : Option Address := none
  stake : Map Address SourceStakeRecord := fun _ => none
  slashPercent : Option Nat := none
  slashThreshold : Option Nat := none
  reputation : Map Address Int := fun _ => none
  relayerSlashPercent : Option Nat := none
  relayerFailureCount : Map Address Nat := fun _ => none
  relayerFailureThreshold : Option Nat := none
  challengerRewards : Map Address Int := fun _ => none
  balance : Balances := fun _ _ => 0

/-- The liveness watchdog; the trip also sets the pause flag. -/
structure DeadMan where
  config : Option DeadManConfig := none
  lastHeartbeat : Option Nat := none
  degraded : Bool := false
  triggeredAt : Option Nat := none
  warned : Bool := false

/-- The guardians, the one recovery in flight and the last candidate that was vetoed. -/
structure Recovery where
  guardians : Option (List Address) := none
  threshold : Option Nat := none
  delay : Option Nat := none
  pending : Option GuardianRecovery := none
  veto : Option (Address × Nat) := none

/-- The observed returns of each asset, its damped regime and the quorums pinned to rounds. -/
structure AdaptiveQuorum where
  config : Option VolatilityBuckets := none
  window : Map Address (List Nat) := fun _ => none
  lastPrice : Map Address Int := fun _ => none
  state : Map Address QuorumRegime := fun _ => none
  round : Map (Address × Nat) RoundQuorum := fun _ => none

/-- Plans, payments, expiries and the rights to renew; authorizations and marks are kept by
period. -/
structure Subscriptions where
  plan : Map Nat Int := fun _ => none
  expiry : Map Address Nat := fun _ => none
  payment : Map Address SubscriptionPayment := fun _ => none
  tokenDeposit : Map Address TokenSubscriptionRecord := fun _ => none
  subscriptionToken : Option Address := none
  xlmToken : Option Address := none
  record : Map Address AutoRenewRecord := fun _ => none
  authorization : Map (Address × Nat) RenewalAuthorization := fun _ => none
  spent : Address × Nat → Bool := fun _ => false

/-- The pools of the market maker. -/
structure Amm where
  pool : Map Symbol AmmPool := fun _ => none
  maxDeviationBps : Option Nat := none

theorem noOperation_mem (id : Text) (h : (none : Option Operation) ≠ none) :
    id ∈ (∅ : Finset Text) := absurd rfl h

/-- The operations with dependencies. The ledger stores finitely many: `keys` are those in use. -/
structure Operations where
  operation : Map Text Operation := fun _ => none
  keys : Finset Text := ∅
  mem_keys : ∀ id, operation id ≠ none → id ∈ keys := by
    first
    | exact noOperation_mem
    | simp
  dependents : Map Text (List Text) := fun _ => none

/-- What is kept of the sources beside the registry. -/
structure SourceRecords where
  metadata : Map Address Text := fun _ => none
  verification : Map Address SourceVerification := fun _ => none
  verificationKey : Map Address SourceVerification := fun _ => none
  enrollment : Map Address SourceEnrollment := fun _ => none
  governance : Option SourceGovernance := none
  proposalCount : Option Nat := none
  proposal : Map Nat SourceProposal := fun _ => none
  lifecycleConfig : Option LifecycleConfig := none
  identityOwner : Map Bytes Address := fun _ => none
  revokedIdentity : Bytes → Bool := fun _ => false
  revokedAddress : Address → Bool := fun _ => false
  rotationLedger : Map Address Nat := fun _ => none
  pendingRemoval : Map Address Nat := fun _ => none
  removalCooldown : Option Nat := none
  maxInactiveLedgers : Option Nat := none
  legacySource : Address → Bool := fun _ => false
  submissionLedger : Map (Address × Address) Nat := fun _ => none

/-- What re-arms a tripped circuit breaker. -/
structure Breakers where
  policy : Map Address BreakerPolicy := fun _ => none
  settleStreak : Map Address Nat := fun _ => none
  armedLedger : Map Address Nat := fun _ => none
  escalations : Map Address Nat := fun _ => none
  sourceRecovery : Map Address Nat := fun _ => none

/-- The open state channels and the keys bound to them. -/
structure Channels where
  channel : Map Address StateChannel := fun _ => none
  signer : Map Address Bytes := fun _ => none

/-- The challenges by number, and what is counted of them. -/
structure Challenges where
  challenge : Map Nat Challenge := fun _ => none
  count : Option Nat := none
  challengerOpenCount : Map Address Nat := fun _ => none
  assetOpenChallenges : Map Address Nat := fun _ => none
  challengerStrikes : Map Address Nat := fun _ => none

/-- The LayerZero pathways, by endpoint id and remote sender, and the foreign assets. -/
structure Bridge where
  lzEndpoint : Option Address := none
  lzEidChainName : Map Nat Text := fun _ => none
  lzTrustedRemote : Map (Nat × BytesN 32) Address := fun _ => none
  lzInboundNonce : Map (Nat × BytesN 32) Nat := fun _ => none
  foreignAsset : Map (Text × BytesN 32) ForeignAssetMapping := fun _ => none

/-- What opens a blackout without the administrator. -/
structure Volatility where
  signals : Map Address VolatilitySignals := fun _ => none
  quorum : Option Nat := none

/-- The storage of the contract; `entered` is the reentrancy guard. -/
structure Store where
  flags : FeatureFlag → Bool := fun _ => false
  config : Config := {}
  bounds : Bounds := {}
  gates : Gates := {}
  registry : Registry := {}
  demerits : Map Address SourceDemeritState := fun _ => none
  stats : SourceStats := {}
  heartbeats : Heartbeats := {}
  submission : Map (Address × Address) PriceEntry := fun _ => none
  aggregate : Map Address AggregatePrice := fun _ => none
  rounds : RoundRecords := {}
  history : History := {}
  provenance : Provenance := {}
  corrections : Corrections := {}
  optimistic : Optimistic := {}
  relayers : Relayers := {}
  feeMarket : FeeMarket := {}
  consensus : Consensus := {}
  multisig : Multisig := {}
  treasury : Option Int := none
  finality : Finality := {}
  timelock : Timelock := {}
  migration : Migration := {}
  custody : Custody := {}
  deadMan : DeadMan := {}
  recovery : Recovery := {}
  adaptiveQuorum : AdaptiveQuorum := {}
  subscriptions : Subscriptions := {}
  amm : Amm := {}
  operations : Operations := {}
  sources : SourceRecords := {}
  breakers : Breakers := {}
  baskets : Map Address BasketConfig := fun _ => none
  exotic : Map Address AssetPricingConfig := fun _ => none
  channels : Channels := {}
  challenges : Challenges := {}
  bridge : Bridge := {}
  volatility : Volatility := {}
  overrides : Map Address PriceOverrideEntry := fun _ => none
  emergency : Option EmergencyPause := none
  entered : Bool := false

/-- One write of `Submission(asset, source)`, with the storage it was made in. -/
structure SubmissionWrite where
  before : Store
  asset : Address
  source : Address
  entry : PriceEntry

/-- One write of `Aggregate(asset)`, with the storage it was made in. -/
structure AggregateWrite where
  before : Store
  asset : Address
  value : AggregatePrice

/-- One provenance record an aggregation round writes, with the storage it was made in. -/
structure PublicationNote where
  before : Store
  asset : Address
  ledger : Nat
  record : ProvenanceRecord

/-- What the current call has done so far; ghost state no modelled function reads. -/
structure Log where
  auths : List Address := []
  submissions : List SubmissionWrite := []
  aggregates : List AggregateWrite := []
  publications : List PublicationNote := []
  liveness : List DeadManEvent := []

structure World where
  env : Env
  store : Store
  log : Log := {}

abbrev Contract := Tx ErrorCode World

end PriceOracle.Model
