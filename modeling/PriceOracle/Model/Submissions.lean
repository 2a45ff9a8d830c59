import PriceOracle.Model.Aggregation

/-! # Submissions

The public paths that store `Submission(asset, source)`: direct, batched, with volume, by
commit and reveal, by Merkle proof, by signed payload, relayed, and through the fee market. Each
path makes its own checks in the order of the source; what they share is named once. -/

namespace PriceOracle.Model

open Lib.Transaction Lib.MachineInt

/-- The demerit state after one more invalid submission. -/
def DemeritConfig.penalise (cfg : DemeritConfig) (sequence : Nat) (state : SourceDemeritState) :
    SourceDemeritState :=
  let demerits := satAdd32 state.demerits 1
  if cfg.disqualifiedThreshold ≤ demerits then ⟨demerits, .disqualified, sequence⟩
  else if cfg.probationThreshold ≤ demerits then ⟨demerits, .probation, sequence⟩
  else if cfg.warningThreshold ≤ demerits then ⟨demerits, .warning, sequence⟩
  else { state with demerits }

def setDemerits (source : Address) (state : SourceDemeritState) : Contract Unit :=
  update fun w => { w with store := { w.store with
    demerits := Function.update w.store.demerits source (some state) } }

/-- The assets a change of `source` can affect: its whitelist, then what it has submitted. -/
def Store.affectedAssets (st : Store) (source : Address) : List Address :=
  let listed := ((st.gates.sourceAssets source).getD []).eraseDups
  st.registry.assets.foldl (fun out a =>
    if 64 ≤ out.length ∨ out.contains a = true then out
    else if (st.submission (a, source)).isSome then out ++ [a] else out) listed

/-- `price_bounds::update_guards`. -/
def updateGuards (f : PublicationGuards → PublicationGuards) : Contract Unit := do
  let guards ← readStore fun _ st => st.guards
  mark .publicationGuards
  modifyBounds fun b => { b with guards := some (f guards) }

/-- `record_invalid_submission`; a disqualified source leaves the aggregates at once. -/
def recordInvalidSubmission (source : Address) : Contract Unit := do
  mark .sourceDemerits
  let state ← getSourceDemerits source
  let cfg ← readStore fun _ st => st.demeritConfig
  let sequence ← getSequence
  let penalised := cfg.penalise sequence state
  setDemerits source penalised
  if penalised.status ≠ state.status ∧ penalised.status = .disqualified then do
    updateGuards fun g => { g with anySourceExcluded := true }
    let assets ← readStore fun _ st => st.affectedAssets source
    recomputeBounded assets
  else pure ()

/-- Records the invalid submission and panics; the panic rolls the record back. -/
def rejectInvalid (source : Address) (e : ErrorCode) : Contract Unit := do
  recordInvalidSubmission source
  abort e

def checkNotDisabled (asset : Address) : Contract Unit := do
  let disabled ← readStore fun _ st => st.isAssetDisabled asset
  ensure (disabled = false) .assetDisabled

def checkNotSuspended (source : Address) (e : ErrorCode) : Contract Unit := do
  let suspended ← isSourceSuspended source
  ensure (suspended = false) e

/-- Whether a timestamp lies beyond the accepted clock skew. -/
def Store.fromFuture (env : Env) (st : Store) (timestamp : Nat) : Bool :=
  satAdd64 env.timestamp st.getTimestampThreshold < timestamp

def checkPositive (source : Address) (price : Int) : Contract Unit :=
  if price ≤ 0 then rejectInvalid source .invalidPrice else pure ()

def checkTimestamp (source : Address) (timestamp : Nat) : Contract Unit := do
  let late ← readStore fun e st => st.fromFuture e timestamp
  if late then rejectInvalid source .invalidTimestamp else pure ()

/-- A delayed submission never replaces a newer one of the same source. -/
def checkOrder (asset source : Address) (timestamp : Nat) : Contract Unit := do
  let delayed ← readStore fun _ st => (st.submission (asset, source)).any fun prev =>
    timestamp < prev.timestamp
  ensure (delayed = false) .invalidTimestamp

def tripCircuitBreaker (asset : Address) (previousPrice candidatePrice changeBps : Int)
    (maxChangeBps : Nat) : Contract Unit := do
  let sequence ← getSequence
  let timestamp ← getTimestamp
  modifyGates fun g =>
    let count := (g.breakerLogCount asset).getD 0 + 1
    { g with
      breakerPause := if (g.assetPauseFlag asset).getD false then g.breakerPause
        else Function.update g.breakerPause asset true
      assetPauseFlag := Function.update g.assetPauseFlag asset (some true)
      circuitBreakerTripped := Function.update g.circuitBreakerTripped asset (some true)
      breakerLogCount := Function.update g.breakerLogCount asset (some (wrap32 count))
      breakerLog := Function.update g.breakerLog (asset, wrap32 count)
        (some ⟨asset, previousPrice, candidatePrice,
          wrap32 (toU128 (min changeBps u32Max)), maxChangeBps, sequence, timestamp⟩) }

/-- The change from a positive previous price, in basis points. -/
def changeBps (prevPrice candidatePrice : Int) : Int :=
  let diff := if prevPrice < candidatePrice then wrapSub candidatePrice prevPrice
    else wrapSub prevPrice candidatePrice
  (satMul diff 10000).tdiv prevPrice

/-- The rate limit: a candidate beyond it trips the breaker and panics. -/
def checkChange (asset source : Address) (price : Int) (timestamp decimals limit : Nat) :
    Contract Unit := do
  let prevPrice ← readStore fun _ st => st.lastPrice asset
  if 0 < prevPrice then do
    let candidate ← buildCandidateAggregate asset source price timestamp decimals
    match candidate with
    | none => pure ()
    | some c =>
      if (limit : Int) < changeBps prevPrice c.price then do
        tripCircuitBreaker asset prevPrice c.price (changeBps prevPrice c.price) limit
        abort .circuitBreakerTripped
      else pure ()
  else pure ()

def validatePriceSubmission (asset source : Address) (price : Int) (timestamp decimals : Nat) :
    Contract Unit := do
  let bounds ← getPriceBounds asset
  ensure (bounds.minPrice ≤ price ∧ price ≤ bounds.maxPrice) .priceOutOfBounds
  let halted ← readStore fun _ st => st.isAssetPaused asset || st.isCircuitBreakerTripped asset
  ensure (halted = false) .assetPaused
  if 0 < bounds.maxChangeBpsPerLedger then
    checkChange asset source price timestamp decimals bounds.maxChangeBpsPerLedger
  else pure ()

/-- Stores the submission with the decimals, ledger and time of the call. -/
def storeSubmission (asset source : Address) (price : Int) (timestamp : Nat)
    (volume : Option Int) : Contract Unit := do
  let entry ← readStore fun e st =>
    (⟨price, timestamp, source, st.getDecimals, e.sequence, e.timestamp, volume⟩ : PriceEntry)
  writeSubmission asset source entry

def recordPriceSubmitted (source : Address) : Contract Unit := do
  let sequence ← getSequence
  let inactive ← readStore fun _ st => st.isSourceInactive source
  modifyStats fun s => { s with
    lastPriceLedger := Function.update s.lastPriceLedger source (some sequence)
    priceSubmitAfterReactivation := if inactive then
        Function.update s.priceSubmitAfterReactivation source true
      else s.priceSubmitAfterReactivation }

def recordSuccessfulSubmission (source : Address) : Contract Unit := do
  recordPriceSubmitted source
  modifyStats fun s => { s with
    totalSubmissionCount := some (satAdd32 (s.totalSubmissionCount.getD 0) 1)
    submissionCount := Function.update s.submissionCount source
      (some (satAdd32 ((s.submissionCount source).getD 0) 1)) }

/-- Tracks the ledger of the submission and clears the non-compliance flag. -/
def recordCompliance (asset source : Address) : Contract Unit := do
  let sequence ← getSequence
  modifyStats fun s => { s with
    lastSubmissionLedger := Function.update s.lastSubmissionLedger (source, asset) (some sequence) }
  modifyRounds fun r => { r with
    nonCompliant := Function.update r.nonCompliant (source, asset) false }

/-- Aggregates if enough sources contribute. -/
def aggregateAfterSubmission (asset : Address) : Contract Unit := do
  let enough ← maybeAggregateAfterSubmission asset
  if enough then doAggregate asset else pure ()

/-- The opening of every path a source authorizes itself. -/
def asSource (source : Address) (body : Contract Unit) : Contract Unit := do
  checkNotPaused
  requireAuth source
  checkSource source
  body

def acceptNonce (source : Address) (nonce : Nat) : Contract Unit := do
  let lastNonce ← readStore fun _ st => (st.stats.nonce source).getD 0
  ensure (lastNonce < nonce) .invalidNonce
  modifyStats fun s => { s with nonce := Function.update s.nonce source (some nonce) }

/-- The checks `submit_price` and `submit_price_with_volume` make before the price itself. -/
def checkDirect (source asset : Address) : Contract Unit := do
  checkRegisteredAsset asset
  checkNotDisabled asset
  checkNotFrozen asset
  checkSourceAsset source asset
  enforceCommitRevealForBft
  checkNotSuspended source .sourceSuspended

/-- Validation of the price and of the timestamp, as both direct paths make it. -/
def checkSubmission (asset source : Address) (price : Int) (timestamp : Nat) : Contract Unit := do
  let decimals ← readStore fun _ st => st.getDecimals
  validatePriceSubmission asset source price timestamp decimals
  checkTimestamp source timestamp

/-- `check_deviation_circuit_breaker`: a tripped breaker drops the submission silently. -/
def unlessTripped (asset : Address) (body : Contract Unit) : Contract Unit := do
  let tripped ← readStore fun _ st => st.isCircuitBreakerTripped asset
  if tripped then pure () else body

/-- Flags and triggers that follow an accepted direct submission. -/
def afterDirect (asset source : Address) (price : Int) : Contract Unit := do
  recordSuccessfulSubmission source
  let _ ← validateCorrelation asset price source
  recordSubmissionForTriggers asset price

def submitPrice (source asset : Address) (price : Int) (timestamp nonce : Nat) : Contract Unit :=
  asSource source do
    checkDirect source asset
    acceptNonce source nonce
    checkPositive source price
    checkSubmission asset source price timestamp
    checkOrder asset source timestamp
    unlessTripped asset do
      storeSubmission asset source price timestamp none
      afterDirect asset source price
      aggregateAfterSubmission asset

def submitPriceWithVolume (source asset : Address) (price : Int) (timestamp : Nat)
    (volume : Option Int) : Contract Unit :=
  asSource source do
    checkDirect source asset
    if price ≤ 0 ∨ volume.getD 1 < 0 then rejectInvalid source .invalidPrice
    else do
      checkSubmission asset source price timestamp
      unlessTripped asset do
        storeSubmission asset source price timestamp volume
        afterDirect asset source price
        doAggregate asset

/-- One element of a batch: asset, price, timestamp. -/
abbrev BatchEntry := Address × Int × Nat

/-- The validation of one element of `submit_prices`; it does not ask whether the asset is
disabled. -/
def checkBatchEntry (source : Address) (x : BatchEntry) : Contract Unit := do
  checkRegisteredAsset x.1
  checkNotFrozen x.1
  checkSourceAsset source x.1
  checkPositive source x.2.1
  checkSubmission x.1 source x.2.1 x.2.2

/-- The store loop of `submit_prices`: it stops at the first tripped asset, and then nothing is
aggregated. -/
def storeBatch (source : Address) : List BatchEntry → Contract Unit → Contract Unit
  | [], andThen => andThen
  | x :: xs, andThen => unlessTripped x.1 do
    storeSubmission x.1 source x.2.1 x.2.2 none
    recordSuccessfulSubmission source
    recordCompliance x.1 source
    storeBatch source xs andThen

def maxListLength : Nat := 64

def submitPrices (source : Address) (assetPrices : List BatchEntry) : Contract Unit := do
  ensure (assetPrices.length ≤ maxListLength) .payloadTooLarge
  asSource source do
    enforceCommitRevealForBft
    checkNotSuspended source .sourceSuspended
    forM assetPrices (checkBatchEntry source)
    storeBatch source assetPrices (forM assetPrices fun x => aggregateAfterSubmission x.1)

def Store.currentRoundLedger (env : Env) (st : Store) : Nat :=
  if st.getCommitWindow = 0 then env.sequence
  else env.sequence / st.getCommitWindow * st.getCommitWindow

def commitPrice (source asset : Address) (hash : Bytes) : Contract Unit :=
  asSource source do
    checkRegisteredAsset asset
    let sequence ← getSequence
    let roundLedger ← readStore fun e st => st.currentRoundLedger e
    let window ← readStore fun _ st => st.getCommitWindow
    ensure (sequence < wrap32 (roundLedger + window)) .revealWindowClosed
    let committed ← readStore fun _ st => (st.stats.commits (asset, source, roundLedger)).isSome
    ensure (committed = false) .alreadyCommitted
    modifyStats fun s => { s with
      commits := Function.update s.commits (asset, source, roundLedger)
        (some ⟨hash, roundLedger, source, asset, false⟩) }

/-- `_compute_commit_hash`. -/
def computeCommitHash (env : Env) (source : Address) (price : Int) (salt : Bytes)
    (roundLedger : Nat) : Bytes :=
  env.host.sha256 (leBytes 16 (toU128 price) ++ salt ++ leBytes 4 roundLedger ++
    env.host.toXdr (.address source))

def getCommit (asset source : Address) (roundLedger : Nat) : Contract PriceCommit :=
  consult fun w => match w.store.stats.commits (asset, source, roundLedger) with
    | some commit => .ok commit
    | none => .error .commitNotFound

/-- Opens a commitment inside its reveal window and marks it as revealed. -/
def openCommit (source asset : Address) (price : Int) (salt : Bytes) (roundLedger : Nat) :
    Contract Unit := do
  let sequence ← getSequence
  let start ← readStore fun _ st => wrap32 (roundLedger + st.getCommitWindow)
  let stop ← readStore fun _ st => wrap32 (start + st.getRevealWindow)
  ensure (start ≤ sequence) .revealWindowClosed
  ensure (sequence < stop) .commitExpired
  let commit ← getCommit asset source roundLedger
  ensure (commit.revealed = false) .alreadyCommitted
  let expected ← readStore fun e _ => computeCommitHash e source price salt roundLedger
  ensure (expected = commit.hash) .commitHashMismatch
  modifyStats fun s => { s with
    commits := Function.update s.commits (asset, source, roundLedger)
      (some { commit with revealed := true }) }

def checkMinPrice (asset : Address) (price : Int) : Contract Unit := do
  let minPrice ← getMinPrice asset
  ensure (minPrice ≤ price) .priceBelowMinimum

/-- `_do_reveal`: of the acceptance gates only the minimum price is checked. -/
def doReveal (source asset : Address) (price : Int) (salt : Bytes) (roundLedger : Nat) :
    Contract Unit := do
  openCommit source asset price salt roundLedger
  ensure (0 < price) .invalidPrice
  checkMinPrice asset price
  let now ← getTimestamp
  storeSubmission asset source price now none
  recordCompliance asset source
  recordPriceSubmitted source
  aggregateAfterSubmission asset

def revealPrice (source asset : Address) (price : Int) (salt : Bytes) (roundLedger : Nat) :
    Contract Unit :=
  asSource source do
    checkRegisteredAsset asset
    doReveal source asset price salt roundLedger

/-- One element of a batch reveal: asset, price, salt, round ledger. -/
structure Reveal where
  asset : Address
  price : Int
  salt : Bytes
  roundLedger : Nat

def maxBatchReveals : Nat := 100

def maxSaltLength : Nat := 64

def revealOne (source : Address) (x : Reveal) : Contract Unit := do
  checkRegisteredAsset x.asset
  checkSourceAsset source x.asset
  ensure (x.salt.length ≤ maxSaltLength) .payloadTooLarge
  doReveal source x.asset x.price x.salt x.roundLedger

def revealPricesBatch (source : Address) (reveals : List Reveal) : Contract Unit :=
  asSource source do
    ensure (reveals.length ≤ maxBatchReveals) .invalidConfiguration
    forM reveals (revealOne source)

def hashLeaf (env : Env) (leaf : MerkleLeaf) : Bytes :=
  env.host.sha256 (leBytes 16 (toU128 leaf.price) ++ leBytes 8 leaf.timestamp)

def hashPair (env : Env) (left right : Bytes) : Bytes := env.host.sha256 (left ++ right)

/-- The path from a leaf towards the root; the shift by the level wraps at the width of the
bitmap. -/
def climb (env : Env) (leftBitmap : Nat) : Nat → Bytes → List Bytes → Bytes
  | _, current, [] => current
  | i, current, sibling :: rest =>
    climb env leftBitmap (i + 1)
      (if leftBitmap.testBit (i % 32) then hashPair env sibling current
        else hashPair env current sibling) rest

def verifyProof (env : Env) (root : Bytes) (proof : MerkleProof) : Bool :=
  climb env proof.leftBitmap 0 (hashLeaf env proof.leaf) proof.siblings = root

/-- The first phase of `submit_price_merkle`, for one proof. -/
def checkProof (root : Bytes) (proof : MerkleProof) : Contract Unit := do
  let valid ← readStore fun e _ => verifyProof e root proof
  ensure (valid = true) .invalidConfiguration
  checkRegisteredAsset proof.leaf.asset
  checkSourceAsset proof.leaf.source proof.leaf.asset
  ensure (0 < proof.leaf.price) .invalidPrice
  let late ← readStore fun e st => st.fromFuture e proof.leaf.timestamp
  ensure (late = false) .invalidTimestamp

/-- The entry is stored for the source the leaf names, not for the caller. -/
def storeLeaf (proof : MerkleProof) : Contract Unit :=
  storeSubmission proof.leaf.asset proof.leaf.source proof.leaf.price proof.leaf.timestamp none

def submitPriceMerkle (source : Address) (root : Bytes) (proofs : List MerkleProof) :
    Contract Unit := do
  ensure (proofs.length ≤ maxListLength) .payloadTooLarge
  asSource source do
    checkNotSuspended source .notAuthorized
    forM proofs (checkProof root)
    forM proofs storeLeaf
    forM proofs fun proof => doAggregate proof.leaf.asset

/-- The domain separator `price_proof_v2`. -/
def proofDomain : Bytes := [112, 114, 105, 99, 101, 95, 112, 114, 111, 111, 102, 95, 118, 50]

def hashProofPayload (env : Env) (source asset : Address) (nonce : Nat) (price : Int)
    (timestamp expirationLedger : Nat) : Bytes :=
  env.host.sha256 (proofDomain ++ env.host.networkId ++
    env.host.toXdr (.address env.host.contractAddress) ++ env.host.toXdr (.address source) ++
    env.host.toXdr (.address asset) ++ leBytes 8 nonce ++ leBytes 16 (toU128 price) ++
    leBytes 8 timestamp ++ leBytes 4 expirationLedger)

def readSubmissionKey (source : Address) : Contract Bytes :=
  consult fun w => match w.store.stats.submissionKey source with
    | some key => .ok key
    | none => .error .signingKeyNotRegistered

/-- The signature check; the host traps on a bad signature. -/
def checkSignature (source : Address) (digest : Env → Bytes) (signature : Bytes) :
    Contract Unit := do
  let key ← readSubmissionKey source
  let valid ← readStore fun e _ => e.host.ed25519Verify key (digest e) signature
  ensure (valid = true) .hostTrap

def checkSignedNonce (source : Address) (nonce : Nat) : Contract Unit := do
  let lastNonce ← readStore fun _ st => (st.stats.signedNonce source).getD 0
  ensure (lastNonce < nonce) .invalidNonce

def submitPriceWithProof (source asset : Address) (price : Int)
    (timestamp nonce expirationLedger : Nat) (signature : Bytes) : Contract Unit := do
  checkNotPaused
  checkSource source
  checkRegisteredAsset asset
  checkNotFrozen asset
  checkSourceAsset source asset
  checkNotSuspended source .notAuthorized
  let sequence ← getSequence
  ensure (sequence ≤ expirationLedger) .signatureExpired
  checkSignedNonce source nonce
  checkPositive source price
  checkSignature source
    (fun e => hashProofPayload e source asset nonce price timestamp expirationLedger) signature
  checkMinPrice asset price
  checkTimestamp source timestamp
  checkOrder asset source timestamp
  unlessTripped asset do
    modifyStats fun s => { s with
      signedNonce := Function.update s.signedNonce source (some nonce) }
    storeSubmission asset source price timestamp none
    recordSuccessfulSubmission source
    recordSubmissionForTriggers asset price
    doAggregate asset

def Store.hasValidRelayerDelegation (env : Env) (st : Store) (source relayer : Address) : Bool :=
  (st.relayers.delegationExpiry (source, relayer)).any fun expiry => env.sequence ≤ expiry

def checkRelayer (relayer source : Address) : Contract Unit := do
  let approved ← readStore fun e st =>
    st.config.approvedRelayer relayer || st.hasValidRelayerDelegation e source relayer
  ensure (approved = true) .relayerNotAuthorized
  let required ← readStore fun _ st => st.config.relayerBondAmount.getD 0
  let deposited ← readStore fun _ st => (st.relayers.bond relayer).getD 0
  ensure (¬(0 < required ∧ deposited < required)) .relayerBondInsufficient

/-- `accrue_relayer_submission_metrics`. -/
def accrueRelayerSubmissionMetrics (relayer : Address) (priorityFee : Nat) : Contract Unit := do
  let flatFee ← readStore fun _ st => st.config.relayerFeePerSubmission.getD 0
  let totalFee := satAdd flatFee (min (priorityFee : Int) i128Max)
  modifyRelayers fun r => { r with
    submissionCount := Function.update r.submissionCount relayer
      (some (satAdd64 ((r.submissionCount relayer).getD 0) 1))
    feeBalance := if 0 < totalFee then
        Function.update r.feeBalance relayer
          (some (satAdd ((r.feeBalance relayer).getD 0) totalFee))
      else r.feeBalance }

/-- `process_relayed_leg`; it does not ask whether the asset is frozen. The fee accrues only if the
submission was stored. -/
def processRelayedLeg (relayer : Address) (x : RelayedSubmission) : Contract Unit := do
  checkRelayer relayer x.source
  checkSource x.source
  checkRegisteredAsset x.asset
  checkSourceAsset x.source x.asset
  checkNotSuspended x.source .notAuthorized
  checkPositive x.source x.price
  checkMinPrice x.asset x.price
  checkTimestamp x.source x.timestamp
  unlessTripped x.asset do
    storeSubmission x.asset x.source x.price x.timestamp none
    recordSuccessfulSubmission x.source
    doAggregate x.asset
    accrueRelayerSubmissionMetrics relayer x.priorityFee

def submitPriceRelayed (relayer source asset : Address) (price : Int) (timestamp : Nat) :
    Contract Unit := do
  checkNotPaused
  requireAuth relayer
  requireAuth source
  processRelayedLeg relayer ⟨source, asset, price, timestamp, 0⟩

def maxBatchSize : Nat := 25

/-- `validate_fee_priority_order`. -/
def feePrioritized (submissions : List RelayedSubmission) : Bool :=
  (submissions.zip submissions.tail).all fun x => x.2.priorityFee ≤ x.1.priorityFee

def submitPricesRelayed (relayer : Address) (submissions : List RelayedSubmission) :
    Contract Unit := do
  ensure (submissions.length ≤ maxListLength) .payloadTooLarge
  checkNotPaused
  requireAuth relayer
  ensure (submissions ≠ []) .batchEmpty
  ensure (submissions.length ≤ maxBatchSize) .batchTooLarge
  ensure (feePrioritized submissions = true) .batchNotFeePrioritized
  forM submissions fun x => do
    requireAuth x.source
    processRelayedLeg relayer x

/-- The observation itself is kept for the comparison of chains only and is left out. -/
def recordReferencePrice (asset : Address) (price : Int) : Contract Unit := do
  checkRegisteredAsset asset
  ensure (0 < price) .invalidPrice

/-- `apply_bridged_price`, where every message of a bridge ends that passed the bridge's checks. -/
def applyBridgedPrice (bridgeSource asset : Address) (price : Int) (timestamp : Nat) :
    Contract Unit := do
  checkNotPaused
  checkSource bridgeSource
  checkRegisteredAsset asset
  checkSourceAsset bridgeSource asset
  checkNotSuspended bridgeSource .notAuthorized
  checkPositive bridgeSource price
  checkMinPrice asset price
  checkTimestamp bridgeSource timestamp
  unlessTripped asset do
    recordReferencePrice asset price
    storeSubmission asset bridgeSource price timestamp none
    recordSuccessfulSubmission bridgeSource
    recordSubmissionForTriggers asset price
    doAggregate asset

/-- One iteration of the loop of `rotate_source_key`: the submission moves to the new address. -/
def moveSubmission (source newAddress asset : Address) : Contract Unit := do
  let stored ← readStore fun _ st => st.submission (asset, source)
  match stored with
  | none => pure ()
  | some entry => do
    update fun w => { w with store := { w.store with
      submission := Function.update w.store.submission (asset, source) none } }
    writeSubmission asset newAddress { entry with source := newAddress }

/-- The loop of `rotate_source_key` over the registered assets. -/
def moveSubmissions (source newAddress : Address) : Contract Unit := do
  let assets ← readStore fun _ st => st.registry.assets
  forM assets (moveSubmission source newAddress)

/-- The insertion of `enqueue_submission`: higher fees first, then earlier timestamps. -/
def enqueue (x : FeeMarketSubmission) : List FeeMarketSubmission → List FeeMarketSubmission
  | [] => [x]
  | y :: ys =>
    if y.priorityFee < x.priorityFee ∨
        x.priorityFee = y.priorityFee ∧ x.timestamp < y.timestamp then x :: y :: ys
    else y :: enqueue x ys

def enqueueSubmission (source asset : Address) (price : Nat) (timestamp priorityFee : Nat) :
    Contract Unit := do
  requireAuth source
  let active ← readStore fun _ st => (st.registry.srcActive source).getD false
  ensure (active = true) .sourceNotFound
  checkRegisteredAsset asset
  ensure (price ≠ 0) .invalidPrice
  let minFee ← readStore fun _ st => st.config.fmMinPriorityFee.getD 0
  ensure (minFee ≤ priorityFee) .feeMarketBelowMinimum
  let sequence ← getSequence
  modifyFeeMarket fun m => { m with
    pending := enqueue ⟨source, asset, wrap price, timestamp, priorityFee, sequence⟩ m.pending
    feePool := some (min (m.feePool.getD 0 + priorityFee) u128Max) }

def submitPriceInternal (source asset : Address) (price : Int) (timestamp : Nat) :
    Contract Unit := do
  checkSource source
  checkRegisteredAsset asset
  checkSourceAsset source asset
  enforceCommitRevealForBft
  ensure (0 < price) .invalidPrice
  unlessTripped asset do
    storeSubmission asset source price timestamp none
    recordSuccessfulSubmission source
    aggregateAfterSubmission asset

/-- The split of a priority fee between the source and the treasury. -/
def distributeFee (source : Address) (fee : Nat) : Contract Unit := do
  let ratio ← readStore fun _ st => st.config.fmFeeDistributionRatio.getD 80
  let sourceShare := min (fee * ratio) u128Max / 100
  modifyFeeMarket fun m => { m with
    sourceFeeBalance := Function.update m.sourceFeeBalance source
      (some (min ((m.sourceFeeBalance source).getD 0 + sourceShare) u128Max))
    treasuryBalance := some (min (m.treasuryBalance.getD 0 + (fee - sourceShare)) u128Max) }

def processSubmission (x : FeeMarketSubmission) : Contract Unit := do
  submitPriceInternal x.source x.asset x.price x.timestamp
  distributeFee x.source x.priorityFee

def maxProcessPerLedger : Nat := 20

/-- `process_fee_market`: callable by anyone, also while the contract is paused. -/
def processFeeMarket : Contract Unit := do
  let pending ← readStore fun _ st => st.feeMarket.pending
  forM (pending.take maxProcessPerLedger) processSubmission
  modifyFeeMarket fun m => { m with pending := pending.drop maxProcessPerLedger }

def Store.getFeeDistributionRatio (st : Store) : Nat := st.config.fmFeeDistributionRatio.getD 80

def setMinPriorityFee (minFee : Nat) : Contract Unit := asAdmin do
  modifyConfig fun c => { c with fmMinPriorityFee := some minFee }

def setFeeDistributionRatio (ratio : Nat) : Contract Unit := asAdmin do
  ensure (ratio ≤ 100) .invalidConfiguration
  modifyConfig fun c => { c with fmFeeDistributionRatio := some ratio }

end PriceOracle.Model

/-! ## The settings and the penalties of commit and reveal

The windows are counted in ledgers from the start of a round. -/

namespace PriceOracle.Model

open Lib.Transaction Lib.MachineInt

def Store.getCommitRevealSlashAmount (st : Store) : Int := st.config.commitRevealSlashAmount.getD 0

def setCommitWindow (ledgers : Nat) : Contract Unit := asAdmin do
  ensure (ledgers ≠ 0) .invalidConfiguration
  modifyConfig fun c => { c with commitWindow := some ledgers }

def setRevealWindow (ledgers : Nat) : Contract Unit := asAdmin do
  ensure (ledgers ≠ 0) .invalidConfiguration
  modifyConfig fun c => { c with revealWindow := some ledgers }

def setCommitRevealSlashAmount (amount : Int) : Contract Unit := asAdmin do
  modifyConfig fun c => { c with commitRevealSlashAmount := some amount }

def writeSourceBond (source : Address) (bond : Int) : Contract Unit :=
  update fun w => { w with store := { w.store with registry := { w.store.registry with
    sourceBond := Function.update w.store.registry.sourceBond source (some bond) } } }

def creditTreasury (amount : Int) : Contract Unit :=
  update fun w => { w with store := { w.store with
    treasury := some (satAdd (w.store.treasury.getD 0) amount) } }

def removeCommit (asset source : Address) (roundLedger : Nat) : Contract Unit :=
  modifyStats fun s => { s with
    commits := Function.update s.commits (asset, source, roundLedger) none }

/-- The ledger at which the reveal window of a round closes. -/
def Store.revealEnd (st : Store) (roundLedger : Nat) : Nat :=
  wrap32 (wrap32 (roundLedger + st.getCommitWindow) + st.getRevealWindow)

/-- What a penalty takes from the bond of `source`. -/
def Store.actualSlash (st : Store) (source : Address) : Int :=
  min (st.getSourceDepositedBond source) st.getCommitRevealSlashAmount

/-- `slash_expired_commits`: callable by anyone, also while the contract is paused. -/
def slashExpiredCommits (asset source : Address) (roundLedger : Nat) : Contract Unit := do
  let sequence ← getSequence
  let stop ← readStore fun _ st => st.revealEnd roundLedger
  ensure (stop ≤ sequence) .commitExpired
  let commit ← getCommit asset source roundLedger
  ensure (commit.revealed = false) .commitExpired
  let amount ← readStore fun _ st => st.getCommitRevealSlashAmount
  ensure (0 < amount) .slashFailed
  let bond ← readStore fun _ st => st.getSourceDepositedBond source
  let actual ← readStore fun _ st => st.actualSlash source
  ensure (0 < actual) .slashFailed
  writeSourceBond source (satSub bond actual)
  creditTreasury actual
  removeCommit asset source roundLedger

end PriceOracle.Model
