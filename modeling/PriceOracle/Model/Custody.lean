import PriceOracle.Model.OptionalSettings

/-! # Stakes, source bonds and the treasury

What the contract holds for others. The tokens are contracts outside: a transfer asks the host, and
is refused where the host has none. -/

namespace PriceOracle.Model

open Lib.Transaction Lib.MachineInt

/-- `token::Client::transfer`. -/
def transferToken (token sender recipient : Address) (amount : Int) : Contract Unit := do
  let moved ← consult fun w =>
    match w.env.host.transfer token sender recipient amount w.store.custody.balance with
    | some balance => .ok balance
    | none => .error .hostTrap
  modifyCustody fun c => { c with balance := moved }

/-- A transfer ends with the balances that the host answers, or panics. -/
@[simp] theorem sat_transferToken (token sender recipient : Address) (amount : Int) {w : World}
    (Q : Unit → World → Prop) :
    Sat (transferToken token sender recipient amount) w Q ↔
      ∀ b, w.env.host.transfer token sender recipient amount w.store.custody.balance = some b →
        Q () { w with store := { w.store with custody := { w.store.custody with balance := b } } } := by
  simp only [transferToken,sat_bind,sat_consult,modifyCustody,sat_update]
  cases w.env.host.transfer token sender recipient amount w.store.custody.balance with
  | none => simp
  | some b => simp

/-- `token::Client::try_transfer` where the outcome is dropped. -/
def tryTransferToken (token sender recipient : Address) (amount : Int) : Contract Unit := do
  let moved ← readStore fun e st =>
    (e.host.transfer token sender recipient amount st.custody.balance).getD st.custody.balance
  modifyCustody fun c => { c with balance := moved }

def getContractAddress : Contract Address := readStore fun e _ => e.host.contractAddress

def getStakeTokenContract : Contract Address :=
  consult fun w => match w.store.custody.stakeToken with
    | some token => .ok token
    | none => .error .stakeTokenNotConfigured

/-- The part of `amount` that a slash of `percent` takes: at least one unit, at most all of it. -/
def slashAmount (percent : Nat) (amount : Int) : Int :=
  min (max ((wrapMul amount percent).tdiv 100) 1) amount

def Store.getStake (st : Store) (source : Address) : Int :=
  ((st.custody.stake source).map SourceStakeRecord.amount).getD 0

def writeStake (source : Address) (amount : Int) : Contract Unit := do
  let sequence ← getSequence
  modifyCustody fun c => { c with
    stake := Function.update c.stake source (some ⟨amount, sequence⟩) }

def stakeSource (source : Address) (amount : Int) (token : Address) : Contract Unit := do
  requireAuth source
  ensure (0 < amount) .invalidPrice
  let this ← getContractAddress
  transferToken token source this amount
  let existing ← readStore fun _ st => st.getStake source
  writeStake source (satAdd existing amount)

/-- The record goes also when no token is configured or the transfer fails. -/
def unstakeSource (source : Address) : Contract Unit := do
  let record ← readStore fun _ st => st.custody.stake source
  match record with
  | none => pure ()
  | some r => do
    let token ← readStore fun _ st => st.custody.stakeToken
    let this ← getContractAddress
    match token with
    | some token => if 0 < r.amount then tryTransferToken token this source r.amount else pure ()
    | none => pure ()
    modifyCustody fun c => { c with stake := Function.update c.stake source none }

/-- The score, cast to an unsigned word. -/
def Store.getReputation (st : Store) (source : Address) : Nat :=
  (((st.custody.reputation source).getD 50) % 2 ^ 32).toNat

def Store.getSlashThreshold (st : Store) : Nat := st.custody.slashThreshold.getD 20

def Store.getSlashPercent (st : Store) : Nat := st.custody.slashPercent.getD 20

def slashSource (source : Address) (force : Bool) : Contract Unit := asAdmin do
  let eligible ← readStore fun _ st => decide (st.getReputation source < st.getSlashThreshold)
  ensure (force = true ∨ eligible = true) .reputationTooHighToSlash
  let amount ← readStore fun _ st => st.getStake source
  if amount = 0 then pure ()
  else do
    let percent ← readStore fun _ st => st.getSlashPercent
    writeStake source (amount - slashAmount percent amount)
    creditTreasury (slashAmount percent amount)

def sweepTreasury (recipient : Address) : Contract Unit := asAdmin do
  let balance ← readStore fun _ st => st.treasury.getD 0
  let token ← readStore fun _ st => st.custody.stakeToken
  let this ← getContractAddress
  match token with
  | some token =>
    if balance ≤ 0 then pure ()
    else do
      transferToken token this recipient balance
      update fun w => { w with store := { w.store with treasury := some 0 } }
  | none => pure ()

def depositSourceBond (source : Address) : Contract Unit := do
  requireAuth source
  let known ← readStore fun _ st => (st.registry.srcActive source).isSome
  ensure (known = true) .sourceNotFound
  let required ← readStore fun _ st => st.getSourceBond
  let deposited ← readStore fun _ st => st.getSourceDepositedBond source
  if required ≤ 0 ∨ required ≤ deposited then pure ()
  else do
    let token ← getStakeTokenContract
    let this ← getContractAddress
    transferToken token source this (wrapSub required deposited)
    writeSourceBond source required
    let inactive ← readStore fun _ st => st.isSourceInactive source
    if inactive then markSourceActive source else pure ()

def forfeitSourceBondInternal (source : Address) : Contract Unit := do
  let deposited ← readStore fun _ st => st.getSourceDepositedBond source
  if 0 < deposited then do
    update fun w => { w with store := { w.store with
      treasury := some (wrapAdd (w.store.treasury.getD 0) deposited) } }
    writeSourceBond source 0
  else pure ()

def missThreshold : Nat := 3

def Store.getHeartbeatWindow (st : Store) : Nat := st.config.heartbeatWindow.getD 10

/-- The heartbeat interval grows with the heartbeats missed, up to three times. -/
def computeAdaptiveInterval (baseInterval missed window : Nat) : Nat :=
  let window := if window = 0 then 1 else window
  let multiplier := min (satAdd64 window missed / window) 3
  min (baseInterval * if multiplier = 0 then 1 else multiplier) u64Max

def Store.getMissedHeartbeats (st : Store) (source : Address) : Nat :=
  (st.heartbeats.missedHeartbeats source).getD 0

def incrementMissedHeartbeats (source : Address) : Contract Nat := do
  let count ← readStore fun _ st => satAdd32 (st.getMissedHeartbeats source) 1
  modifyHeartbeats fun h => { h with
    missedHeartbeats := Function.update h.missedHeartbeats source (some count) }
  pure count

/-- Only the first trip is recorded. -/
def noteInactiveSince (source : Address) : Contract Unit := do
  let sequence ← getSequence
  modifyHeartbeats fun h => { h with
    inactiveSinceLedger := Function.update h.inactiveSinceLedger source
      (some ((h.inactiveSinceLedger source).getD sequence)) }

/-- A source is overdue when its last heartbeat, or the start of time, is too long ago. -/
def Store.overdue (env : Env) (st : Store) (source : Address) : Bool :=
  match st.heartbeats.heartbeat source with
  | some hbTime => decide (satAdd64 hbTime (computeAdaptiveInterval st.getHeartbeatInterval
      (st.getMissedHeartbeats source) st.getHeartbeatWindow) < env.timestamp)
  | none => decide (st.getHeartbeatInterval < env.timestamp)

/-- `storage::mark_source_inactive`. -/
def markSourceInactive (source : Address) : Contract Unit := setOptional (.sourceInactive source)

/-- The assets a change of a source affects are recomputed at once. -/
def recomputeSourceChange (source : Address) : Contract Unit := do
  let assets ← readStore fun _ st => st.affectedAssets source
  recomputeBounded assets

/-- What follows the third missed deadline: the bond is forfeited, and the source leaves the
aggregates at once, only if it has ever sent a heartbeat. -/
def tripInactive (source : Address) (beaten : Bool) : Contract Unit := do
  markSourceInactive source
  updateGuards fun g => { g with anySourceExcluded := true }
  if beaten then do
    forfeitSourceBondInternal source
    noteInactiveSince source
    recomputeSourceChange source
  else noteInactiveSince source

/-- `sources::is_source_inactive`: every query of an overdue source counts a missed heartbeat. -/
def isSourceInactive (source : Address) : Contract Bool := do
  let marked ← readStore fun _ st => st.isSourceInactive source
  let overdue ← readStore fun e st => st.overdue e source
  if marked then pure true
  else if overdue then do
    let beaten ← readStore fun _ st => (st.heartbeats.heartbeat source).isSome
    let missed ← incrementMissedHeartbeats source
    if missThreshold ≤ missed then do
      tripInactive source beaten
      pure true
    else pure false
  else pure false

/-- `source` leaves the list of the registry. -/
def unlistSource (source : Address) : Contract Unit := do
  update fun w => { w with store := { w.store with registry := { w.store.registry with
    sources := w.store.registry.sources.filter fun s => s ≠ source
    sources_distinct := decide_eq_true (w.store.registry.sources_nodup.filter _) } } }
  modifySources fun r => { r with metadata := Function.update r.metadata source none }

/-- The registration keys of a source that is removed. -/
def deregisterSource (source : Address) : Contract Unit := do
  update fun w => { w with store := { w.store with registry := { w.store.registry with
    srcActive := Function.update w.store.registry.srcActive source none } } }
  modifyStats fun s => { s with submissionKey := Function.update s.submissionKey source none }
  unlistSource source
  modifySources fun r => { r with
    verification := Function.update r.verification source none
    verificationKey := Function.update r.verificationKey source none }
  removeOptional (.sourceAssets source)

/-- An active source has its bond sent back, an inactive one forfeits it; the record goes in either
case. -/
def removeSourceInner (source : Address) : Contract Unit := asAdmin do
  let known ← readStore fun _ st => (st.registry.srcActive source).isSome
  ensure (known = true) .sourceNotFound
  let inactive ← isSourceInactive source
  let deposited ← readStore fun _ st => st.getSourceDepositedBond source
  if 0 < deposited then do
    let token ← readStore fun _ st => st.custody.stakeToken
    let this ← getContractAddress
    if inactive then forfeitSourceBondInternal source
    else match token with
      | some token => tryTransferToken token this source deposited
      | none => pure ()
    update fun w => { w with store := { w.store with registry := { w.store.registry with
      sourceBond := Function.update w.store.registry.sourceBond source none } } }
  else pure ()
  deregisterSource source

end PriceOracle.Model

/-! ## Relayers

Who may relay for a source, the bonds of the relayers, and the challenge of what they relayed. -/

namespace PriceOracle.Model

open Lib.Transaction Lib.MachineInt

def Store.isRelayer (st : Store) (relayer : Address) : Bool := st.config.approvedRelayer relayer

/-- The name of the relayer, and the registry of all relayers, are left out. -/
def addRelayer (relayer : Address) : Contract Unit := asAdmin do
  let known ← readStore fun _ st => st.isRelayer relayer
  ensure (known = false) .relayerAlreadyExists
  modifyConfig fun c => { c with
    approvedRelayer := Function.update c.approvedRelayer relayer true }

def removeRelayer (relayer : Address) : Contract Unit := asAdmin do
  let known ← readStore fun _ st => st.isRelayer relayer
  ensure (known = true) .relayerNotAuthorized
  modifyConfig fun c => { c with
    approvedRelayer := Function.update c.approvedRelayer relayer false }

/-- The domain separator `source_relayer_delegation_v2`. -/
def delegationDomain : Bytes :=
  [115, 111, 117, 114, 99, 101, 95, 114, 101, 108, 97, 121, 101, 114, 95, 100, 101, 108, 101, 103,
    97, 116, 105, 111, 110, 95, 118, 50]

def hashRelayerDelegationPayload (env : Env) (source relayer : Address)
    (nonce expirationLedger : Nat) : Bytes :=
  env.host.sha256 (delegationDomain ++ env.host.networkId ++
    env.host.toXdr (.address env.host.contractAddress) ++ leBytes 8 nonce ++
    env.host.addressString source ++ env.host.addressString relayer ++ leBytes 4 expirationLedger)

def delegateRelayer (source relayer : Address) (nonce expirationLedger : Nat)
    (signature : Bytes) : Contract Unit := do
  checkSource source
  let sequence ← getSequence
  ensure (sequence ≤ expirationLedger) .signatureExpired
  let lastNonce ← readStore fun _ st => (st.relayers.delegationNonce source).getD 0
  ensure (lastNonce < nonce) .invalidNonce
  checkSignature source
    (fun e => hashRelayerDelegationPayload e source relayer nonce expirationLedger) signature
  modifyRelayers fun r => { r with
    delegationExpiry :=
      Function.update r.delegationExpiry (source, relayer) (some expirationLedger)
    delegationNonce := Function.update r.delegationNonce source (some nonce) }

def Store.getRelayerBondBalance (st : Store) (relayer : Address) : Int :=
  (st.relayers.bond relayer).getD 0

def Store.getRelayerBondAmount (st : Store) : Int := st.config.relayerBondAmount.getD 0

def Store.getRelayerFailureCount (st : Store) (relayer : Address) : Nat :=
  (st.custody.relayerFailureCount relayer).getD 0

def Store.getRelayerSlashPercent (st : Store) : Nat := st.custody.relayerSlashPercent.getD 20

def Store.getRelayerFailureThreshold (st : Store) : Nat :=
  st.custody.relayerFailureThreshold.getD 3

def writeRelayerBond (relayer : Address) (bond : Int) : Contract Unit :=
  modifyRelayers fun r => { r with bond := Function.update r.bond relayer (some bond) }

def writeRelayerFailureCount (relayer : Address) (count : Nat) : Contract Unit :=
  modifyCustody fun c => { c with
    relayerFailureCount := Function.update c.relayerFailureCount relayer (some count) }

/-- Only the shortfall is transferred. -/
def depositRelayerBond (relayer : Address) : Contract Unit := do
  requireAuth relayer
  let approved ← readStore fun _ st => st.isRelayer relayer
  ensure (approved = true) .relayerNotAuthorized
  let required ← readStore fun _ st => st.getRelayerBondAmount
  let current ← readStore fun _ st => st.getRelayerBondBalance relayer
  if required ≤ 0 ∨ required ≤ current then pure ()
  else do
    let token ← getStakeTokenContract
    let this ← getContractAddress
    transferToken token relayer this (wrapSub required current)
    writeRelayerBond relayer required

/-- The bond stays locked while a failure report is outstanding. -/
def withdrawRelayerBond (relayer : Address) : Contract Unit := do
  requireAuth relayer
  let deposited ← readStore fun _ st => st.getRelayerBondBalance relayer
  if deposited ≤ 0 then pure ()
  else do
    let failures ← readStore fun _ st => st.getRelayerFailureCount relayer
    ensure (failures = 0) .relayerBondLocked
    let token ← getStakeTokenContract
    let this ← getContractAddress
    transferToken token this relayer deposited
    writeRelayerBond relayer 0

/-- The reason of the report is only published. -/
def recordRelayerFailure (relayer : Address) : Contract Unit := asAdmin do
  let approved ← readStore fun _ st => st.isRelayer relayer
  ensure (approved = true) .relayerNotAuthorized
  let count ← readStore fun _ st => st.getRelayerFailureCount relayer
  writeRelayerFailureCount relayer (satAdd32 count 1)

def slashRelayer (relayer : Address) (force : Bool) : Contract Unit := asAdmin do
  let eligible ← readStore fun _ st =>
    decide (st.getRelayerFailureThreshold ≤ st.getRelayerFailureCount relayer)
  ensure (force = true ∨ eligible = true) .relayerFailureThresholdMiss
  let deposited ← readStore fun _ st => st.getRelayerBondBalance relayer
  if deposited ≤ 0 then pure ()
  else do
    let percent ← readStore fun _ st => st.getRelayerSlashPercent
    writeRelayerBond relayer (deposited - slashAmount percent deposited)
    creditTreasury (slashAmount percent deposited)
    writeRelayerFailureCount relayer 0

/-- The authorization of a relayer for a source, at the current ledger. -/
def Store.validAuth (env : Env) (st : Store) (source relayer : Address) : Bool :=
  st.isRelayer relayer || st.hasValidRelayerDelegation env source relayer

def creditChallenger (challenger : Address) (reward : Int) : Contract Unit :=
  modifyCustody fun c => { c with
    challengerRewards := Function.update c.challengerRewards challenger
      (some (satAdd ((c.challengerRewards challenger).getD 0) reward)) }

/-- Anyone may challenge, and neither the price nor the timestamp of the submission is used. -/
def challengeRelayedSubmission (challenger relayer source asset : Address) (_price : Int)
    (_timestamp : Nat) (proofData : Bytes) : Contract Unit := do
  checkSource source
  checkRegisteredAsset asset
  checkSourceAsset source asset
  let validAuth ← readStore fun e st => st.validAuth e source relayer
  ensure (validAuth = false) .notAuthorized
  ensure (proofData ≠ []) .invalidProof
  let bond ← readStore fun _ st => st.getRelayerBondBalance relayer
  ensure (0 < bond) .insufficientBond
  let percent ← readStore fun _ st => st.getRelayerSlashPercent
  writeRelayerBond relayer (bond - slashAmount percent bond)
  creditTreasury (slashAmount percent bond)
  creditChallenger challenger ((slashAmount percent bond).tdiv 2)
  let approved ← readStore fun _ st => st.isRelayer relayer
  if approved then recordRelayerFailure relayer else pure ()

end PriceOracle.Model
