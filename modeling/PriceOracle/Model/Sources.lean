import PriceOracle.Model.Custody
import PriceOracle.Model.Operations

/-! # The source registry

Registration, removal and key rotation of sources, their heartbeats, the approval of new sources
and their enrollment. -/

namespace PriceOracle.Model

open Lib.Transaction Lib.MachineInt

def maxSourceNameLength : Nat := 64

namespace Registry

variable (r : Registry)

/-- A source is listed when it becomes active. A listed source that is not active occurs in no
contract; it would keep its place. -/
def addSource (source : Address) : Registry :=
  if h : source ∈ r.sources then
    { r with srcActive := Function.update r.srcActive source (some true) }
  else { r with
    srcActive := Function.update r.srcActive source (some true)
    sources := r.sources ++ [source]
    sources_distinct := decide_eq_true (List.nodup_append.2
      ⟨r.sources_nodup, List.nodup_singleton source, fun a ha b hb => by
        rw [List.mem_singleton.1 hb]
        rintro rfl
        exact h ha⟩) }

/-- The new address takes the place of the old one in the list, unless it is in the list. -/
def renameSource (source newAddress : Address) : Registry :=
  let active := Function.update (Function.update r.srcActive source none) newAddress (some true)
  if h : newAddress ∈ r.sources then { r with srcActive := active }
  else { r with
    srcActive := active
    sources := r.sources.map fun s => if s = source then newAddress else s
    sources_distinct := by
      refine decide_eq_true (r.sources_nodup.map_on fun a ha b hb hab => ?_)
      split_ifs at hab with has hbs hbs
      · rw [has, hbs]
      · exact absurd (hab ▸ hb) h
      · exact absurd (hab ▸ ha) h
      · exact hab }

end Registry

def modifyRegistry (f : Registry → Registry) : Contract Unit :=
  update fun w => { w with store := { w.store with registry := f w.store.registry } }

/-- `sources::is_source`. -/
def Store.isSource (st : Store) (source : Address) : Bool :=
  (st.registry.srcActive source).getD false

/-- `source_lifecycle::check_not_revoked`. -/
def checkNotRevoked (source : Address) : Contract Unit := do
  let revoked ← readStore fun _ st => st.sources.revokedAddress source
  ensure (revoked = false) .identityRevoked

def checkSourceName (name : Text) : Contract Unit := do
  ensure (name ≠ []) .sourceNameEmpty
  ensure (name.length ≤ maxSourceNameLength) .sourceNameTooLong

def registerSourceInternal (source : Address) (name : Text) : Contract Unit := do
  checkNotRevoked source
  checkSourceName name
  let existing ← readStore fun _ st => (st.registry.srcActive source).isSome
  ensure (existing = false) .sourceAlreadyExists
  let full ← readStore fun _ st =>
    decide (0 < st.getMaxSources ∧ st.getMaxSources ≤ st.registry.sources.length)
  ensure (full = false) .maxSourcesReached
  modifyRegistry fun r => r.addSource source
  modifySources fun r => { r with metadata := Function.update r.metadata source (some name) }

/-- Whether new sources need the approval of others. -/
def Store.governed (st : Store) : Bool := st.sources.governance.any fun gov => 0 < gov.threshold

def addSource (source : Address) (name : Text) : Contract Unit := asAdmin do
  let governed ← readStore fun _ st => st.governed
  ensure (governed = false) .notAuthorized
  registerSourceInternal source name

def addSourceWithAssets (source : Address) (name : Text) (assets : List Address) : Contract Unit :=
  asAdmin do
    forM assets checkRegisteredAsset
    registerSourceInternal source name
    setOptional (.sourceAssets source assets)

/-- A pending enrollment is dropped first; without a registration there is nothing else to remove. -/
def removeSource (source : Address) : Contract Unit := asAdmin do
  let enrolled ← readStore fun _ st => (st.sources.enrollment source).isSome
  let known ← readStore fun _ st => (st.registry.srcActive source).isSome
  modifySources fun r => { r with enrollment := Function.update r.enrollment source none }
  if enrolled = true ∧ known = false then pure ()
  else do
    removeSourceInner source
    recomputeSourceChange source

/-- `recompute::recompute_all`. -/
def recomputeAll : Contract Unit := do
  let assets ← readStore fun _ st => st.registry.assets
  recomputeBounded assets

def removeSources (sources : List Address) : Contract Unit := asAdmin do
  ensure (sources ≠ []) .invalidConfiguration
  forM sources removeSourceInner
  recomputeAll

def Store.getRemovalCooldown (st : Store) : Nat := st.sources.removalCooldown.getD 100

/-- The record it asks for is one that no function writes. -/
def markSourceForRemoval (source : Address) : Contract Unit := asAdmin do
  let known ← readStore fun _ st => st.sources.legacySource source
  ensure (known = true) .sourceNotFound
  let cooldown ← readStore fun _ st => st.getRemovalCooldown
  let sequence ← getSequence
  modifySources fun r => { r with
    pendingRemoval := Function.update r.pendingRemoval source (some (wrap32 (sequence + cooldown))) }

/-- The source leaves the list; it stays active. -/
def finalizeSourceRemoval (source : Address) : Contract Unit := asAdmin do
  let eligibleAt ← consult fun w => match w.store.sources.pendingRemoval source with
    | some eligibleAt => .ok eligibleAt
    | none => .error .sourceNotPendingRemoval
  let sequence ← getSequence
  ensure (eligibleAt ≤ sequence) .cooldownNotElapsed
  modifySources fun r => { r with
    pendingRemoval := Function.update r.pendingRemoval source none
    legacySource := Function.update r.legacySource source false }
  unlistSource source

def Store.getMaxInactiveLedgers (st : Store) : Nat := st.sources.maxInactiveLedgers.getD 64

/-- The sources that have been inactive for too long. -/
def Store.prunable (env : Env) (st : Store) : List Address :=
  st.registry.sources.filter fun source => st.isSourceInactive source &&
    (st.heartbeats.inactiveSinceLedger source).any fun since =>
      st.getMaxInactiveLedgers ≤ env.sequence - since

def Store.activeCount (st : Store) : Nat :=
  (st.registry.sources.filter fun source => !st.isSourceInactive source).length

/-- `_remove_source_internal`. -/
def removeSourceInternal (source : Address) : Contract Unit := do
  modifyRegistry fun r => { r with srcActive := Function.update r.srcActive source none }
  unlistSource source
  removeOptional (.sourceInactive source)
  modifyHeartbeats fun h => { h with
    missedHeartbeats := Function.update h.missedHeartbeats source none
    inactiveSinceLedger := Function.update h.inactiveSinceLedger source none }
  modifyStats fun s => { s with
    lastPriceLedger := Function.update s.lastPriceLedger source none
    priceSubmitAfterReactivation :=
      Function.update s.priceSubmitAfterReactivation source false }

/-- The removal of the candidates, until too few sources would be active; it counts them. -/
def pruneCandidates (minRequired : Nat) : List Address → Nat → Contract Nat
  | [], count => pure count
  | source :: rest, count => do
    let active ← readStore fun _ st => st.activeCount
    if active < minRequired then pure count
    else do
      removeSourceInternal source
      pruneCandidates minRequired rest (count + 1)

def checkAndPruneInactiveSources : Contract Nat := do
  let minRequired ← getMinSourcesRequired
  let candidates ← readStore fun e st => st.prunable e
  pruneCandidates minRequired candidates 0

def resetMissedHeartbeats (source : Address) : Contract Unit :=
  modifyHeartbeats fun h => { h with
    missedHeartbeats := Function.update h.missedHeartbeats source none }

/-- What a heartbeat does for a source that is marked inactive: it takes a price as well. -/
def reactivate (source : Address) : Contract Unit := do
  let hasPrice ← readStore fun _ st => st.stats.priceSubmitAfterReactivation source
  if hasPrice then do
    markSourceActive source
    resetMissedHeartbeats source
    modifyStats fun s => { s with
      priceSubmitAfterReactivation :=
        Function.update s.priceSubmitAfterReactivation source false }
    modifyHeartbeats fun h => { h with
      inactiveSinceLedger := Function.update h.inactiveSinceLedger source none }
  else pure ()

def submitHeartbeat (source : Address) : Contract Unit := do
  requireAuth source
  checkIsSource source
  let timestamp ← getTimestamp
  let sequence ← getSequence
  modifyHeartbeats fun h => { h with
    heartbeat := Function.update h.heartbeat source (some timestamp) }
  let wasInactive ← readStore fun _ st => st.isSourceInactive source
  if wasInactive then reactivate source else resetMissedHeartbeats source
  modifyStats fun s => { s with
    lastPriceLedger := Function.update s.lastPriceLedger source (some sequence) }

/-- Every source that is listed is asked about. -/
def getInactiveSources : Contract Nat := do
  let sources ← readStore fun _ st => st.registry.sources
  sources.foldlM (fun count source => do
    let inactive ← isSourceInactive source
    pure (if inactive then count + 1 else count)) 0

def setSourceGovernance (approvers : List Address) (threshold : Nat) : Contract Unit := asAdmin do
  ensure (threshold ≤ approvers.length) .invalidGovernanceConfig
  ensure (¬(threshold = 0 ∧ approvers ≠ [])) .invalidGovernanceConfig
  modifySources fun r => { r with governance := some ⟨approvers, threshold⟩ }

/-- The configuration in force, for a caller who is one of its approvers. -/
def requireApprover (caller : Address) : Contract SourceGovernance := do
  let gov ← consult fun w => match w.store.sources.governance with
    | some gov => .ok gov
    | none => .error .notAuthorized
  ensure (gov.threshold ≠ 0) .notAuthorized
  ensure (caller ∈ gov.approvers) .notAuthorized
  pure gov

def proposeSource (proposer source : Address) (name : Text) : Contract Nat := do
  requireAuth proposer
  validateString 64 false name
  let _ ← requireApprover proposer
  let count ← readStore fun _ st => st.sources.proposalCount.getD 0
  let proposalId := satAdd32 count 1
  modifySources fun r => { r with
    proposalCount := some proposalId
    proposal := Function.update r.proposal proposalId
      (some ⟨proposalId, source, name, [], false⟩) }
  pure proposalId

def writeSourceProposal (proposal : SourceProposal) (proposalId : Nat) : Contract Unit :=
  modifySources fun r => { r with
    proposal := Function.update r.proposal proposalId (some proposal) }

/-- An approval counts whether or not its approver still is one when the threshold is reached. -/
def approveSource (approver : Address) (proposalId : Nat) : Contract Unit := do
  requireAuth approver
  let gov ← requireApprover approver
  let proposal ← consult fun w => match w.store.sources.proposal proposalId with
    | some proposal => .ok proposal
    | none => .error .proposalNotFound
  ensure (proposal.executed = false) .proposalAlreadyExecuted
  ensure (approver ∉ proposal.approvals) .alreadyApproved
  let approvals := proposal.approvals ++ [approver]
  if gov.threshold ≤ approvals.length then do
    registerSourceInternal proposal.source proposal.name
    writeSourceProposal { proposal with approvals := approvals, executed := true } proposalId
  else writeSourceProposal { proposal with approvals := approvals } proposalId

def SourceEnrollment.complete (e : SourceEnrollment) : Bool :=
  e.identityEvidence ≠ [] && e.endpointOwnershipEvidence ≠ [] && e.operationalContact ≠ [] &&
    e.reliabilityEvidence ≠ []

def enrollSource (source : Address) (name : Text) : Contract Unit := asAdmin do
  checkSourceName name
  let existing ← readStore fun _ st =>
    (st.sources.enrollment source).isSome || (st.registry.srcActive source).isSome
  ensure (existing = false) .sourceAlreadyExists
  modifySources fun r => { r with
    enrollment := Function.update r.enrollment source (some ⟨name, [], [], [], []⟩) }

def readEnrollment (source : Address) : Contract SourceEnrollment :=
  consult fun w => match w.store.sources.enrollment source with
    | some enrollment => .ok enrollment
    | none => .error .sourceNotFound

def submitSourceEvidence (source : Address) (identity endpointOwnership contact reliability : Text) :
    Contract Unit := do
  requireAuth source
  let enrollment ← readEnrollment source
  let evidenced : SourceEnrollment :=
    ⟨enrollment.name, identity, endpointOwnership, contact, reliability⟩
  ensure (evidenced.complete = true) .sourceEvidenceMissing
  modifySources fun r => { r with
    enrollment := Function.update r.enrollment source (some evidenced) }

def activateSource (source : Address) : Contract Unit := asAdmin do
  let enrollment ← readEnrollment source
  ensure (enrollment.complete = true) .sourceEvidenceMissing
  registerSourceInternal source enrollment.name

end PriceOracle.Model
