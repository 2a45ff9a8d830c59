import PriceOracle.Model.Sources

/-! # Onboarding and offboarding of sources

A source that is onboarded is bound to an identity and starts on probation. Key rotation takes the
record along; offboarding withdraws what was derived from the source and revokes its address and
identity. -/

namespace PriceOracle.Model

open Lib.Transaction Lib.MachineInt

def defaultProbationSecs : Nat := 7 * 86400

def Store.getLifecycleConfig (st : Store) : LifecycleConfig :=
  st.sources.lifecycleConfig.getD ⟨defaultProbationSecs, 2000⟩

/-- `source_lifecycle::get_record`. -/
def Store.getRecord (st : Store) (source : Address) : Option SourceLifecycle :=
  st.config.lifecycle source

def writeRecord (source : Address) (record : Option SourceLifecycle) : Contract Unit :=
  modifyConfig fun c => { c with lifecycle := Function.update c.lifecycle source record }

def sourceRotationCooldown : Nat := 100

def onKeyRotated (old new : Address) : Contract Unit := do
  let record ← readStore fun _ st => st.getRecord old
  match record with
  | none => pure ()
  | some record => do
    writeRecord old none
    writeRecord new (some record)
    modifySources fun r => { r with
      identityOwner := Function.update r.identityOwner record.identity (some new) }

/-- A value kept under the old address goes to the new one; nothing happens without one. -/
def moveKey {ν : Type} (m : Map Address ν) (old new : Address) : Map Address ν :=
  match m old with
  | some v => Function.update (Function.update m old none) new (some v)
  | none => m

/-- Both records of the verification are written from the one in the registry. -/
def moveVerification (old new : Address) (r : SourceRecords) : SourceRecords :=
  match r.verification old with
  | some v => { r with
    verification := Function.update (Function.update r.verification old none) new (some v)
    verificationKey := Function.update (Function.update r.verificationKey old none) new (some v) }
  | none => r

def rotateSourceKey (source newAddress : Address) : Contract Unit := do
  requireAuth source
  requireAuth newAddress
  checkIsSource source
  let taken ← readStore fun _ st => st.isSource newAddress
  ensure (taken = false) .sourceAlreadyExists
  checkNotRevoked newAddress
  onKeyRotated source newAddress
  let sequence ← getSequence
  let cooling ← readStore fun _ st =>
    let last := (st.sources.rotationLedger source).getD 0
    decide (0 < last ∧ sequence - last < sourceRotationCooldown)
  ensure (cooling = false) .cooldownNotElapsed
  modifyRegistry fun r => r.renameSource source newAddress
  modifySources fun r => { r with metadata := moveKey r.metadata source newAddress }
  modifySources (moveVerification source newAddress)
  moveSourceAssets source newAddress
  moveSubmissions source newAddress
  modifySources fun r => { r with
    rotationLedger := Function.update r.rotationLedger newAddress (some sequence) }

def onboard (source : Address) (name : Text) (identity : Bytes) : Contract Unit := asAdmin do
  let revoked ← readStore fun _ st => st.sources.revokedIdentity identity
  ensure (revoked = false) .identityRevoked
  let owned ← readStore fun _ st => (st.sources.identityOwner identity).isSome
  ensure (owned = false) .sourceAlreadyExists
  addSource source name
  let now ← getTimestamp
  let probation ← readStore fun _ st => st.getLifecycleConfig.probationSecs
  writeRecord source (some ⟨identity, now, satAdd64 now probation, false⟩)
  modifySources fun r => { r with
    identityOwner := Function.update r.identityOwner identity (some source) }
  setOptional .anyProbation

structure OnboardingChecklist where
  identityVerified : Bool
  bondPosted : Bool
  bondAmount : Int
  probationComplete : Bool
  graduated : Bool
deriving DecidableEq

def Store.checklist (env : Env) (st : Store) (source : Address) : OnboardingChecklist where
  identityVerified := (st.getRecord source).isSome && !st.sources.revokedAddress source
  bondPosted := decide (0 < st.getSourceDepositedBond source ∧
    st.getSourceBond ≤ st.getSourceDepositedBond source)
  bondAmount := st.getSourceDepositedBond source
  probationComplete := (st.getRecord source).any fun r => r.probationUntil ≤ env.timestamp
  graduated := (st.getRecord source).any SourceLifecycle.graduated

def graduate (source : Address) : Contract Unit := do
  let record ← consult fun w => match w.store.getRecord source with
    | some record => .ok record
    | none => .error .sourceNotFound
  let list ← readStore fun e st => st.checklist e source
  ensure (¬(record.graduated = true ∨ list.identityVerified = false ∨ list.bondPosted = false ∨
    list.probationComplete = false)) .invalidConfiguration
  writeRecord source (some { record with graduated := true })

/-- The deviation of a price from a reference, in basis points. -/
def lifecycleDeviationBps (price reference : Int) : Int :=
  (satMul (min (wrapSub price reference).natAbs i128Max) 10000).tdiv reference

/-- What is stored under a key, for a caller who needs it. -/
def requireStored {ν : Type} (f : Store → Option ν) (e : ErrorCode) : Contract ν :=
  consult fun w => match f w.store with
    | some v => .ok v
    | none => .error e

/-- The bond is forfeited on evidence that the contract derives itself. -/
def slashOnEvidence (source asset : Address) : Contract Unit := do
  let entry ← requireStored (fun st => st.submission (asset, source)) .noData
  let aggregate ← requireStored (fun st => st.aggregate asset) .noData
  let threshold ← readStore fun _ st => st.getLifecycleConfig.slashDeviationBps
  ensure (0 < aggregate.price) .noData
  ensure ((threshold : Int) < lifecycleDeviationBps entry.price aggregate.price)
    .invalidConfiguration
  forfeitSourceBondInternal source

/-- What is derived from a source for one asset. -/
def revokeDerived (source asset : Address) : Contract Unit := do
  update fun w => { w with store := { w.store with
    submission := Function.update w.store.submission (asset, source) none } }
  modifySources fun r => { r with
    submissionLedger := Function.update r.submissionLedger (asset, source) none }
  modifyStats fun s => { s with
    lastSubmissionLedger := Function.update s.lastSubmissionLedger (source, asset) none }
  modifyRounds fun r => { r with
    nonCompliant := Function.update r.nonCompliant (source, asset) false }

/-- The address and the identity of its record cannot be used again. -/
def tombstone (source : Address) : Contract Unit := do
  let record ← readStore fun _ st => st.getRecord source
  writeRecord source none
  modifySources fun r => { r with
    revokedAddress := Function.update r.revokedAddress source true }
  match record with
  | none => pure ()
  | some record => modifySources fun r => { r with
      identityOwner := Function.update r.identityOwner record.identity none
      revokedIdentity := Function.update r.revokedIdentity record.identity true }

def offboard (source : Address) (evidenceAsset : Option Address) : Contract Unit := asAdmin do
  checkIsSource source
  match evidenceAsset with
  | some asset => slashOnEvidence source asset
  | none => pure ()
  let assets ← readStore fun _ st => st.registry.assets
  forM assets (revokeDerived source)
  modifyCustody fun c => { c with reputation := Function.update c.reputation source (some 0) }
  tombstone source
  removeSourceInner source
  recomputeAll

end PriceOracle.Model
