import PriceOracle.Model.Optimistic

/-! # Administered history

The administrator prunes the history of an asset, copies it into the persistent shards, and decides
in which storage tier it is kept. A tier is raised at once and lowered only on an approved and
matured request; neither moves an entry. -/

namespace PriceOracle.Model

open Lib.Transaction Lib.MachineInt

namespace Store

variable (st : Store) (asset : Address)

/-- `has_historical_price`. -/
def hasHistoricalPrice (ledger : Nat) : Bool :=
  (st.registry.assetRegistered asset).isSome &&
    ((st.history.entry (asset, ledger)).isSome ||
      ((st.history.bucketOf asset ledger).getD []).any fun e => e.ledger = ledger)

/-- The downgrade request of `asset` whose delay has run out, if there is one. -/
def maturedRequest (env : Env) : Option StorageTierDowngradeRequest :=
  (st.config.assetStorageTierDowngrade asset).filter fun req =>
    req.readyAtLedger ≠ 0 ∧ req.readyAtLedger ≤ env.sequence

end Store

/-- `pruning::prune_history`: the number of entries dropped from the old end, which the length of a
stored vector bounds. -/
def pruneHistory (asset : Address) (targetEntries : Nat) : Contract Nat :=
  asAdmin do
    checkRegisteredAsset asset
    let ledgerList ← readStore fun _ st => st.history.ledgerList asset
    let kept ← readStore fun _ st => trimHistory asset targetEntries ledgerList st.history
    modifyHistory fun _ =>
      if 0 < ledgerList.length - kept.1.length then kept.2.setLedgers asset kept.1 else kept.2
    pure (ledgerList.length - kept.1.length)

/-- The loop of `migrate_history_to_shards`, with the number of entries copied so far. -/
def shardLedgers (asset : Address) : List Nat → Nat → History → History × Nat
  | [], migrated, h => (h, migrated)
  | l :: ls, migrated, h =>
    match h.entry (asset, l) with
    | some entry => shardLedgers asset ls (wrap32 (migrated + 1)) (h.writeHistoryShard asset entry)
    | none => shardLedgers asset ls migrated h

def migrateHistoryToShards (asset : Address) : Contract Nat :=
  asAdmin do
    checkRegisteredAsset asset
    let sharded ← readStore fun _ st =>
      shardLedgers asset (st.history.ledgerList asset) 0 st.history
    modifyHistory fun _ => sharded.1
    pure sharded.2

/-- The loop of `migrate_history_to_tier`; an entry is looked up in both tiers. -/
def copyLedgers (asset : Address) (toTier : HistoryStorageTier) :
    List Nat → Nat → History → History × Nat
  | [], migrated, h => (h, migrated)
  | l :: ls, migrated, h =>
    match h.readHistoryEntry asset l with
    | some entry =>
      copyLedgers asset toTier ls (satAdd32 migrated 1) (h.writeHistoryEntry asset toTier entry)
    | none => copyLedgers asset toTier ls migrated h

def writeLastChangeLedger (asset : Address) (ledger : Nat) : Contract Unit :=
  modifyConfig fun c => { c with
    assetStorageTierMigrated := Function.update c.assetStorageTierMigrated asset (some ledger) }

def migrateHistoryToTier (asset : Address) (toTier : HistoryStorageTier) : Contract Nat :=
  asAdmin do
    checkRegisteredAsset asset
    let fromTier ← readStore fun _ st => st.getAssetStorageTier asset
    if fromTier = toTier then pure 0
    else do
      let copied ← readStore fun _ st =>
        copyLedgers asset toTier (st.history.ledgerList asset) 0 st.history
      modifyHistory fun _ => copied.1
      let sequence ← getSequence
      writeLastChangeLedger asset sequence
      pure copied.2

def writeTier (asset : Address) (tier : HistoryStorageTier) : Contract Unit := do
  mark .storageTier
  modifyConfig fun c => { c with
    assetStorageTier := Function.update c.assetStorageTier asset (some tier) }

/-- Switches the tier of new entries; the stored ones stay where they are. -/
def applyTierChange (asset : Address) (new : HistoryStorageTier) : Contract Unit := do
  writeTier asset new
  let sequence ← getSequence
  writeLastChangeLedger asset sequence

/-- `write_request` and `remove_request`. -/
def setRequest (asset : Address) (req : Option StorageTierDowngradeRequest) : Contract Unit :=
  modifyConfig fun c => { c with
    assetStorageTierDowngrade := Function.update c.assetStorageTierDowngrade asset req }

/-- What lowering a tier requires and leaves behind. -/
def applyDowngrade (asset : Address) (tier : HistoryStorageTier) : Contract Unit := do
  let matured ← readStore fun e st => st.maturedRequest asset e
  ensure (matured.isSome = true) .storageTierDowngradeNotReady
  applyTierChange asset tier
  setRequest asset none

def setAssetStorageTier (asset : Address) (tier : HistoryStorageTier) : Contract Unit :=
  asAdmin do
    checkRegisteredAsset asset
    let current ← readStore fun _ st => st.getAssetStorageTier asset
    match current, tier with
    | .temporary, .temporary => pure ()
    | .persistent, .persistent => pure ()
    | .persistent, .temporary => applyDowngrade asset .temporary
    | .temporary, .persistent => applyTierChange asset .persistent

/-- Approvals a downgrade needs beyond its proposer. -/
def tierDowngradeRequiredApprovals : Nat := 1

/-- Ledgers between the last approval of a downgrade and its execution. -/
def tierDowngradeDelayLedgers : Nat := 10

def proposeStorageTierDowngrade (asset : Address) : Contract Nat := do
  let admin ← getAdmin
  requireAuth admin
  checkRegisteredAsset asset
  let current ← readStore fun _ st => st.getAssetStorageTier asset
  let pending ← readStore fun _ st => st.config.assetStorageTierDowngrade asset
  ensure (current = .persistent ∧ pending = none) .storageTierDowngradeNotReady
  setRequest asset (some ⟨admin, [], 0, current⟩)
  let sequence ← getSequence
  pure (satAdd32 sequence tierDowngradeDelayLedgers)

/-- The request after one more approval; the last one required starts the delay. -/
def StorageTierDowngradeRequest.approve (req : StorageTierDowngradeRequest) (approver : Address)
    (sequence : Nat) : StorageTierDowngradeRequest :=
  { req with
    approvals := req.approvals ++ [approver]
    readyAtLedger :=
      if tierDowngradeRequiredApprovals ≤ (req.approvals ++ [approver]).length then
        satAdd32 sequence tierDowngradeDelayLedgers
      else req.readyAtLedger }

def approveStorageTierDowngrade (asset approver : Address) : Contract Unit := do
  requireAuth approver
  checkRegisteredAsset asset
  let pending ← readStore fun _ st => st.config.assetStorageTierDowngrade asset
  match pending with
  | none => abort .storageTierDowngradeNotReady
  | some req => do
    ensure (approver ≠ req.proposedBy) .notAuthorized
    ensure (approver ∉ req.approvals) .invalidConfiguration
    let sequence ← getSequence
    setRequest asset (some (req.approve approver sequence))

def executeStorageTierDowngrade (asset : Address) : Contract Unit :=
  asAdmin do
    checkRegisteredAsset asset
    applyDowngrade asset .temporary

end PriceOracle.Model

/-! ## Storage migration

The incremental migration of the storage to the current version, and the registry of assets it
scans. -/

namespace PriceOracle.Model

open Lib.Transaction Lib.MachineInt

/-- The keys of an asset that is registered from now on. -/
def Registry.register (r : Registry) (asset : Address) : Registry :=
  { r with
    assetRegistered := Function.update r.assetRegistered asset (some true)
    assetIndex := Function.update r.assetIndex asset (some true)
    assets := r.assets ++ [asset] }

def initializeAssetPriceBounds (asset : Address) : Contract Unit :=
  modifyGates fun g => { g with
    priceBounds := Function.update g.priceBounds asset (some ⟨0, i128Max, 0⟩)
    assetPauseFlag := Function.update g.assetPauseFlag asset (some false)
    circuitBreakerTripped := Function.update g.circuitBreakerTripped asset (some false)
    breakerLogCount := Function.update g.breakerLogCount asset (some 0) }

def registerAsset (asset : Address) : Contract Unit := asAdmin do
  let known ← readStore fun _ st => (st.registry.assetRegistered asset).isSome
  ensure (known = false) .assetAlreadyRegistered
  let room ← readStore fun _ st => decide (st.registry.assets.length < st.getMaxAssets)
  ensure (room = true) .maxAssetsReached
  update fun w => { w with store := { w.store with
    registry := w.store.registry.register asset } }
  initializeAssetPriceBounds asset

/-- The keys of an asset that is no longer registered. -/
def Registry.unregister (r : Registry) (asset : Address) : Registry :=
  { r with
    assetRegistered := Function.update r.assetRegistered asset none
    assetIndex := Function.update r.assetIndex asset none
    assets := r.assets.filter fun a => a ≠ asset }

def unregisterAsset (asset : Address) : Contract Unit := asAdmin do
  checkRegisteredAsset asset
  update fun w => { w with store := { w.store with
    registry := w.store.registry.unregister asset
    aggregate := Function.update w.store.aggregate asset none } }

def currentVersion : Nat := 2

def defaultBatchSize : Nat := 50

def Store.getStorageVersion (st : Store) : Nat := st.migration.version.getD 1

/-- The record a migration gives an asset that has none. -/
def Store.zeroAggregate (st : Store) : AggregatePrice := ⟨0, 0, 0, st.getDecimals, false, 0⟩

/-- The body of the migration loop. -/
def initializeAggregate (asset : Address) : Contract Unit := do
  let missing ← readStore fun _ st => (st.aggregate asset).isNone
  let zero ← readStore fun _ st => st.zeroAggregate
  if missing then writeAggregate asset zero else pure ()

/-- The end of the batch that starts at `cursor`; the sum wraps. -/
def batchEnd (cursor batchSize total : Nat) : Nat := min (wrap32 (cursor + batchSize)) total

/-- One batch over the registered assets: the next cursor, and whether it is at the end. -/
def migrateV1ToV2 (cursor batchSize : Nat) : Contract (Nat × Bool) := do
  let assets ← readStore fun _ st => st.registry.assets
  if assets.length ≤ cursor then pure (cursor, true)
  else do
    let stop := batchEnd cursor batchSize assets.length
    forM ((assets.take stop).drop cursor) initializeAggregate
    pure (stop, decide (assets.length ≤ stop))

/-- Only the step from version 1 to version 2 transforms anything. -/
def runMigrationStep (state : MigrationState) (batchSize : Nat) : Contract (Nat × Bool) :=
  if state.fromVersion = 1 ∧ state.toVersion = 2 then migrateV1ToV2 state.cursor batchSize
  else pure (state.cursor, true)

/-- Runs a batch, and completes the migration or saves its progress. -/
def resumeMigration (state : MigrationState) (batchSize : Nat) : Contract Unit := do
  let (cursor, done) ← runMigrationStep state batchSize
  modifyMigration fun m =>
    if done then { m with version := some state.toVersion, state := none }
    else { m with state := some { state with cursor } }

def effectiveBatch (batchSize : Nat) : Nat := if batchSize = 0 then defaultBatchSize else batchSize

def migrateStorage (batchSize : Nat) : Contract Unit := asAdmin do
  let inProgress ← readStore fun _ st => st.migration.state
  match inProgress with
  | some state => resumeMigration state (effectiveBatch batchSize)
  | none => do
    let fromVersion ← readStore fun _ st => st.getStorageVersion
    if currentVersion ≤ fromVersion then
      modifyMigration fun m => { m with version := some currentVersion }
    else do
      let sequence ← getSequence
      resumeMigration ⟨fromVersion, currentVersion, 0, sequence, .inProgress⟩
        (effectiveBatch batchSize)

end PriceOracle.Model
