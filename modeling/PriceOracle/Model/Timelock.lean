import PriceOracle.Model.Configuration

/-! # Timelock

The administrator queues single operations and batches. Each waits for the longer of the delay in
force when it was proposed and the delay in force when it is executed; a batch waits for the
longest of its elements. Only the elements of a batch change settings. -/

namespace PriceOracle.Model

open Lib.Transaction Lib.MachineInt

/-- `get_priority_delay`: an explicit normal delay overrides the timelock duration. -/
def Store.getPriorityDelay (st : Store) : OperationPriority → Nat
  | .urgent => st.timelock.urgentDelay.getD 1
  | .normal => st.timelock.normalDelay.getD (st.config.timelockDuration.getD 10)
  | .longTerm => st.timelock.longTermDelay.getD 100

def Timelock.setDelay (t : Timelock) (delay : Nat) : OperationPriority → Timelock
  | .urgent => { t with urgentDelay := some delay }
  | .normal => { t with normalDelay := some delay }
  | .longTerm => { t with longTermDelay := some delay }

def setPriorityDelay (priority : OperationPriority) (delay : Nat) : Contract Unit := asAdmin do
  modifyTimelock fun t => t.setDelay delay priority

def Timelock.queueOperation (t : Timelock) (op : PendingOperation) (delay : Nat) : Timelock :=
  { t with
    pendingOp := Function.update t.pendingOp op.id (some op)
    pendingOpCount := some op.id
    opRequiredDelay := Function.update t.opRequiredDelay op.id (some delay) }

def Timelock.dropOperation (t : Timelock) (opId : Nat) : Timelock :=
  { t with
    pendingOp := Function.update t.pendingOp opId none
    opRequiredDelay := Function.update t.opRequiredDelay opId none }

def proposeOperationWithPriority (opType : OperationType) (data : Bytes)
    (priority : OperationPriority) : Contract Nat := asAdmin do
  let admin ← getAdmin
  let current ← getSequence
  let opId ← readStore fun _ st => wrap32 (st.timelock.pendingOpCount.getD 0 + 1)
  let delay ← readStore fun _ st => st.getPriorityDelay priority
  modifyTimelock fun t => t.queueOperation ⟨opId, opType, admin, current, data, priority⟩ delay
  pure opId

def getPendingOperation (opId : Nat) : Contract PendingOperation :=
  consult fun w => match w.store.timelock.pendingOp opId with
    | some op => .ok op
    | none => .error .operationNotFound

/-- The delay of a queued operation, never shorter than the one recorded at its proposal. -/
def Store.operationDelay (st : Store) (op : PendingOperation) (opId : Nat) : Nat :=
  max (st.getPriorityDelay op.priority) ((st.timelock.opRequiredDelay opId).getD 0)

/-- The execution of a single operation is only announced; it changes no setting. -/
def executeOperation (opId : Nat) : Contract Unit := asAdmin do
  let op ← getPendingOperation opId
  let required ← readStore fun _ st => st.operationDelay op opId
  let current ← getSequence
  ensure (required ≤ wrapSub32 current op.proposedLedger) .priorityTimelockNotReady
  modifyTimelock fun t => t.dropOperation opId

def cancelOperation (opId : Nat) : Contract Unit := asAdmin do
  let _ ← getPendingOperation opId
  modifyTimelock fun t => t.dropOperation opId

/-- `operation_expiry_ledger`. -/
def Store.operationExpiryLedger (st : Store) (opId : Nat) : Option Nat :=
  (st.timelock.pendingOp opId).map fun op =>
    satAdd32 op.proposedLedger (st.operationDelay op opId)

/-- `is_operation_expired`. -/
def Store.isOperationExpired (env : Env) (st : Store) (opId : Nat) : Bool :=
  (st.operationExpiryLedger opId).any fun expiry => expiry < env.sequence

/-- `element_delay`: code and administrator changes wait the longest. -/
def Store.elementDelay (st : Store) (opType : Nat) : Nat :=
  if opType = 0 ∨ opType = 1 then st.getPriorityDelay .longTerm else st.getPriorityDelay .normal

def Store.batchRequiredDelay (st : Store) (operations : List BatchOperation) : Nat :=
  operations.foldl (fun delay op => max delay (st.elementDelay op.opType))
    (st.timelock.duration.getD 10)

def Timelock.queueBatch (t : Timelock) (batch : PendingBatch) (delay : Nat) : Timelock :=
  { t with
    pendingBatch := Function.update t.pendingBatch batch.id (some batch)
    pendingBatchCount := some batch.id
    batchRequiredDelay := Function.update t.batchRequiredDelay batch.id (some delay) }

def Timelock.dropBatch (t : Timelock) (batchId : Nat) : Timelock :=
  { t with
    pendingBatch := Function.update t.pendingBatch batchId none
    batchRequiredDelay := Function.update t.batchRequiredDelay batchId none }

def proposeBatch (operations : List BatchOperation) : Contract Nat := asAdmin do
  let admin ← getAdmin
  let current ← getSequence
  let batchId ← readStore fun _ st => wrap32 (st.timelock.pendingBatchCount.getD 0 + 1)
  let delay ← readStore fun _ st => st.batchRequiredDelay operations
  modifyTimelock fun t => t.queueBatch ⟨batchId, admin, current, operations⟩ delay
  pure batchId

def getPendingBatch (batchId : Nat) : Contract PendingBatch :=
  consult fun w => match w.store.timelock.pendingBatch batchId with
    | some batch => .ok batch
    | none => .error .operationNotFound

/-- `u32::from_be_bytes` and `u64::from_be_bytes`. -/
def ofBeBytes (data : Bytes) : Nat := ofLeBytes data.reverse

/-- The length `execute_single_op` demands of the payload of an element. -/
def expectedLen : Nat → Option Nat
  | 0 => some 32
  | 2 | 3 | 4 | 5 => some 4
  | 7 => some 8
  | _ => none

def executeSingleOp (op : BatchOperation) : Contract Unit := do
  let _ ← getAdmin
  ensure (((expectedLen op.opType).all fun len => op.data.length = len) = true)
    .invalidConfiguration
  match op.opType with
  -- new code is installed by the host and writes no storage; a change of administrator is logged
  | 0 => do
    let known ← readStore fun e _ => e.host.hasCode op.data
    ensure (known = true) .hostTrap
  | 1 => pure ()
  | 2 => configure [] fun c => { c with minSources := some (ofBeBytes op.data) }
  | 3 => configure [] fun c => { c with maxHistory := some (ofBeBytes op.data) }
  | 4 => configure [] fun c => { c with resolution := some (ofBeBytes op.data) }
  | 5 => configure [] fun c => { c with decimals := some (ofBeBytes op.data) }
  | 6 => pure ()
  | 7 =>
    configure [.timestampThreshold] fun c =>
      { c with timestampThreshold := some (ofBeBytes op.data) }
  | _ => abort .operationNotFound

/-- The delay of a queued batch, never shorter than the one recorded at its proposal. -/
def Store.batchDelay (st : Store) (batch : PendingBatch) (batchId : Nat) : Nat :=
  max (st.batchRequiredDelay batch.operations) ((st.timelock.batchRequiredDelay batchId).getD 0)

def executeBatch (batchId : Nat) : Contract Unit := asAdmin do
  let batch ← getPendingBatch batchId
  let required ← readStore fun _ st => st.batchDelay batch batchId
  let current ← getSequence
  ensure (required ≤ wrapSub32 current batch.proposedLedger) .timelockNotReady
  forM batch.operations executeSingleOp
  modifyTimelock fun t => t.dropBatch batchId

def cancelBatch (batchId : Nat) : Contract Unit := asAdmin do
  let _ ← getPendingBatch batchId
  modifyTimelock fun t => t.dropBatch batchId

inductive SimulationWarning
  | none | extremeValue | lowMinSources | largeHistory | unknownOpType | invalidData
deriving DecidableEq

structure OperationSimulationResult where
  index : Nat
  opType : Nat
  description : String
  wouldSucceed : Bool
  warning : SimulationWarning
deriving DecidableEq

structure BatchSimulationResult where
  results : List OperationSimulationResult
  totalOps : Nat
  wouldSucceedCount : Nat
  warningCount : Nat
  allSucceed : Bool
deriving DecidableEq

/-- The first four bytes. -/
def decodeU32 (data : Bytes) : Option Nat :=
  if data.length < 4 then none else some (ofBeBytes (data.take 4))

/-- An element that sets a number: too short to decode, or accepted with a warning for its value. -/
def simulateU32 (index opType : Nat) (data : Bytes) (tooShort update : String)
    (warn : Nat → SimulationWarning) : OperationSimulationResult :=
  match decodeU32 data with
  | Option.none => ⟨index, opType, tooShort, false, .invalidData⟩
  | some val => ⟨index, opType, update, true, warn val⟩

/-- An element that is accepted from a length on. -/
def simulateLength (index opType : Nat) (data : Bytes) (len : Nat) (tooShort update : String) :
    OperationSimulationResult :=
  if data.length < len then ⟨index, opType, tooShort, false, .invalidData⟩
  else ⟨index, opType, update, true, .none⟩

def simulateSingle (index : Nat) (op : BatchOperation) : OperationSimulationResult :=
  match op.opType with
  | 0 =>
    simulateLength index 0 op.data 32 "Upgrade: data too short for WASM hash"
      "Upgrade: would update contract WASM"
  | 1 => ⟨index, 1, "SetAdmin: would transfer admin rights", true, .none⟩
  | 2 =>
    simulateU32 index 2 op.data "SetMinSources: data too short"
      "SetMinSources: would update min sources"
      fun val => if val < 2 then .lowMinSources else .none
  | 3 =>
    simulateU32 index 3 op.data "SetMaxHistory: data too short"
      "SetMaxHistory: would update max history length"
      fun val => if 10000 < val then .largeHistory else .none
  | 4 =>
    simulateU32 index 4 op.data "SetResolution: data too short"
      "SetResolution: would update resolution window"
      fun val => if 86400 < val then .extremeValue else .none
  | 5 =>
    simulateU32 index 5 op.data "SetDecimals: data too short"
      "SetDecimals: would update decimal precision"
      fun val => if 38 < val then .extremeValue else .none
  | 6 => ⟨index, 6, "SetDescription: would update contract description", true, .none⟩
  | 7 =>
    simulateLength index 7 op.data 8 "SetTimestampThreshold: data too short"
      "SetTimestampThreshold: would update timestamp threshold"
  | _ => ⟨index, op.opType, "Unknown op_type: would fail at execution", false, .unknownOpType⟩

def simulateBatch (operations : List BatchOperation) : BatchSimulationResult :=
  let results := operations.mapIdx simulateSingle
  let wouldSucceedCount := results.countP fun r => r.wouldSucceed
  { results
    totalOps := operations.length
    wouldSucceedCount
    warningCount := results.countP fun r => decide (r.warning ≠ .none)
    allSucceed := decide (wouldSucceedCount = operations.length) }

end PriceOracle.Model
