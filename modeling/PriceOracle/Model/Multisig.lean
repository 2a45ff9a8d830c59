import PriceOracle.Model.Settings

/-! # Multi-signature governance

Operations wait in a linked queue for the approvals of their quorum and then for the timelock.
Pointers and identifiers are zero when they are absent. A walk along the queue is stopped by the
host when it runs out of budget; one that outlasts every 32-bit identifier never ends. -/

namespace PriceOracle.Model

open Lib.Transaction Lib.MachineInt

namespace Multisig

variable (m : Multisig)

def readGovernors : List Address := m.governors.getD []

def readRequiredApprovals : Nat := m.requiredApprovals.getD 1

def readQueueHead : Nat := m.queueHead.getD 0

def readQueueTail : Nat := m.queueTail.getD 0

def readOpCount : Nat := m.opCount.getD 0

/-- The pointer from a stored operation to its successor. -/
def nextOp (i : Nat) : Option Nat := (m.op i).map (·.nextOpId)

def writeOp (op : MultiSigOperation) : Multisig :=
  { m with op := Function.update m.op op.id (some op) }

def removeOp (id : Nat) : Multisig :=
  { m with op := Function.update m.op id none }

@[simp] theorem op_writeOp (op : MultiSigOperation) :
    (m.writeOp op).op = Function.update m.op op.id (some op) := rfl

end Multisig

def walkBudget : Nat := 2 ^ 32

def Store.readTimelockDuration (st : Store) : Nat := st.config.timelockDuration.getD 10

def readOp (id : Nat) : Contract MultiSigOperation :=
  consult fun w => match w.store.multisig.op id with
    | some op => .ok op
    | none => .error .operationNotFound

def writeOp (op : MultiSigOperation) : Contract Unit :=
  modifyMultisig fun m => m.writeOp op

def readGovernors : Contract (List Address) :=
  readStore fun _ st => st.multisig.readGovernors

def readQueueHead : Contract Nat :=
  readStore fun _ st => st.multisig.readQueueHead

def writeQueueHead (head : Nat) : Contract Unit :=
  modifyMultisig fun m => { m with queueHead := some head }

def writeQueueTail (tail : Nat) : Contract Unit :=
  modifyMultisig fun m => { m with queueTail := some tail }

def nextOpId : Contract Nat := do
  let count ← readStore fun _ st => st.multisig.readOpCount
  let next := wrap32 (count + 1)
  modifyMultisig fun m => { m with opCount := some next }
  pure next

/-- The approvals of an operation that are left when `governors` take over. -/
def MultiSigOperation.retained (op : MultiSigOperation) (governors : List Address) :
    List Address :=
  op.approvals.filter fun a => governors.contains a

/-- The operation without the approvals of departed signers; one that thereby loses its quorum
loses its timelock start. -/
def MultiSigOperation.strip (op : MultiSigOperation) (governors : List Address) :
    MultiSigOperation :=
  { op with
    approvals := op.retained governors
    timelockStartLedger :=
      if (op.retained governors).length < op.requiredApprovals then 0
      else op.timelockStartLedger }

/-- The body of the rotation loop for one operation. -/
def stripOperation (governors : List Address) (op : MultiSigOperation) : Contract Unit :=
  if (op.retained governors).length = op.approvals.length then pure ()
  else writeOp (op.strip governors)

/-- The rotation loop: every queued operation that lost approvals is rewritten. -/
def stripApprovals (governors : List Address) : Nat → Nat → Contract Unit
  | 0, _ => abort .hostTrap
  | budget + 1, cursor =>
    if cursor = 0 then pure ()
    else do
      let op ← readOp cursor
      stripOperation governors op
      stripApprovals governors budget op.nextOpId

def setGovernors (governors : List Address) (required : Nat) : Contract Unit :=
  asAdmin do
    ensure (¬(required = 0 ∨ governors.length < required)) .invalidConfiguration
    modifyMultisig fun m => { m with
      governors := some governors
      requiredApprovals := some required
      previousRequiredApprovals := some m.readRequiredApprovals }
    let head ← readQueueHead
    stripApprovals governors walkBudget head

/-- The part of `propose_ms_operation` that links the stored operation to the queue. -/
def appendToQueue (opId tail : Nat) : Contract Unit :=
  if tail = 0 then do
    writeQueueHead opId
    writeQueueTail opId
  else do
    let tailOp ← readOp tail
    writeOp { tailOp with nextOpId := opId }
    writeQueueTail opId

def proposeMsOperation (proposer : Address) (opType : OperationType) (data : Bytes) :
    Contract Nat := do
  requireAuth proposer
  let governors ← readGovernors
  ensure (proposer ∈ governors) .notAuthorized
  let opId ← nextOpId
  let required ← readStore fun _ st => st.multisig.readRequiredApprovals
  let tail ← readStore fun _ st => st.multisig.readQueueTail
  let sequence ← getSequence
  writeOp ⟨opId, opType, data, [], required, sequence, proposer, 0, 0⟩
  appendToQueue opId tail
  pure opId

/-- The operation with one more approval; reaching the quorum starts the timelock. -/
def MultiSigOperation.approvedBy (op : MultiSigOperation) (governor : Address) (sequence : Nat) :
    MultiSigOperation :=
  let approvals := op.approvals ++ [governor]
  { op with
    approvals := approvals
    timelockStartLedger :=
      if op.requiredApprovals ≤ approvals.length ∧ op.timelockStartLedger = 0 then sequence
      else op.timelockStartLedger }

def approveOperation (governor : Address) (opId : Nat) : Contract Unit := do
  requireAuth governor
  let governors ← readGovernors
  ensure (governor ∈ governors) .notAuthorized
  let op ← readOp opId
  ensure (governor ∉ op.approvals) .alreadyApproved
  let sequence ← getSequence
  writeOp (op.approvedBy governor sequence)

/-- The operation without an approval; falling below the quorum resets the timelock. -/
def MultiSigOperation.retractedBy (op : MultiSigOperation) (governor : Address) :
    MultiSigOperation :=
  let approvals := op.approvals.filter fun a => a ≠ governor
  { op with
    approvals := approvals
    timelockStartLedger :=
      if approvals.length < op.requiredApprovals then 0 else op.timelockStartLedger }

def retractApproval (governor : Address) (opId : Nat) : Contract Unit := do
  requireAuth governor
  let governors ← readGovernors
  ensure (governor ∈ governors) .notAuthorized
  let op ← readOp opId
  ensure (governor ∈ op.approvals) .approvalNotFound
  writeOp (op.retractedBy governor)

/-- The check that the caller of an execution or a cancellation is the admin or a governor. -/
def checkAdminOrGovernor (caller : Address) : Contract Unit := do
  requireAuth caller
  let admin ← getAdmin
  let governors ← readGovernors
  ensure (caller = admin ∨ caller ∈ governors) .notAuthorized

/-- Takes the head out of the queue, in favour of its successor. -/
def advanceQueue (next : Nat) : Contract Unit := do
  writeQueueHead next
  if next = 0 then writeQueueTail 0 else pure ()

def executeMsOperation (executor : Address) (opId : Nat) : Contract Unit := do
  checkAdminOrGovernor executor
  let head ← readQueueHead
  ensure (head = opId) .msNotQueueHead
  let op ← readOp opId
  ensure (op.requiredApprovals ≤ op.approvals.length) .msQuorumNotReached
  ensure (op.timelockStartLedger ≠ 0) .timelockNotReady
  let duration ← readStore fun _ st => st.readTimelockDuration
  let sequence ← getSequence
  ensure (duration ≤ wrapSub32 sequence op.timelockStartLedger) .timelockNotReady
  advanceQueue op.nextOpId
  modifyMultisig fun m => m.removeOp opId

/-- The walk of a cancellation to the predecessor of `opId`, which is pointed past it. -/
def patchPredecessor (opId next : Nat) : Nat → Nat → Contract Unit
  | 0, _ => abort .hostTrap
  | budget + 1, cursor =>
    if cursor = 0 then pure ()
    else do
      let cur ← readOp cursor
      if cur.nextOpId = opId then do
        writeOp { cur with nextOpId := next }
        if next = 0 then writeQueueTail cursor else pure ()
      else patchPredecessor opId next budget cur.nextOpId

/-- Takes an operation out of the queue wherever it stands. -/
def unlinkFromQueue (op : MultiSigOperation) (opId head : Nat) : Contract Unit :=
  if head = opId then advanceQueue op.nextOpId
  else patchPredecessor opId op.nextOpId walkBudget head

def cancelMsOperation (canceller : Address) (opId : Nat) : Contract Unit := do
  checkAdminOrGovernor canceller
  let op ← readOp opId
  let head ← readQueueHead
  unlinkFromQueue op opId head
  modifyMultisig fun m => m.removeOp opId

end PriceOracle.Model
