import PriceOracle.Model.Store

/-! # The audit log

Actions of the administrator are appended to a log under consecutive identifiers, each with the
digest of the entry before it; the digest of the last entry is kept apart as the head. -/

namespace PriceOracle.Model

open Lib.MachineInt

structure AuditEntry where
  id : UInt32
  action : String
  admin : Address
  data : Bytes
  ledger : UInt32
  timestamp : UInt64
  previousHash : Bytes
  currentHash : Bytes
deriving DecidableEq

/-- `AuditEntry(id)`, `AuditEntryCount` and `AuditLogHead`. -/
structure AuditLog where
  entry : Map UInt32 AuditEntry := fun _ => none
  entryCount : Option UInt32 := none
  head : Option Bytes := none

def AuditLog.getAuditLogCount (log : AuditLog) : UInt32 := log.entryCount.getD 0

def AuditLog.getAuditLogHead (log : AuditLog) : Bytes := log.head.getD []

/-- What the hash of an entry is taken of; the action, its author and the ledger are not. -/
def entryData (previousHash data : Bytes) (timestamp : UInt64) (id : UInt32) : Bytes :=
  previousHash ++ data ++ leBytes 8 timestamp.toNat ++ leBytes 4 id.toNat

/-- One call of `append_audit_entry`, with the ledger it is made in. -/
structure AuditCall where
  ledger : UInt32
  timestamp : UInt64
  action : String
  admin : Address
  data : Bytes

def appendAuditEntry (h : Host) (log : AuditLog) (call : AuditCall) : AuditLog :=
  let previousHash := log.getAuditLogHead
  let entryId := log.getAuditLogCount + 1
  let currentHash := h.sha256 (entryData previousHash call.data call.timestamp entryId)
  { entry := Function.update log.entry entryId (some ⟨entryId, call.action, call.admin, call.data,
      call.ledger, call.timestamp, previousHash, currentHash⟩)
    entryCount := some entryId
    head := some currentHash }

/-- The loop of `verify_audit_chain` over `n` entries from identifier `i` on. -/
def verifyEntries (h : Host) (log : AuditLog) : Nat → Nat → Bytes → Bool
  | 0, _, _ => true
  | n + 1, i, previousHash =>
    match log.entry (UInt32.ofNat i) with
    | none => false
    | some e =>
      if e.previousHash ≠ previousHash then false
      else if h.sha256 (entryData e.previousHash e.data e.timestamp e.id) ≠ e.currentHash then false
      else verifyEntries h log n (i + 1) e.currentHash

def verifyAuditChain (h : Host) (log : AuditLog) : Bool :=
  if log.getAuditLogCount = 0 then true
  else verifyEntries h log log.getAuditLogCount.toNat 1 []

end PriceOracle.Model
