import PriceOracle.Model.Settings

/-! # Finality

An aggregate is marked pending, waits a window of ledgers in which the administrator can retract
it, and is then promoted by anyone. The records are kept by asset and committed ledger. -/

namespace PriceOracle.Model

open Lib.Transaction Lib.MachineInt

def ledgerThreshold : Nat := 10000

def ledgerBump : Nat := 40000

/-- `extend_ttl`: the host refuses a threshold above the target, and a lifetime that ends beyond the
last 32-bit ledger. -/
def extendTtl (threshold target : Nat) : Contract Unit := do
  let current ← getSequence
  ensure (threshold ≤ target ∧ current + target ≤ u32Max) .hostTrap

/-- `get_finality_ledgers`. -/
def Store.getFinalityLedgers (st : Store) : Nat := st.finality.ledgers.getD 64

def setFinalityLedgers (ledgers : Nat) : Contract Unit := asAdmin do
  ensure (ledgers ≠ 0) .invalidConfiguration
  modifyFinality fun f => { f with ledgers := some ledgers }

/-- A settled entry is reported by its status. -/
def requirePending : FinalityStatus → Contract Unit
  | .finalized => abort .alreadyFinalized
  | .retracted => abort .priceRetracted
  | .pending => pure ()

/-- The same check where the entry may be missing. -/
def requireUnsettled : Option PendingFinalityEntry → Contract Unit
  | some e => requirePending e.status
  | none => pure ()

/-- The entry of an aggregate marked at ledger `current`: the deadline is a plain 32-bit sum. -/
def pendingEntry (current window : Nat) (hash : Bytes) (aggregate : AggregatePrice) :
    PendingFinalityEntry where
  price := aggregate.price
  timestamp := aggregate.timestamp
  numSources := aggregate.numSources
  decimals := aggregate.decimals
  committedLedger := current
  finalityLedger := wrap32 (current + window)
  status := .pending
  ledgerHash := hash

/-- The lifetime of a ledger hash: twice the window, a 32-bit product. -/
def hashTtl (window : Nat) : Nat := max (wrap32 (window * 2)) ledgerThreshold

/-- The writes of `record_ledger_hash` and of the entry. -/
def Finality.place (f : Finality) (asset : Address) (current : Nat)
    (entry : PendingFinalityEntry) : Finality :=
  { f with
    ledgerHash := Function.update f.ledgerHash current (some entry.ledgerHash)
    pending := Function.update f.pending (asset, current) (some entry) }

/-- `finality::mark_price_pending`. -/
def placePricePending (asset : Address) (aggregate : AggregatePrice) : Contract Unit := do
  let current ← getSequence
  let window ← readStore fun _ st => st.getFinalityLedgers
  let existing ← readStore fun _ st => st.finality.pending (asset, current)
  requireUnsettled existing
  let hash ← readStore fun e _ => e.host.sha256 (leBytes 4 current)
  modifyFinality fun f => f.place asset current (pendingEntry current window hash aggregate)
  -- the hash is extended before the entry is written, but a trap takes both back
  extendTtl (hashTtl window) (hashTtl window)
  extendTtl (wrap32 (window + ledgerThreshold)) ledgerBump

def markPricePending (asset : Address) : Contract Unit := do
  checkRegisteredAsset asset
  let aggregate ← consult fun w => match w.store.aggregate asset with
    | some aggregate => .ok aggregate
    | none => .error .noData
  placePricePending asset aggregate

def getPendingFinality (asset : Address) (committedLedger : Nat) :
    Contract PendingFinalityEntry :=
  consult fun w => match w.store.finality.pending (asset, committedLedger) with
    | some entry => .ok entry
    | none => .error .noData

/-- Whether a price of the asset committed after `committedLedger` is already final. -/
def Finality.newerFinalized (f : Finality) (asset : Address) (committedLedger : Nat) : Bool :=
  (f.finalized asset).any fun p => committedLedger < p.committedLedger

def PendingFinalityEntry.promoted (entry : PendingFinalityEntry)
    (committedLedger current : Nat) : FinalizedPrice where
  price := entry.price
  timestamp := entry.timestamp
  numSources := entry.numSources
  decimals := entry.decimals
  committedLedger := committedLedger
  finalizedLedger := current

/-- The newest committed ledger wins; the entry stays, marked finalized. -/
def Finality.promote (f : Finality) (asset : Address) (committedLedger current : Nat)
    (entry : PendingFinalityEntry) : Finality :=
  { f with
    finalized :=
      if f.newerFinalized asset committedLedger then f.finalized
      else Function.update f.finalized asset (some (entry.promoted committedLedger current))
    pending :=
      Function.update f.pending (asset, committedLedger)
        (some { entry with status := .finalized }) }

def tryFinalizePrice (asset : Address) (committedLedger : Nat) : Contract Bool := do
  let entry ← getPendingFinality asset committedLedger
  requirePending entry.status
  let current ← getSequence
  if current < entry.finalityLedger then pure false
  else do
    modifyFinality fun f => f.promote asset committedLedger current entry
    extendTtl ledgerThreshold ledgerBump
    pure true

/-- A finalized price of the same committed ledger is cleared with the entry. -/
def Finality.retract (f : Finality) (asset : Address) (committedLedger : Nat)
    (entry : PendingFinalityEntry) : Finality :=
  { f with
    pending :=
      Function.update f.pending (asset, committedLedger)
        (some { entry with status := .retracted })
    finalized :=
      if (f.finalized asset).any fun p => p.committedLedger = committedLedger then
        Function.update f.finalized asset none
      else f.finalized }

def retractPrice (asset : Address) (committedLedger : Nat) : Contract Unit := asAdmin do
  let entry ← getPendingFinality asset committedLedger
  requirePending entry.status
  modifyFinality fun f => f.retract asset committedLedger entry

end PriceOracle.Model
