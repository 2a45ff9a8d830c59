import PriceOracle.Model.Submissions

/-! # The optimistic oracle

Bonded proposals with a dispute window. A price reaches the aggregate when a read finds a proposal
past its window, when the administrator upholds a disputed one, or when external data settles it;
all three go through one snapshot writer, which keeps history but no provenance. -/

namespace PriceOracle.Model

open Lib.Transaction Lib.MachineInt

def maxDisputeDuration : Nat := 17280

namespace Store

variable (st : Store)

def readDisputeWindow : Nat := st.config.optimisticDisputeWindow.getD 120

def readMinBond : Int := st.config.optimisticMinBond.getD 100000000

def readProposalCount : Nat := st.optimistic.proposalCount.getD 0

end Store

/-- The loop that trims the history to `cap` ledgers; provenance is not pruned along. -/
def trimHistory (asset : Address) (cap : Nat) : List Nat → History → List Nat × History
  | [], h => ([], h)
  | l :: ls, h =>
    if cap < ls.length + 1 then
      trimHistory asset cap ls ((h.removeTemporary asset l).removeHistoryShardEntry asset l)
    else (l :: ls, h)

/-- The history after a snapshot. -/
def Store.snapshotHistory (env : Env) (st : Store) (asset : Address)
    (entry : PriceHistoryEntry) : History :=
  let stored := st.history.ledgerList asset
  let (index, h) :=
    if st.shouldSkipOnWrite env asset entry.price then (stored, st.history)
    else (pushLedger stored entry.ledger,
      (st.history.setTemporary asset entry).writeHistoryShard asset entry)
  let (index, h) := trimHistory asset st.getMaxHistoryLength index h
  h.setLedgers asset index

/-- The version a snapshot stores: it starts at zero and counts changes of the price. -/
def Store.snapshotVersion (st : Store) (asset : Address) (price : Int) : UInt32 :=
  ((st.aggregate asset).map fun a => nextVersion a price).getD 0

def writePriceSnapshot (asset : Address) (price : Int) (timestamp numSources ledger : Nat) :
    Contract Unit := do
  let decimals ← readStore fun _ st => st.getDecimals
  let version ← readStore fun _ st => st.snapshotVersion asset price
  writeAggregate asset ⟨price, timestamp, numSources, decimals, false, version⟩
  let history ← readStore fun e st =>
    st.snapshotHistory e asset ⟨price, timestamp, ledger, numSources, false⟩
  modifyHistory fun _ => history

def writeProposal (p : OptimisticProposal) : Contract Unit :=
  modifyOptimistic fun o => { o with proposal := Function.update o.proposal p.id (some p) }

def readProposal (id : Nat) : Contract OptimisticProposal :=
  consult fun w => match w.store.optimistic.proposal id with
    | some p => .ok p
    | none => .error .proposalNotFound

/-- The proposal is undisputed and past its window. -/
def OptimisticProposal.due (p : OptimisticProposal) (sequence : Nat) : Bool :=
  p.status = .pending ∧ p.expiresAtLedger ≤ sequence

/-- `finalize_if_expired`: an unsettled dispute lapses without a price; an undisputed proposal past
its window becomes the aggregate. -/
def finalizeIfExpired (p : OptimisticProposal) : Contract OptimisticProposal := do
  let sequence ← getSequence
  if p.status = .disputed then
    if sequence < satAdd32 p.expiresAtLedger maxDisputeDuration then pure p
    else do
      let rejected := { p with status := .resolved, resolved := true, resolution := 2 }
      writeProposal rejected
      pure rejected
  else if p.due sequence = false then pure p
  else do
    let finalized := { p with status := .finalized, resolved := true, resolution := 1 }
    writeProposal finalized
    writePriceSnapshot p.asset p.price p.timestamp 1 sequence
    pure finalized

def proposePrice (proposer asset : Address) (price : Int) (timestamp : Nat) (bondAmount : Int) :
    Contract Nat := do
  checkRegisteredAsset asset
  ensure (0 < price) .invalidPrice
  let late ← readStore fun e st => st.fromFuture e timestamp
  ensure (late = false) .invalidTimestamp
  let minBond ← readStore fun _ st => st.readMinBond
  ensure (minBond ≤ bondAmount) .bondTooSmall
  requireAuth proposer
  let id ← readStore fun _ st => wrap32 (st.readProposalCount + 1)
  let window ← readStore fun _ st => st.readDisputeWindow
  let sequence ← getSequence
  modifyOptimistic fun o => { o with proposalCount := some id }
  writeProposal
    { id, asset, proposer, price, timestamp, bondAmount, disputeWindow := window,
      expiresAtLedger := satAdd32 sequence window, status := .pending, disputed := false,
      resolved := false, resolution := 0, disputer := none }
  pure id

def disputeProposal (disputer : Address) (id : Nat) : Contract Unit := do
  requireAuth disputer
  let stored ← readProposal id
  let p ← finalizeIfExpired stored
  ensure (p.status ≠ .disputed) .proposalAlreadyDisputed
  ensure (p.status ≠ .resolved ∧ p.status ≠ .finalized) .proposalAlreadyResolved
  let sequence ← getSequence
  ensure (sequence < p.expiresAtLedger) .proposalExpired
  let minBond ← readStore fun _ st => st.readMinBond
  ensure (minBond ≤ p.bondAmount) .bondTooSmall
  writeProposal { p with status := .disputed, disputed := true, disputer := some disputer }

/-- What both resolutions require: a disputed proposal that is still open. -/
def openDispute (id : Nat) : Contract OptimisticProposal := do
  let stored ← readProposal id
  let p ← finalizeIfExpired stored
  ensure (p.disputed = true) .proposalNotDisputed
  ensure (p.status ≠ .resolved ∧ p.status ≠ .finalized) .proposalAlreadyResolved
  pure p

/-- The price of an upheld proposal. -/
def upholdProposal (p : OptimisticProposal) (resolution : Bool) : Contract Unit := do
  let sequence ← getSequence
  if resolution then writePriceSnapshot p.asset p.price p.timestamp 1 sequence else pure ()

def resolveDispute (id : Nat) (resolution : Bool) : Contract Unit :=
  asAdmin do
    let p ← openDispute id
    upholdProposal p resolution
    writeProposal { p with
      status := .resolved, resolved := true, resolution := if resolution then 1 else 2 }

/-- The hash external data commits to. -/
def externalDataHash (env : Env) (source : Address) (price : Int) (timestamp : Nat) : Bytes :=
  env.host.sha256 (env.host.toXdr (.address source) ++ leBytes 16 (toU128 price) ++
    leBytes 8 timestamp)

def checkExternalProof (price : Int) (proof : ExternalDataProof) : Contract Unit := do
  checkSource proof.source
  let late ← readStore fun e st => st.fromFuture e proof.timestamp
  ensure (late = false) .invalidTimestamp
  ensure (proof.signature.all (· = 0) = false) .invalidExternalProof
  let expected ← readStore fun e _ => externalDataHash e proof.source price proof.timestamp
  ensure (expected = proof.dataHash) .invalidExternalProof

def resolveViaExternalData (id : Nat) (externalPrice : Int) (proof : ExternalDataProof) :
    Contract Unit :=
  asAdmin do
    let p ← openDispute id
    checkExternalProof externalPrice proof
    let sequence ← getSequence
    writePriceSnapshot p.asset externalPrice proof.timestamp 1 sequence
    writeProposal { p with status := .resolved, resolved := true, resolution := 1 }

/-- `get_proposal`: a read that may write the aggregate. -/
def getProposal (id : Nat) : Contract (Option OptimisticProposal) := do
  let stored ← readStore fun _ st => st.optimistic.proposal id
  match stored with
  | none => pure none
  | some p => do
    let updated ← finalizeIfExpired p
    pure (if updated.id ≠ p.id then none else some updated)

/-- One iteration of `get_active_proposals`. -/
def collectActive (active : List OptimisticProposal) (id : Nat) :
    Contract (List OptimisticProposal) := do
  let stored ← readStore fun _ st => st.optimistic.proposal id
  match stored with
  | none => pure active
  | some p => do
    let updated ← finalizeIfExpired p
    pure (if updated.status = .pending ∨ updated.status = .disputed then active ++ [updated]
      else active)

def getActiveProposals : Contract (List OptimisticProposal) := do
  let count ← readStore fun _ st => st.readProposalCount
  (List.range' 1 count).foldlM collectActive []

end PriceOracle.Model
