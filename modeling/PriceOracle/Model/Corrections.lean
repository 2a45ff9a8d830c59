import PriceOracle.Model.Submissions

/-! # Bounds and corrections

The administrator's writers of `price_bounds.rs` and `corrections.rs`: setting and clearing the
two-tier bounds of an asset, and replacing a published aggregate within its hard band. -/

namespace PriceOracle.Model

open Lib.Transaction Lib.MachineInt

/-- `price_bounds::validate`: only an ordered tier is stored. -/
def BoundsTierArg.validate (t : BoundsTierArg) : Except ErrorCode BoundsTier :=
  if h : t.softMin ≤ 0 ∨ t.softMax < t.softMin ∨ t.hardMin ≤ 0 ∨ t.softMin < t.hardMin ∨
      t.hardMax < t.softMax then .error .invalidBoundOrdering
  else .ok
    { toBoundsTierArg := t
      hardMin_pos := by omega
      hardMin_le := by omega
      soft_le := by omega
      le_hardMax := by omega }

def setBounds (asset : Address) (arg : BoundsTierArg) : Contract Unit :=
  asAdmin do
    checkRegisteredAsset asset
    let tier ← consult fun _ => arg.validate
    modifyBounds fun b => { b with tier := Function.update b.tier asset (some tier) }
    updateGuards fun g => { g with anyBoundsConfigured := true }

def clearBounds (asset : Address) : Contract Unit :=
  asAdmin do
    checkRegisteredAsset asset
    modifyBounds fun b => { b with tier := Function.update b.tier asset none }

/-- The price lies in the hard band of the tier of `asset`, if one is configured. -/
def Bounds.admits (b : Bounds) (asset : Address) (price : Int) : Bool :=
  (b.tier asset).all fun t => t.hardMin ≤ price ∧ price ≤ t.hardMax

def maxCorrectionWindowLedgers : Nat := 17280

def maxCorrectionsPerAsset : Nat := 32

def maxReasonLen : Nat := 256

def Store.getCorrectionScope (st : Store) : CorrectionScope :=
  st.config.correctionScope.getD ⟨none, maxCorrectionWindowLedgers, maxCorrectionsPerAsset⟩

/-- The limits with the hard maxima in force. -/
def CorrectionScope.bounded (scope : CorrectionScope) : CorrectionScope :=
  { scope with
    windowLedgers := min scope.windowLedgers maxCorrectionWindowLedgers
    maxCorrections := min scope.maxCorrections maxCorrectionsPerAsset }

def setCorrectionScope (scope : CorrectionScope) : Contract Unit :=
  asAdmin do
    ensure (scope.windowLedgers ≠ 0 ∧ scope.maxCorrections ≠ 0) .invalidConfiguration
    forM (scope.assets.getD []) checkRegisteredAsset
    modifyConfig fun c => { c with correctionScope := some scope.bounded }
    updateGuards fun g => { g with anyCorrectionsEnabled := true }

def Store.getRevisions (st : Store) (asset : Address) : List PriceRevision :=
  (st.corrections.revisions asset).getD []

def Store.correctionCount (st : Store) (asset : Address) : Nat :=
  (st.corrections.count asset).getD 0

/-- The newest ledger of the history index. -/
def Store.historyLedger (st : Store) (asset : Address) : Nat :=
  (st.history.ledgerList asset).getLast?.getD 0

def readAggregate (asset : Address) : Contract AggregatePrice :=
  consult fun w => match w.store.aggregate asset with
    | some a => .ok a
    | none => .error .noData

/-- Scope, count and age limits of a correction; returns the aggregate it replaces. -/
def checkCorrection (asset : Address) : Contract AggregatePrice := do
  let scope ← readStore fun _ st => st.getCorrectionScope
  ensure (scope.assets.all fun assets => assets.contains asset) .notAuthorized
  let count ← readStore fun _ st => st.correctionCount asset
  ensure (count < scope.maxCorrections) .correctionLimitReached
  let previous ← readAggregate asset
  let ledger ← getSequence
  let publishedLedger ← readStore fun _ st => st.historyLedger asset
  ensure (ledger - publishedLedger ≤ scope.windowLedgers) .correctionWindowExpired
  pure previous

/-- Revision 0 is seeded from the live value if nothing has been recorded yet. -/
def seedRevisions (asset : Address) (previous : AggregatePrice) : Contract Unit := do
  let revisions ← readStore fun _ st => st.getRevisions asset
  if revisions = [] then recordOriginal asset previous else pure ()

def AggregatePrice.corrected (previous : AggregatePrice) (newPrice : Int) (timestamp : Nat) :
    AggregatePrice :=
  { previous with
    price := newPrice
    timestamp
    isOverride := true
    version := satSucc previous.version }

/-- `correct_price`. The administrator implicitly holds the role the source asks for. -/
def correctPrice (asset : Address) (newPrice : Int) (reason : String) : Contract Nat := do
  let admin ← getAdmin
  requireAuth admin
  checkRegisteredAsset asset
  ensure (0 < newPrice) .invalidPrice
  ensure (reason ≠ "" ∧ reason.utf8ByteSize ≤ maxReasonLen) .invalidCorrectionReason
  let admitted ← readStore fun _ st => st.bounds.admits asset newPrice
  ensure (admitted = true) .aggregateRejectedByBounds
  let previous ← checkCorrection asset
  seedRevisions asset previous
  let index ← readStore fun _ st => (st.getRevisions asset).length
  let ledger ← getSequence
  let timestamp ← getTimestamp
  writeAggregate asset (previous.corrected newPrice timestamp)
  modifyCorrections fun c => { c with
    count := Function.update c.count asset (some (satAdd32 ((c.count asset).getD 0) 1))
    revisions := Function.update c.revisions asset
      (some ((c.revisions asset).getD [] ++
        [⟨index, newPrice, timestamp, ledger, admin, reason, true⟩])) }
  pure index

end PriceOracle.Model
