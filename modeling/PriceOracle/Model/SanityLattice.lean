import PriceOracle.Model.Submissions

/-! # The sanity lattice

The relations that assets are declared to stand in, the suspension of an asset that lost its peg,
and the violations that a check of a candidate price reports. -/

namespace PriceOracle.Model

open Lib.Transaction

def maxToleranceBps : Nat := 10000

def maxRelationsPerAsset : Nat := 16

/-- The report of a candidate that breaks a relation. -/
structure SanityRelationViolatedEvent where
  asset : Address
  conflictingAsset : Address
  kind : SanityRelationKind
  candidatePrice : Int
  referencePrice : Int
  magnitudeBps : Nat
  toleranceBps : Nat
  action : SanityAction
  ledger : Nat
deriving DecidableEq

namespace Store

variable (env : Env) (st : Store)

def getRelations (asset : Address) : List SanityRelation :=
  (st.config.sanityRelations asset).getD []

/-- The event that the step of `check` for one relation publishes. -/
def relationViolation (asset : Address) (price : Int) (r : SanityRelation) :
    Option SanityRelationViolatedEvent :=
  match st.expectedPrice r with
  | none => none
  | some (reference, expected) =>
    let magnitude := relationMagnitude r price reference expected
    if expected ≤ 0 ∨ magnitude ≤ r.toleranceBps then none
    else some ⟨asset, r.peer, r.kind, price, reference, magnitude, r.toleranceBps, r.action,
      env.sequence⟩

/-- The events of `check`, in the order of the relations. -/
def sanityViolations (asset : Address) (price : Int) : List SanityRelationViolatedEvent :=
  if st.sanitySuspendedAt env asset then []
  else (st.getRelations asset).filterMap (st.relationViolation env asset price)

end Store

/-- A relation is between assets that differ, and a triangle names all three. -/
def SanityRelation.wellFormed (asset : Address) (r : SanityRelation) : Bool :=
  match r.kind with
  | .triangle => r.peer2.any fun p2 => ¬(p2 = asset ∨ r.peer = asset ∨ r.peer = p2)
  | _ => r.peer ≠ asset

/-- `sanity_lattice::validate`. -/
def validateRelation (asset : Address) (r : SanityRelation) : Contract Unit := do
  ensure (¬(r.toleranceBps = 0 ∨ maxToleranceBps < r.toleranceBps)) .invalidSanityTolerance
  ensure (r.wellFormed asset = true) .invalidSanityRelation
  ensure (¬(r.kind = .peg ∧ (r.ratioDen = 0 ∨ r.ratioNum ≤ 0))) .invalidSanityRatio
  checkRegisteredAsset r.peer
  match r.peer2 with
  | none => pure ()
  | some p2 => checkRegisteredAsset p2

def SanityRelation.sameAs (r s : SanityRelation) : Bool := r.peer = s.peer ∧ r.kind = s.kind

/-- A relation that is declared already is refused, not replaced. -/
def addRelation (asset : Address) (relation : SanityRelation) : Contract Unit := asAdmin do
  checkRegisteredAsset asset
  validateRelation asset relation
  let list ← readStore fun _ st => st.getRelations asset
  ensure (list.length < maxRelationsPerAsset) .invalidConfiguration
  ensure (list.any (·.sameAs relation) = false) .invalidSanityRelation
  modifyConfig fun c => { c with
    sanityRelations := Function.update c.sanityRelations asset (some (list ++ [relation])) }
  updateGuards fun g => { g with anySanityRelations := true }

def removeRelation (asset peer : Address) (kind : SanityRelationKind) : Contract Unit := asAdmin do
  let list ← readStore fun _ st => st.getRelations asset
  modifyConfig fun c => { c with
    sanityRelations := Function.update c.sanityRelations asset
      (some (list.filter fun r => ¬(r.peer = peer ∧ r.kind = kind))) }

def declareDepeg (asset : Address) (untilLedger : Nat) : Contract Unit := asAdmin do
  checkRegisteredAsset asset
  modifyConfig fun c => { c with
    sanitySuspended := Function.update c.sanitySuspended asset (some untilLedger) }

def clearDepeg (asset : Address) : Contract Unit := asAdmin do
  modifyConfig fun c => { c with
    sanitySuspended := Function.update c.sanitySuspended asset none }

def clearQuarantine (asset : Address) : Contract Unit := asAdmin do
  checkRegisteredAsset asset
  modifyRounds fun r => { r with
    sanityStatus := Function.update r.sanityStatus asset none }

end PriceOracle.Model
