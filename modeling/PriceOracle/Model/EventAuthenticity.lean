import PriceOracle.Lib.Texts

/-! # Authenticity of indexed events

A raw envelope is read field by field and refused with a code before anything is written. The
received contract id is not part of a refusal. -/

namespace PriceOracle.Model.Indexing

open Lib.JsonText Lib.PyText

abbrev Data := List (String × Json)

inductive AuthenticityCode
  | malformedEvent
  | contractMismatch
  | unknownTopic
  | ledgerRange
  | ledgerHashMissing
  | ledgerHashInconsistent
  | ledgerTimeRegression
  deriving DecidableEq, Repr

structure AuthenticityError where
  code : AuthenticityCode
  ledger : Option Int
  detail : String
  deriving DecidableEq, Repr

def maxDetail : Nat := 160

def refusal (code : AuthenticityCode) (ledger : Option Int) (detail : String) :
    AuthenticityError :=
  ⟨code, ledger, String.ofList (detail.toList.take maxDetail)⟩

structure TrustPolicy where
  expectedContractId : Option String := none
  minLedger : Int := 1
  requireLedgerHash : Bool := false
  allowedTopics : List String := []
  deriving DecidableEq, Repr

structure VerifiedEvent where
  ledger : Int
  eventIndex : Int
  ledgerHash : Option String
  timestamp : Int
  contractId : String
  topic : String
  data : Data
  deriving DecidableEq

/-- `value or None` for an optional string -/
def truthy (value : Option String) : Option String := value.filter (· != "")

/-- `mapping.get(name)`, where a missing name and a null are both `None` -/
def field (members : Data) (name : String) : Json := (get? members name).getD .null

/-- `_int`: a bool is no integer. -/
def asInt? : Json → Option Int
  | .int n => some n
  | .null | .bool _ | .float _ | .str _ | .arr _ | .obj _ => none

def asStr? : Json → Option String
  | .str text => some text
  | .null | .bool _ | .int _ | .float _ | .arr _ | .obj _ => none

def typeName : Json → String
  | .null => "NoneType"
  | .bool _ => "bool"
  | .int _ => "int"
  | .float _ => "float"
  | .str _ => "str"
  | .arr _ => "list"
  | .obj _ => "dict"

/-- `value` if it is not `None`, else `default` -/
def orElse (value default : Json) : Json :=
  match value with
  | .null => default
  | .bool _ | .int _ | .float _ | .str _ | .arr _ | .obj _ => value

def required {α : Type} (value : Option α) (error : AuthenticityError) :
    Except AuthenticityError α :=
  match value with
  | some value => pure value
  | none => throw error

/-- The hash of the ledger, stripped. One that is given must not be blank. -/
def verifyHash (policy : TrustPolicy) (ledger : Int) :
    Json → Except AuthenticityError (Option String)
  | .null =>
    if policy.requireLedgerHash then
      throw (refusal .ledgerHashMissing ledger
        "ledger_hash is required to detect reorgs on this stream")
    else pure none
  | value => do
    let text ← required ((asStr? value).filter (!blank ·))
      (refusal .malformedEvent ledger "ledger_hash must be a non-empty string")
    pure (some (strip text))

/-- `verify_event`. The index of the row goes before the one that the caller counts. -/
def verifyEvent (policy : TrustPolicy) (row : Json) (pinned : Option String)
    (lastCloseTime : Option Int) (eventIndex : Json) :
    Except AuthenticityError VerifiedEvent :=
  match row with
  | .obj members => do
    let given := asInt? (field members "ledger")
    let ledger ← required (given.filter (policy.minLedger ≤ ·))
      (refusal .ledgerRange given
        ("ledger must be an integer >= " ++ toString policy.minLedger))
    let index ← required
      ((asInt? (orElse (field members "event_index") eventIndex)).filter (0 ≤ ·))
      (refusal .malformedEvent ledger "event_index must be a non-negative integer")
    let timestamp ← required ((asInt? (field members "timestamp")).filter (0 < ·))
      (refusal .malformedEvent ledger "timestamp must be a positive integer")
    let contractId ← required ((asStr? (field members "contract_id")).filter (!blank ·))
      (refusal .malformedEvent ledger "event carries no contract id")
    if ((truthy policy.expectedContractId).or pinned).any (· != contractId) then
      throw (refusal .contractMismatch ledger
        "event was emitted by a contract this store does not index")
    let topic ← required ((asStr? (field members "topic")).filter (!blank ·))
      (refusal .malformedEvent ledger "event carries no topic")
    if policy.allowedTopics ≠ [] ∧ topic ∉ policy.allowedTopics then
      throw (refusal .unknownTopic ledger "topic is not one this indexer interprets")
    let ledgerHash ← verifyHash policy ledger (field members "ledger_hash")
    if let some last := lastCloseTime then
      if timestamp < last then
        throw (refusal .ledgerTimeRegression ledger
          ("close time is " ++ toString (last - timestamp) ++ "s before the last indexed ledger"))
    match field members "data" with
    | .obj data => pure ⟨ledger, index, ledgerHash, timestamp, contractId, topic, data⟩
    | _ => throw (refusal .malformedEvent ledger "event data must be an object")
  | other =>
    throw (refusal .malformedEvent none ("expected an object, got " ++ typeName other))

end PriceOracle.Model.Indexing
