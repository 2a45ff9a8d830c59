import PriceOracle.Lib.JsonDump
import Mathlib.Data.List.Sort
import Mathlib.Data.String.Basic

/-! # Payloads of privileged transactions

A payload is normalised before it is reviewed: unknown fields are refused, every argument carries
its type, and the digest is that of the canonical list. -/

namespace PriceOracle.Model.TxReview

open Lib.JsonText Lib.JsonDump Lib.PyText

def payloadSchema : String := "oracle.tx_review.v1"

def privilegedFunctions : List String :=
  ["initialize", "upgrade", "set_admin", "pause", "unpause", "pause_asset", "unpause_asset",
    "set_min_sources_required", "set_max_history_length", "set_max_price_deviation",
    "set_max_sources", "set_max_history_per_asset", "set_max_events_per_call",
    "set_max_aggregation_sources", "set_max_assets", "set_max_inactive_ledgers", "override_price",
    "remove_price_override", "propose_operation", "propose_operation_with_priority",
    "execute_operation", "cancel_operation", "set_timelock_duration", "set_admin_op_daily_limit"]

def payloadFields : List String :=
  ["network", "source_account", "fee", "sequence", "max_time", "operations"]

def maxOperations : Nat := 16

def maxArguments : Nat := 32

inductive PayloadCode
  | malformed
  | unknownField
  | unknownFunction
  | untypedArgument
  | unknownArgumentType
  | argumentValue
  deriving DecidableEq, Repr

structure PayloadError where
  code : PayloadCode
  field : String
  detail : String
  deriving DecidableEq, Repr

inductive IntType
  | i128
  | i64
  | u32
  | u64
  | u128
  deriving DecidableEq, Repr

inductive TextType
  | address
  | symbol
  | string
  | bytes
  deriving DecidableEq, Repr

/-- A typed argument after normalisation. The type name and the canonical value of the code are
`typeName` and `value`. -/
inductive Typed
  | int (type : IntType) (value : Int)
  | bool (value : Bool)
  | text (type : TextType) (value : String)
  | void
  | vec (items : List Typed)
  | map (pairs : List (String × Typed))

def IntType.name : IntType → String
  | .i128 => "i128"
  | .i64 => "i64"
  | .u32 => "u32"
  | .u64 => "u64"
  | .u128 => "u128"

def IntType.named? (name : String) : Option IntType :=
  [IntType.i128, .i64, .u32, .u64, .u128].find? fun type => type.name == name

/-- The types whose name begins with a `u`. -/
def IntType.unsigned : IntType → Bool
  | .i128 | .i64 => false
  | .u32 | .u64 | .u128 => true

def TextType.name : TextType → String
  | .address => "address"
  | .symbol => "symbol"
  | .string => "string"
  | .bytes => "bytes"

def TextType.named? (name : String) : Option TextType :=
  [TextType.address, .symbol, .string, .bytes].find? fun type => type.name == name

def Typed.typeName : Typed → String
  | .int type _ => type.name
  | .bool _ => "bool"
  | .text type _ => type.name
  | .void => "void"
  | .vec _ => "vec"
  | .map _ => "map"

structure Operation where
  contractId : String
  function : String
  args : List (String × Typed)

structure Payload where
  network : String
  sourceAccount : String
  fee : Int
  sequence : Int
  maxTime : Int
  operations : List Operation

mutual

def Typed.value : Typed → Value
  | .int _ value => .int value
  | .bool value => .bool value
  | .text _ value => .str value
  | .void => .null
  | .vec items => .list (canonItems items)
  | .map pairs => .list (canonPairs pairs)
termination_by structural typed => typed

def canonItems : List Typed → List Value
  | [] => []
  | item :: rest => .list [.str item.typeName, item.value] :: canonItems rest
termination_by structural items => items

/-- Names with types and values, as in a map or in the arguments of an operation. -/
def canonPairs : List (String × Typed) → List Value
  | [] => []
  | (name, item) :: rest =>
    .list [.str name, .str item.typeName, item.value] :: canonPairs rest
termination_by structural pairs => pairs

end

def Operation.canonical (op : Operation) : Value :=
  .list [.str op.contractId, .str op.function, .list (canonPairs op.args)]

def Payload.canonical (payload : Payload) : Value :=
  .list [.str payload.network, .str payload.sourceAccount, .int payload.fee, .int payload.sequence,
    .int payload.maxTime, .list (payload.operations.map Operation.canonical)]

/-- The digest of the canonical text. `hexdigest` is the SHA-256 of a text in hexadecimal. -/
def Payload.digest (hexdigest : String → String) (payload : Payload) : String :=
  hexdigest (dumps payload.canonical)

mutual

def Typed.render : Typed → String
  | .int type value => type.name ++ ":" ++ toString value
  | .bool value => "bool:" ++ (if value then "True" else "False")
  | .text type value => type.name ++ ":" ++ value
  | .void => "void"
  | .vec items => "[" ++ ", ".intercalate (renderItems items) ++ "]"
  | .map pairs => "\x7b" ++ ", ".intercalate (renderPairs pairs) ++ "\x7d"
termination_by structural typed => typed

def renderItems : List Typed → List String
  | [] => []
  | item :: rest => item.render :: renderItems rest
termination_by structural items => items

def renderPairs : List (String × Typed) → List String
  | [] => []
  | (name, item) :: rest => (name ++ ": " ++ item.render) :: renderPairs rest
termination_by structural pairs => pairs

end

def Operation.rendered (op : Operation) : String :=
  let args := op.args.map fun arg => arg.1 ++ "=" ++ arg.2.render
  op.contractId ++ "::" ++ op.function ++ "(" ++ ", ".intercalate args ++ ")"

def maxRenderLines : Nat := 64

def maxRenderChars : Nat := 4096

/-- The summary that the reviewers read. -/
def render (payload : Payload) : String :=
  let head :=
    ["PRIVILEGED TRANSACTION REVIEW",
      "network: " ++ payload.network,
      "source account: " ++ payload.sourceAccount,
      "fee: " ++ toString payload.fee ++ " stroops",
      "sequence: " ++ toString payload.sequence,
      "max time: " ++ (if payload.maxTime = 0 then "none" else toString payload.maxTime),
      "operations:"]
  let ops := payload.operations.zipIdx.map fun op =>
    "  " ++ toString (op.2 + 1) ++ ". " ++ op.1.rendered
  let text := "\n".intercalate ((head ++ ops).take maxRenderLines)
  String.ofList (text.toList.take maxRenderChars)

abbrev Normal := Except PayloadError

def requireStr (value : Option Json) (field : String) : Normal String :=
  match value with
  | some (.str text) =>
    if blank text then throw ⟨.malformed, field, "expected a non-empty string"⟩ else pure text
  | _ => throw ⟨.malformed, field, "expected a non-empty string"⟩

def requireInt (value : Option Json) (field : String) (minimum : Int) : Normal Int :=
  match value with
  | some (.int n) =>
    if n < minimum then throw ⟨.argumentValue, field, "must be >= " ++ toString minimum⟩ else pure n
  | _ => throw ⟨.malformed, field, "expected an integer"⟩

/-- The integer of an argument: a number, or a string that `int` reads. -/
def integerOf (type : IntType) (inner : Json) (field : String) : Normal Int :=
  match inner with
  | .bool _ => throw ⟨.argumentValue, field, type.name ++ " is not a bool"⟩
  | .str text =>
    match readInt text with
    | some n => pure n
    | none => throw ⟨.argumentValue, field, type.name ++ " is not an integer"⟩
  | .int n => pure n
  | _ => throw ⟨.argumentValue, field, type.name ++ " is not an integer"⟩

/-- Only the unsigned types have a bound. -/
def normaliseInt (type : IntType) (inner : Json) (field : String) : Normal Typed := do
  let value ← integerOf type inner field
  if type.unsigned = true ∧ value < 0 then
    throw ⟨.argumentValue, field, type.name ++ " must be >= 0"⟩
  pure (.int type value)

def normaliseText (type : TextType) (inner : Json) (field : String) : Normal Typed :=
  match inner with
  | .str text =>
    if (type = .address ∨ type = .symbol) ∧ blank text = true then
      throw ⟨.argumentValue, field, type.name ++ " must be a non-empty string"⟩
    else pure (.text type text)
  | _ =>
    if type = .bytes then throw ⟨.argumentValue, field, "bytes must be a base64/hex string"⟩
    else throw ⟨.argumentValue, field, type.name ++ " must be a non-empty string"⟩

/-- The name of the type of an argument, which has no fields but `type` and `value`. -/
def argumentType (members : List (String × Json)) (field : String) : Normal String :=
  if members.any fun member => member.1 != "type" && member.1 != "value" then
    throw ⟨.unknownField, field, "argument carries unknown fields"⟩
  else
    match get? members "type" with
    | some (.str name) => pure name
    | _ => throw ⟨.untypedArgument, field, "argument has no type"⟩

/-- The types whose value has no arguments inside, and the errors of the others. -/
def normaliseScalar (inner : Json) (type field : String) : Normal Typed :=
  match IntType.named? type, TextType.named? type with
  | some type, _ => normaliseInt type inner field
  | none, some type => normaliseText type inner field
  | none, none =>
    if type = "bool" then
      match inner with
      | .bool value => pure (.bool value)
      | _ => throw ⟨.argumentValue, field, "bool is not a boolean"⟩
    else if type = "void" then
      match inner with
      | .null => pure .void
      | _ => throw ⟨.argumentValue, field, "void takes no value"⟩
    else if type = "vec" then throw ⟨.argumentValue, field, "vec must be a list"⟩
    else if type = "map" then throw ⟨.argumentValue, field, "map must be an object"⟩
    else throw ⟨.unknownArgumentType, field, "argument type is not one the guard can render"⟩

def byName {α : Type} (pairs : List (String × α)) : List (String × α) :=
  pairs.insertionSort fun a b => a.1 ≤ b.1

mutual

/-- `_normalise_typed`. The value of an argument is looked up and then read by its type. -/
def normaliseTyped : Json → String → Normal Typed
  | .obj members, field => do
    let type ← argumentType members field
    normaliseValue members type field
  | .null, field | .bool _, field | .int _, field | .float _, field | .str _, field
  | .arr _, field =>
    throw ⟨.untypedArgument, field,
      "argument must be \x7b'type': ..., 'value': ...\x7d, not a bare value"⟩
termination_by structural raw => raw

def normaliseValue : List (String × Json) → String → String → Normal Typed
  | [], _, field => throw ⟨.argumentValue, field, "argument has no value"⟩
  | (name, inner) :: rest, type, field =>
    if name = "value" then normaliseInner inner type field else normaliseValue rest type field
termination_by structural members => members

def normaliseInner : Json → String → String → Normal Typed
  | .arr items, type, field =>
    if type = "vec" then do pure (.vec (← normaliseItems items field))
    else normaliseScalar (.arr []) type field
  | .obj members, type, field =>
    if type = "map" then do pure (.map (byName (← normaliseMembers members field)))
    else normaliseScalar (.obj []) type field
  | .null, type, field => normaliseScalar .null type field
  | .bool value, type, field => normaliseScalar (.bool value) type field
  | .int value, type, field => normaliseScalar (.int value) type field
  | .float literal, type, field => normaliseScalar (.float literal) type field
  | .str value, type, field => normaliseScalar (.str value) type field
termination_by structural inner => inner

def normaliseItems : List Json → String → Normal (List Typed)
  | [], _ => pure []
  | item :: rest, field => do
    let item ← normaliseTyped item field
    pure (item :: (← normaliseItems rest field))
termination_by structural items => items

def normaliseMembers : List (String × Json) → String → Normal (List (String × Typed))
  | [], _ => pure []
  | (name, item) :: rest, field => do
    let item ← normaliseTyped item field
    pure ((name, item) :: (← normaliseMembers rest field))
termination_by structural members => members

end

/-- The first of the unknown names in their order. -/
def unknownField (members : List (String × Json)) (known : List String) : Option String :=
  ((members.map Prod.fst).filter fun name => name ∉ known).min?

def normaliseArgs (args : List (String × Json)) (field : String) :
    Normal (List (String × Typed)) :=
  args.mapM fun arg => do
    let item ← normaliseTyped arg.2 (field ++ ".args." ++ arg.1)
    pure (arg.1, item)

def rejectIf (condition : Prop) [Decidable condition] (error : PayloadError) : Normal Unit :=
  if condition then throw error else pure ()

/-- The arguments of an operation. There are none when the field is missing. -/
def argumentsOf (members : List (String × Json)) (field : String) :
    Normal (List (String × Json)) :=
  match (get? members "args").getD (.obj []) with
  | .obj args => pure args
  | _ => throw ⟨.malformed, field ++ ".args", "args must be an object"⟩

def normaliseOperation (raw : Json) (position : Nat) : Normal Operation :=
  let field := "operations[" ++ toString position ++ "]"
  match raw with
  | .obj members => do
    rejectIf ((unknownField members ["contract_id", "function", "args"]).isSome = true)
      ⟨.unknownField, field, "operation carries unknown fields"⟩
    let contractId ← requireStr (get? members "contract_id") (field ++ ".contract_id")
    let function ← requireStr (get? members "function") (field ++ ".function")
    rejectIf (function ∉ privilegedFunctions)
      ⟨.unknownFunction, field ++ ".function", "function is not modelled by the review guard"⟩
    let args ← argumentsOf members field
    rejectIf (maxArguments < args.length) ⟨.malformed, field ++ ".args", "too many arguments"⟩
    let args ← normaliseArgs args field
    pure ⟨contractId, function, byName args⟩
  | _ => throw ⟨.malformed, field, "operation must be an object"⟩

def checkSchema (members : List (String × Json)) : Normal Unit :=
  match (get? members "schema").getD (.str payloadSchema) with
  | .str schema =>
    rejectIf (schema ≠ payloadSchema) ⟨.malformed, "schema", "unsupported payload schema"⟩
  | _ => throw ⟨.malformed, "schema", "unsupported payload schema"⟩

def checkFields (members : List (String × Json)) : Normal Unit :=
  match unknownField members ("schema" :: payloadFields) with
  | some name =>
    throw ⟨.unknownField, name, "payload carries fields the review guard does not cover"⟩
  | none => pure ()

def operationsOf (members : List (String × Json)) : Normal (List Json) :=
  match get? members "operations" with
  | some (.arr (item :: rest)) =>
    if maxOperations < (item :: rest).length then
      throw ⟨.malformed, "operations", "payload has too many operations"⟩
    else pure (item :: rest)
  | _ => throw ⟨.malformed, "operations", "payload has no operations"⟩

def normalise (payload : Json) : Normal Payload :=
  match payload with
  | .obj members => do
    checkSchema members
    checkFields members
    let network ← requireStr (get? members "network") "network"
    let sourceAccount ← requireStr (get? members "source_account") "source_account"
    let fee ← requireInt (some ((get? members "fee").getD (.int 0))) "fee" 0
    let sequence ← requireInt (get? members "sequence") "sequence" 1
    let maxTime ← requireInt (some ((get? members "max_time").getD (.int 0))) "max_time" 0
    let raw ← operationsOf members
    let operations ← raw.zipIdx.mapM fun item => normaliseOperation item.1 item.2
    pure ⟨network, sourceAccount, fee, sequence, maxTime, operations⟩
  | _ => throw ⟨.malformed, "payload", "expected an object"⟩

/-- A payload as it is handed in: a text, or an object that has been read already. -/
inductive PayloadData
  | text (json : String)
  | object (payload : Json)

def loadPayload : PayloadData → Normal Payload
  | .text json =>
    match loads json with
    | some payload => normalise payload
    | none => throw ⟨.malformed, "payload", "payload is not valid JSON"⟩
  | .object payload => normalise payload

end PriceOracle.Model.TxReview

/-! ## Approvals of privileged transactions

An approval covers a payload when it carries the digest and the summary of it, a successful
simulation of it, and the names of enough independent reviewers, and when it has not expired. -/

namespace PriceOracle.Model.TxReview

open Lib.JsonText Lib.PyText

def approvalSchema : String := "oracle.tx_review.approval.v1"

def guardedEnvironments : List String := ["production", "mainnet"]

def environments : List String := guardedEnvironments ++ ["staging", "testnet", "development"]

def approvalFields : List String :=
  ["schema", "payload_sha256", "rendered_summary", "requested_by", "reviewed_by", "reviewed_at",
    "expires_at", "simulation", "notes"]

def simulationFields : List String := ["payload_sha256", "network", "success", "fee_stroops"]

inductive ReviewCode
  | malformedApproval
  | unsupportedSchema
  | unknownField
  | payloadMismatch
  | summaryMismatch
  | simulationMissing
  | simulationMismatch
  | simulationFailed
  | feeAboveCap
  | insufficientReviewers
  | selfReview
  | approvalExpired
  | approvalNotYetValid
  | reviewWindowTooLong
  deriving DecidableEq, Repr

structure ApprovalError where
  code : ReviewCode
  field : String
  detail : String
  deriving DecidableEq, Repr

/-- What a verification raises. -/
inductive Refusal
  | payload (error : PayloadError)
  | approval (error : ApprovalError)
  deriving DecidableEq, Repr

def reviewerFloor (environment : String) : Nat :=
  if environment ∈ guardedEnvironments then 2 else 1

/-- The requirements of the workflow. The reviewer floor is part of what a policy is. -/
structure ReviewPolicy where
  environment : String
  requiredReviewers : Nat
  maxReviewWindowSecs : Int
  maxFeeStroops : Int
  known : environment ∈ environments
  floor : reviewerFloor environment ≤ requiredReviewers
  window : 0 < maxReviewWindowSecs
  cap : 0 ≤ maxFeeStroops

/-- The policy of the defaults. -/
def ReviewPolicy.production : ReviewPolicy where
  environment := "production"
  requiredReviewers := 2
  maxReviewWindowSecs := 86400
  maxFeeStroops := 10000000
  known := by decide
  floor := by decide
  window := by decide
  cap := by decide

/-- A time that `datetime.fromisoformat` reads, in microseconds. It is aware when it carries an
offset. -/
structure Timestamp where
  micros : Int
  aware : Bool

structure Approved where
  payload : Payload
  digest : String
  reviewers : List String
  reviewedAt : Int
  expiresAt : Int
  environment : String

section Verification

variable (hexdigest : String → String) (fromisoformat : String → Option Timestamp)

abbrev Verified := Except Refusal

def refuse {α : Type} (code : ReviewCode) (field detail : String) : Verified α :=
  throw (.approval ⟨code, field, detail⟩)

def liftPayload {α : Type} : Normal α → Verified α
  | .ok value => pure value
  | .error error => throw (.payload error)

def lower (value : String) : String := String.ofList (value.toList.map Char.toLower)

def dropNewlines (value : String) : String :=
  String.ofList ((value.toList.reverse.dropWhile (· == '\n')).reverse)

def suffixZ (value : String) : String :=
  String.ofList (value.toList.flatMap fun c => if c = 'Z' then "+00:00".toList else [c])

/-- The moment of a time stamp that carries its offset. -/
def parseTime (value : Option Json) (field : String) : Verified Int :=
  match value with
  | some (.str text) =>
    if blank text then refuse .malformedApproval field "expected an ISO-8601 timestamp"
    else
      match fromisoformat (suffixZ text) with
      | none => refuse .malformedApproval field "timestamp is not valid ISO-8601"
      | some stamp =>
        if stamp.aware then pure stamp.micros
        else refuse .malformedApproval field "timestamp carries no timezone"
  | _ => refuse .malformedApproval field "expected an ISO-8601 timestamp"

def checkKnown (members : List (String × Json)) : Verified Unit :=
  match get? members "schema" with
  | some (.str schema) =>
    if schema ≠ approvalSchema then
      refuse .unsupportedSchema "schema" "unsupported approval schema"
    else
      match unknownField members approvalFields with
      | some name => refuse .unknownField name "approval carries fields the guard does not check"
      | none => pure ()
  | _ => refuse .unsupportedSchema "schema" "unsupported approval schema"

def checkDigest (members : List (String × Json)) (digest : String) : Verified Unit :=
  match get? members "payload_sha256" with
  | some (.str stored) =>
    if stored = "" then
      refuse .malformedApproval "payload_sha256" "approval carries no payload digest"
    else if lower stored ≠ digest then
      refuse .payloadMismatch "payload_sha256" "payload differs from the reviewed simulation"
    else pure ()
  | _ => refuse .malformedApproval "payload_sha256" "approval carries no payload digest"

def checkSummary (members : List (String × Json)) (payload : Payload) : Verified Unit :=
  match get? members "rendered_summary" with
  | some (.str stored) =>
    if blank stored then
      refuse .malformedApproval "rendered_summary" "approval carries no reviewed summary"
    else if dropNewlines stored ≠ render payload then
      refuse .summaryMismatch "rendered_summary" "reviewed summary does not describe this payload"
    else pure ()
  | _ => refuse .malformedApproval "rendered_summary" "approval carries no reviewed summary"

def strIs (value : Option Json) (text : String) : Bool :=
  match value with
  | some (.str stored) => stored == text
  | _ => false

def isTrue (value : Option Json) : Bool :=
  match value with
  | some (.bool true) => true
  | _ => false

/-- The simulation is of this payload and network, it has succeeded, and the fees keep the cap. -/
def checkSimulation (members : List (String × Json)) (payload : Payload) (digest : String)
    (policy : ReviewPolicy) : Verified Unit :=
  match get? members "simulation" with
  | some (.obj simulation) =>
    match unknownField simulation simulationFields with
    | some name =>
      refuse .unknownField ("simulation." ++ name)
        "simulation carries fields the guard does not check"
    | none => do
      match get? simulation "payload_sha256" with
      | some (.str stored) =>
        if lower stored ≠ digest then
          refuse .simulationMismatch "simulation.payload_sha256"
            "simulation was produced from a different payload"
      | _ =>
        refuse .simulationMismatch "simulation.payload_sha256"
          "simulation was produced from a different payload"
      if strIs (get? simulation "network") payload.network = false then
        refuse .simulationMismatch "simulation.network" "simulation ran against a different network"
      if isTrue (get? simulation "success") = false then
        refuse .simulationFailed "simulation.success" "simulation did not succeed"
      match get? simulation "fee_stroops" with
      | some (.int fee) =>
        if fee < 0 then
          refuse .malformedApproval "simulation.fee_stroops" "fee must be a non-negative integer"
        if policy.maxFeeStroops < fee ∨ policy.maxFeeStroops < payload.fee then
          refuse .feeAboveCap "simulation.fee_stroops"
            ("fee exceeds the " ++ toString policy.maxFeeStroops ++ " stroop cap")
      | _ =>
        refuse .malformedApproval "simulation.fee_stroops" "fee must be a non-negative integer"
  | _ => refuse .simulationMissing "simulation" "approval carries no simulation artifact"

/-- The ids in a list of reviewers. -/
def reviewerIds (value : Option Json) : Option (List String) :=
  match value with
  | some (.arr items) =>
    items.mapM fun item =>
      match item with
      | .str id => if blank id then none else some (strip id)
      | _ => none
  | _ => none

/-- Enough distinct reviewers, and the requester is none of them. -/
def checkReviewers (members : List (String × Json)) (policy : ReviewPolicy) :
    Verified (List String) := do
  let requester ← match get? members "requested_by" with
    | some (.str id) =>
      if blank id then
        refuse .malformedApproval "requested_by" "approval carries no requester"
      else pure (strip id)
    | _ => refuse .malformedApproval "requested_by" "approval carries no requester"
  match reviewerIds (get? members "reviewed_by") with
  | none => refuse .malformedApproval "reviewed_by" "expected a list of reviewer ids"
  | some ids =>
    if ¬ ids.Nodup then
      refuse .insufficientReviewers "reviewed_by" "the same reviewer is listed twice"
    if requester ∈ ids then
      refuse .selfReview "reviewed_by" "the requester cannot approve their own transaction"
    if ids.length < policy.requiredReviewers then
      refuse .insufficientReviewers "reviewed_by"
        (policy.environment ++ " requires " ++ toString policy.requiredReviewers ++
          " independent reviewers")
    pure (ids.insertionSort (· ≤ ·))

/-- The window of the review holds the present moment and is not too long. -/
def checkWindow (members : List (String × Json)) (policy : ReviewPolicy) (now : Int) :
    Verified (Int × Int) := do
  let reviewedAt ← parseTime fromisoformat (get? members "reviewed_at") "reviewed_at"
  let expiresAt ← parseTime fromisoformat (get? members "expires_at") "expires_at"
  if expiresAt ≤ reviewedAt then
    refuse .reviewWindowTooLong "expires_at" "approval expires before it was reviewed"
  if policy.maxReviewWindowSecs * 1000000 < expiresAt - reviewedAt then
    refuse .reviewWindowTooLong "expires_at"
      ("review window is longer than " ++ toString policy.maxReviewWindowSecs ++ "s")
  if now < reviewedAt then
    refuse .approvalNotYetValid "reviewed_at" "approval is dated in the future"
  if expiresAt < now then
    refuse .approvalExpired "expires_at" "approval has expired"
  pure (reviewedAt, expiresAt)

def verifyApproval (data : PayloadData) (approval : Json) (policy : ReviewPolicy) (now : Int) :
    Verified Approved := do
  let payload ← liftPayload (loadPayload data)
  match approval with
  | .obj members =>
    checkKnown members
    let digest := payload.digest hexdigest
    checkDigest members digest
    checkSummary members payload
    checkSimulation members payload digest policy
    let reviewers ← checkReviewers members policy
    let (reviewedAt, expiresAt) ← checkWindow fromisoformat members policy now
    pure ⟨payload, digest, reviewers, reviewedAt, expiresAt, policy.environment⟩
  | _ => refuse .malformedApproval "approval" "expected an object"

end Verification

end PriceOracle.Model.TxReview
