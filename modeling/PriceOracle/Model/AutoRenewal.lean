import PriceOracle.Model.Settings

/-! # Auto-renewal of subscriptions

A consumer grants a bounded right to renew and signs an authorization for each period; a period is
named by the time at which it is due. Anyone may then have the renewal made, which pulls the
authorized amount out of the consumer's allowance. -/

namespace PriceOracle.Model

open Lib.Transaction Lib.MachineInt

def maxPlanDuration : Nat := 31536000

def maxPeriodsAuthorized : Nat := 1000

/-- The outcome of an attempt; the reason is absent when it succeeded. -/
structure RenewalAttempt where
  consumer : Address
  renewed : Bool
  amount : Int
  reason : Option ErrorCode
  periodId : Nat
  expiry : Nat
deriving DecidableEq

def readRenewalRecord (consumer : Address) : Contract (Option AutoRenewRecord) :=
  readStore fun _ st => st.subscriptions.record consumer

def writeRenewalRecord (record : AutoRenewRecord) : Contract Unit :=
  modifySubscriptions fun s => { s with
    record := Function.update s.record record.consumer (some record) }

def writeRenewalAuth (consumer : Address) (auth : RenewalAuthorization) : Contract Unit :=
  modifySubscriptions fun s => { s with
    authorization := Function.update s.authorization (consumer, auth.periodId) (some auth) }

def markSpent (consumer : Address) (periodId : Nat) : Contract Unit :=
  modifySubscriptions fun s => { s with spent := Function.update s.spent (consumer, periodId) true }

def clearSpent (consumer : Address) (periodId : Nat) : Contract Unit :=
  modifySubscriptions fun s => { s with spent := Function.update s.spent (consumer, periodId) false }

/-- A duration without a plan is priced at zero. -/
def Store.authorizedAmount (st : Store) (record : AutoRenewRecord) : Int :=
  min ((st.subscriptions.plan record.planDuration).getD 0) record.maxAmountPerPeriod

/-- The grant supersedes the one before it, and its first period is due at once. -/
def enableAutoRenewal (consumer token : Address) (planDuration : Nat) (maxAmountPerPeriod : Int)
    (periodsAuthorized : Nat) : Contract Unit := do
  requireAuth consumer
  ensure (¬(planDuration = 0 ∨ maxPlanDuration < planDuration ∨ maxAmountPerPeriod ≤ 0 ∨
    periodsAuthorized = 0 ∨ maxPeriodsAuthorized < periodsAuthorized)) .invalidConfiguration
  let timestamp ← getTimestamp
  writeRenewalRecord ⟨consumer, token, planDuration, maxAmountPerPeriod, periodsAuthorized, 0, 0,
    timestamp, true, false⟩

def disableAutoRenewal (consumer : Address) : Contract Unit := do
  requireAuth consumer
  let record ← readRenewalRecord consumer
  match record with
  | none => pure ()
  | some record => writeRenewalRecord { record with active := false }

def requireRenewalRecord (consumer : Address) : Contract AutoRenewRecord :=
  consult fun w => match w.store.subscriptions.record consumer with
    | some record => .ok record
    | none => .error .autoRenewalNotEnabled

def authorizeRenewal (consumer : Address) (periodId nonce : Nat) : Contract Unit := do
  requireAuth consumer
  let record ← requireRenewalRecord consumer
  ensure (record.cancelled = false) .autoRenewalCancelled
  ensure (record.active = true) .autoRenewalNotEnabled
  ensure (periodId = record.nextRenewalTimestamp) .renewalAuthorizationMissing
  ensure (record.authorizationNonce < nonce) .renewalAuthorizationReplay
  let amount ← readStore fun _ st => st.authorizedAmount record
  writeRenewalAuth consumer ⟨periodId, nonce, amount, false⟩
  writeRenewalRecord { record with authorizationNonce := nonce }
  clearSpent consumer periodId

/-- Why a renewal is refused, with the period and the expiry that the refusal reports. -/
abbrev Refusal := ErrorCode × Nat × Nat

/-- The period before the one that is not due yet: a second attempt in one cycle is a replay. -/
def earlyReason (st : Store) (consumer : Address) (record : AutoRenewRecord) : ErrorCode :=
  let prior := record.nextRenewalTimestamp - record.planDuration
  if prior ≠ record.nextRenewalTimestamp ∧ st.subscriptions.spent (consumer, prior) = true then
    .renewalAuthorizationReplay
  else .noData

/-- The checks of an authorization; the allowance is the live one. -/
def checkRenewalAuth (e : Env) (st : Store) (consumer : Address) (record : AutoRenewRecord)
    (auth : RenewalAuthorization) : Except Refusal (AutoRenewRecord × RenewalAuthorization × Nat) :=
  let periodId := record.nextRenewalTimestamp
  if auth.consumed = true ∨ auth.nonce ≠ record.authorizationNonce then
    .error (.renewalAuthorizationReplay, periodId, 0)
  else if auth.amount ≤ 0 then .error (.noData, periodId, 0)
  else if e.host.allowance record.token consumer e.host.contractAddress < auth.amount then
    .error (.autoRenewalAllowanceExceeded, periodId, 0)
  else match st.subscriptions.expiry consumer with
    | none => .error (.noActiveSubscription, periodId, 0)
    | some expiry =>
      if expiry < e.timestamp then .error (.subscriptionExpired, periodId, expiry)
      else .ok (record, auth, expiry)

/-- The checks of `try_auto_renew`; none of them panics. -/
def checkRenewal (e : Env) (st : Store) (consumer : Address) :
    Except Refusal (AutoRenewRecord × RenewalAuthorization × Nat) :=
  match st.subscriptions.record consumer with
  | none => .error (.autoRenewalNotEnabled, 0, 0)
  | some record =>
    let periodId := record.nextRenewalTimestamp
    if record.cancelled = true then .error (.autoRenewalCancelled, periodId, 0)
    else if record.active = false then .error (.autoRenewalNotEnabled, periodId, 0)
    else if record.periodsAuthorized ≤ record.periodsUsed then
      .error (.autoRenewalAllowanceExceeded, periodId, 0)
    else if st.subscriptions.spent (consumer, periodId) = true then
      .error (.renewalAuthorizationReplay, periodId, 0)
    else if e.timestamp < periodId then .error (earlyReason st consumer record, periodId, 0)
    else match st.subscriptions.authorization (consumer, periodId) with
      | none => .error (.renewalAuthorizationMissing, periodId, 0)
      | some auth => checkRenewalAuth e st consumer record auth

/-- The record after a renewal by the authorization. -/
def AutoRenewRecord.renewed (record : AutoRenewRecord) (auth : RenewalAuthorization) :
    AutoRenewRecord :=
  { record with
    periodsUsed := satAdd32 record.periodsUsed 1
    nextRenewalTimestamp := satAdd64 record.nextRenewalTimestamp record.planDuration
    authorizationNonce := satAdd64 auth.nonce 1 }

/-- `token::Client::transfer_from`, out of the allowance of the owner. -/
def transferFromToken (token spender owner recipient : Address) (amount : Int) : Contract Unit := do
  let moved ← consult fun w =>
    match w.env.host.transferFrom token spender owner recipient amount w.store.custody.balance with
    | some balance => .ok balance
    | none => .error .hostTrap
  modifyCustody fun c => { c with balance := moved }

/-- The writes of a renewal come before its transfer. -/
def renew (consumer : Address) (record : AutoRenewRecord) (auth : RenewalAuthorization)
    (expiry : Nat) : Contract RenewalAttempt := do
  let periodId := record.nextRenewalTimestamp
  writeRenewalAuth consumer ⟨periodId, auth.nonce, auth.amount, true⟩
  markSpent consumer periodId
  writeRenewalRecord (record.renewed auth)
  let newExpiry := satAdd64 expiry record.planDuration
  modifySubscriptions fun s => { s with
    expiry := Function.update s.expiry consumer (some newExpiry) }
  enterReentrancyGuard
  let this ← readStore fun e _ => e.host.contractAddress
  transferFromToken record.token this consumer this auth.amount
  exitReentrancyGuard
  pure ⟨consumer, true, auth.amount, none, periodId, newExpiry⟩

/-- Callable by any keeper. -/
def tryAutoRenew (consumer : Address) : Contract RenewalAttempt := do
  let checked ← readStore fun e st => checkRenewal e st consumer
  match checked with
  | .error (reason, periodId, expiry) => pure ⟨consumer, false, 0, some reason, periodId, expiry⟩
  | .ok (record, auth, expiry) => renew consumer record auth expiry

def consumeAuth (consumer : Address) (periodId : Nat) : Contract Unit := do
  let auth ← readStore fun _ st => st.subscriptions.authorization (consumer, periodId)
  match auth with
  | none => pure ()
  | some auth =>
    if auth.consumed = false then
      writeRenewalAuth consumer ⟨periodId, auth.nonce, auth.amount, true⟩
    else pure ()

def consumeCurrentAuthorization (consumer : Address) : Contract Unit := do
  let record ← readRenewalRecord consumer
  match record with
  | none => pure ()
  | some record => do
    consumeAuth consumer record.nextRenewalTimestamp
    markSpent consumer record.nextRenewalTimestamp

/-- Called by `cancel_subscription`. -/
def revokeOnCancel (consumer : Address) : Contract Unit := do
  let record ← readRenewalRecord consumer
  match record with
  | none => pure ()
  | some record => do
    writeRenewalRecord { record with cancelled := true, active := false }
    consumeCurrentAuthorization consumer

def setSubscriptionPrice (duration : Nat) (amount : Int) : Contract Unit := asAdmin do
  modifySubscriptions fun s => { s with plan := Function.update s.plan duration (some amount) }

end PriceOracle.Model
