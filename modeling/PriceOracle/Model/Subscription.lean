import PriceOracle.Model.AutoRenewal
import PriceOracle.Model.Custody

/-! # Subscriptions

A consumer subscribes for the duration of a plan, and its payment is recorded until the administrator
distributes or refunds it. A renewal adds the time that is left, at no charge. -/

namespace PriceOracle.Model

open Lib.Transaction Lib.MachineInt

def setSubscriptionToken (token : Address) : Contract Unit := asAdmin do
  modifySubscriptions fun s => { s with subscriptionToken := some token }

def setXlmTokenContract (token : Address) : Contract Unit := asAdmin do
  modifySubscriptions fun s => { s with xlmToken := some token }

/-- The token that payments are collected in. -/
def Store.paymentToken (st : Store) : Option Address :=
  st.subscriptions.subscriptionToken <|> st.subscriptions.xlmToken

/-- A transfer in a token that may not be configured. -/
def transferIn (token : Option Address) (sender recipient : Address) (amount : Int) :
    Contract Unit :=
  match token with
  | some token => transferToken token sender recipient amount
  | none => pure ()

def writeSubscriptionExpiry (consumer : Address) (expiry : Nat) : Contract Unit :=
  modifySubscriptions fun s => { s with expiry := Function.update s.expiry consumer (some expiry) }

def removeSubscriptionExpiry (consumer : Address) : Contract Unit :=
  modifySubscriptions fun s => { s with expiry := Function.update s.expiry consumer none }

def readSubscriptionExpiry (consumer : Address) (missing : ErrorCode) : Contract Nat :=
  consult fun w => match w.store.subscriptions.expiry consumer with
    | some expiry => .ok expiry
    | none => .error missing

def getPlanAmount (duration : Nat) : Contract Int :=
  consult fun w => match w.store.subscriptions.plan duration with
    | some amount => .ok amount
    | none => .error .invalidDuration

def readSubscriptionPayment (consumer : Address) : Contract SubscriptionPayment :=
  consult fun w => match w.store.subscriptions.payment consumer with
    | some payment => .ok payment
    | none => .error .noData

def writeSubscriptionPayment (consumer : Address) (payment : SubscriptionPayment) : Contract Unit :=
  modifySubscriptions fun s => { s with
    payment := Function.update s.payment consumer (some payment) }

def removeTokenRecord (consumer : Address) : Contract Unit :=
  modifySubscriptions fun s => { s with tokenDeposit := Function.update s.tokenDeposit consumer none }

/-- The payment is recorded also where no token is configured to collect it in. -/
def collectPayment (consumer : Address) (amount : Int) : Contract Unit := do
  let token ← readStore fun _ st => st.paymentToken
  let this ← getContractAddress
  transferIn token consumer this amount
  let now ← getTimestamp
  writeSubscriptionPayment consumer ⟨consumer, amount, now, 1⟩

/-- A subscription runs from now on, whatever is left of the one before. -/
def subscribe (consumer : Address) (duration : Nat) : Contract Unit := do
  requireAuth consumer
  let amount ← getPlanAmount duration
  if 0 < amount then collectPayment consumer amount else pure ()
  let now ← getTimestamp
  writeSubscriptionExpiry consumer (satAdd64 now duration)

def renewSubscription (consumer : Address) : Contract Unit := do
  requireAuth consumer
  let expiry ← readSubscriptionExpiry consumer .noData
  let now ← getTimestamp
  ensure (now ≤ expiry) .subscriptionExpired
  writeSubscriptionExpiry consumer (satAdd64 expiry (expiry - now))

/-- The part of a deposit for the time that is left. -/
def TokenSubscriptionRecord.refund (record : TokenSubscriptionRecord) (expiry now : Nat) : Int :=
  let total := record.expiryTimestamp - record.startTimestamp
  if 0 < total ∧ now < expiry then
    (wrapMul record.depositedAmount ↑(total - (now - record.startTimestamp))).tdiv total
  else 0

def refundDeposit (consumer : Address) (expiry : Nat) : Contract Unit := do
  let token ← readStore fun _ st => st.subscriptions.subscriptionToken
  let record ← readStore fun _ st => st.subscriptions.tokenDeposit consumer
  match token, record with
  | some token, some record => do
    let now ← getTimestamp
    let this ← getContractAddress
    if 0 < record.refund expiry now then
      transferToken token this consumer (record.refund expiry now)
    else pure ()
    removeTokenRecord consumer
  | _, _ => pure ()

def cancelSubscription (consumer : Address) : Contract Unit := do
  requireAuth consumer
  let expiry ← readSubscriptionExpiry consumer .noActiveSubscription
  refundDeposit consumer expiry
  revokeOnCancel consumer
  removeSubscriptionExpiry consumer

/-- A payment is open until it has been distributed or refunded. -/
def readOpenPayment (consumer : Address) : Contract SubscriptionPayment := do
  let payment ← readSubscriptionPayment consumer
  ensure (payment.status = 1) .invalidConfiguration
  pure payment

def transferXlm (recipient : Address) (amount : Int) : Contract Unit := do
  let token ← readStore fun _ st => st.subscriptions.xlmToken
  let this ← getContractAddress
  transferIn token this recipient amount

/-- A quarter goes to the treasury, which is the administrator's account; the rest stays here. -/
def distributeSubscriptionFees (consumer : Address) : Contract Unit := asAdmin do
  let payment ← readOpenPayment consumer
  let treasury ← getAdmin
  if 0 < payment.amount.tdiv 4 then transferXlm treasury (payment.amount.tdiv 4) else pure ()
  writeSubscriptionPayment consumer { payment with status := 2 }

def refundSubscriptionPayment (consumer : Address) : Contract Unit := asAdmin do
  let payment ← readOpenPayment consumer
  transferXlm consumer payment.amount
  writeSubscriptionPayment consumer { payment with status := 2 }

end PriceOracle.Model
