import PriceOracle.Model.Submissions

/-! # Re-arming a circuit breaker

A tripped breaker is evaluated with the deviation observed at the moment. It re-arms once the
deviation has settled and the source has recovered, unless it has been open for too long; the
administrator may clear it at any time. -/

namespace PriceOracle.Model

open Lib.Transaction

def BreakerPolicy.default : BreakerPolicy where
  tripBps := 2000
  clearBps := 1000
  settleLedgers := 10
  maxOpenLedgers := 1000
  autoRearm := true

namespace Store

variable (st : Store) (asset : Address)

def getBreakerPolicy : BreakerPolicy := (st.breakers.policy asset).getD .default

/-- The ledger at which the current settle streak began. -/
def settleStreakStart : Nat := (st.breakers.settleStreak asset).getD 0

/-- The ledger at which the breaker last opened. -/
def armedLedger : Nat := (st.breakers.armedLedger asset).getD 0

def breakerEscalations : Nat := (st.breakers.escalations asset).getD 0

def sourceRecoveryLedger : Nat := (st.breakers.sourceRecovery asset).getD 0

def hasSourceRecovery : Bool := st.armedLedger asset < st.sourceRecoveryLedger asset

def breakerEscalated (env : Env) : Bool :=
  (st.getBreakerPolicy asset).maxOpenLedgers < env.sequence - st.armedLedger asset

/-- The verdict of an evaluation whose observation is already in the streak. -/
def canRearm (env : Env) (deviationBps : Nat) : Bool :=
  let policy := st.getBreakerPolicy asset
  let streak := env.sequence - st.settleStreakStart asset
  policy.autoRearm && !st.breakerEscalated asset env &&
    (deviationBps < policy.clearBps && policy.settleLedgers ≤ streak) && st.hasSourceRecovery asset

end Store

def validatePolicy (policy : BreakerPolicy) : Contract Unit := do
  ensure (policy.clearBps < policy.tripBps) .invalidBreakerDeadband
  ensure (policy.settleLedgers ≠ 0) .invalidBreakerPolicy
  ensure (policy.maxOpenLedgers ≠ 0) .invalidBreakerPolicy

def setBreakerPolicy (asset : Address) (policy : BreakerPolicy) : Contract Unit :=
  asAdmin do
    validatePolicy policy
    modifyBreakers fun b => { b with policy := Function.update b.policy asset (some policy) }

def recordSourceRecovery (asset : Address) : Contract Unit := do
  let now ← getSequence
  modifyBreakers fun b => { b with
    sourceRecovery := Function.update b.sourceRecovery asset (some now) }

def recordBreakerSourceRecovery (asset : Address) : Contract Unit :=
  asAdmin do
    checkRegisteredAsset asset
    recordSourceRecovery asset

/-- A trip begins a new streak, and no recovery before it counts. -/
def recordTrip (asset : Address) : Contract Unit := do
  let now ← getSequence
  modifyBreakers fun b => { b with
    armedLedger := Function.update b.armedLedger asset (some now)
    settleStreak := Function.update b.settleStreak asset (some now)
    sourceRecovery := Function.update b.sourceRecovery asset (some 0) }

/-- Lifts the pause of the trip with the breaker, but not one that was there before it. -/
def rearmCircuitBreaker (asset : Address) : Contract Unit :=
  modifyGates fun g => { g with
    circuitBreakerTripped := Function.update g.circuitBreakerTripped asset (some false)
    breakerPause := Function.update g.breakerPause asset false
    assetPauseFlag := if g.breakerPause asset then
        Function.update g.assetPauseFlag asset (some false)
      else g.assetPauseFlag }

/-- The breaker is closed again, and the evidence for that is used up. -/
def closeBreaker (asset : Address) : Contract Unit := do
  rearmCircuitBreaker asset
  modifyBreakers fun b => { b with
    settleStreak := Function.update b.settleStreak asset (some 0)
    sourceRecovery := Function.update b.sourceRecovery asset (some 0) }

/-- A calm observation leaves a streak that has begun as it is; any other one begins it anew. -/
def trackStreak (asset : Address) (deviationBps : Nat) : Contract Unit := do
  let policy ← readStore fun _ st => st.getBreakerPolicy asset
  let start ← readStore fun _ st => st.settleStreakStart asset
  let now ← getSequence
  if deviationBps < policy.clearBps ∧ start ≠ 0 then pure ()
  else modifyBreakers fun b => { b with
    settleStreak := Function.update b.settleStreak asset (some now) }

def noteEscalation (asset : Address) : Contract Unit := do
  let first ← readStore fun e st =>
    st.breakerEscalated asset e && st.breakerEscalations asset == 0
  if first then modifyBreakers fun b => { b with
    escalations := Function.update b.escalations asset (some 1) }
  else pure ()

/-- Tells whether the evaluation has re-armed the breaker. -/
def evaluateRearm (asset : Address) (deviationBps : Nat) : Contract Bool := do
  let tripped ← readStore fun _ st => st.isCircuitBreakerTripped asset
  if tripped = false then pure false
  else do
    trackStreak asset deviationBps
    let canRearm ← readStore fun e st => st.canRearm asset e deviationBps
    noteEscalation asset
    if canRearm then do
      closeBreaker asset
      pure true
    else pure false

def clearBreaker (asset : Address) : Contract Unit :=
  asAdmin do
    closeBreaker asset

end PriceOracle.Model
