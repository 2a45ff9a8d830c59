import PriceOracle.Model.Configuration

/-! # Recovery of the administrator's key

Guardians name a candidate; once enough of them approved the same one, a delay begins after which
anyone may install it. The administrator may cancel before that. -/

namespace PriceOracle.Model

open Lib.Transaction Lib.MachineInt

def defaultRecoveryDelay : Nat := 17280

def maxRecoveryDelay : Nat := 172800

def Store.getGuardians (st : Store) : List Address := st.recovery.guardians.getD []

def Store.getRecoveryThreshold (st : Store) : Nat := st.recovery.threshold.getD 0

def Store.getRecoveryDelay (st : Store) : Nat := st.recovery.delay.getD defaultRecoveryDelay

/-- Neither the guardians nor the delay change during a recovery or the cooldown of a veto. -/
def checkRecoveryConfigUnlocked : Contract Unit := do
  let pending ← readStore fun _ st => st.recovery.pending
  ensure (pending = none) .recoveryAlreadyPending
  let cooling ← readStore fun e st => st.recovery.veto.any fun veto => e.sequence < veto.2
  ensure (cooling = false) .recoveryAlreadyPending

def setGuardians (guardians : List Address) (threshold : Nat) : Contract Unit := asAdmin do
  checkRecoveryConfigUnlocked
  ensure (¬(threshold = 0 ∨ guardians.length < threshold)) .invalidGuardianConfig
  modifyRecovery fun r => { r with guardians := some guardians, threshold := some threshold }

def setRecoveryDelay (delayLedgers : Nat) : Contract Unit := asAdmin do
  checkRecoveryConfigUnlocked
  ensure (¬(delayLedgers = 0 ∨ maxRecoveryDelay < delayLedgers)) .invalidConfiguration
  modifyRecovery fun r => { r with delay := some delayLedgers }

/-- The recovery with one more approval; the first quorum begins the delay. -/
def GuardianRecovery.approve (recovery : GuardianRecovery) (guardian : Address)
    (threshold sequence : Nat) : GuardianRecovery :=
  let approvals := recovery.approvals ++ [guardian]
  { recovery with
    approvals
    readyLedger := if recovery.readyLedger = 0 ∧ threshold ≤ approvals.length then sequence
      else recovery.readyLedger }

def approveRecovery (guardian newAdmin : Address) : Contract Unit := do
  requireAuth guardian
  let guardians ← readStore fun _ st => st.getGuardians
  ensure (guardian ∈ guardians) .notGuardian
  let sequence ← getSequence
  let recovery ← readStore fun _ st => st.recovery.pending.getD ⟨newAdmin, [], sequence, 0⟩
  ensure (recovery.newAdmin = newAdmin) .recoveryAlreadyPending
  ensure (guardian ∉ recovery.approvals) .recoveryAlreadyApproved
  let threshold ← readStore fun _ st => st.getRecoveryThreshold
  modifyRecovery fun r => { r with pending := some (recovery.approve guardian threshold sequence) }

def readPendingRecovery : Contract GuardianRecovery :=
  consult fun w => match w.store.recovery.pending with
    | some recovery => .ok recovery
    | none => .error .recoveryNotPending

/-- With a quorum a cancellation is a veto, and the administrator has one for each candidate. -/
def vetoRecovery (recovery : GuardianRecovery) : Contract Unit :=
  if recovery.readyLedger = 0 then pure () else do
    let vetoed ← readStore fun _ st => st.recovery.veto.any fun veto => veto.1 = recovery.newAdmin
    ensure (vetoed = false) .notAuthorized
    let untilLedger ← readStore fun e st => satAdd32 e.sequence st.getRecoveryDelay
    modifyRecovery fun r => { r with veto := some (recovery.newAdmin, untilLedger) }

def cancelRecovery : Contract Unit := asAdmin do
  let recovery ← readPendingRecovery
  vetoRecovery recovery
  modifyRecovery fun r => { r with pending := none }

/-- Callable by anyone. -/
def executeRecovery : Contract Unit := do
  let recovery ← readPendingRecovery
  ensure (recovery.readyLedger ≠ 0) .recoveryDelayNotElapsed
  let delay ← readStore fun _ st => st.getRecoveryDelay
  let sequence ← getSequence
  ensure (satAdd32 recovery.readyLedger delay ≤ sequence) .recoveryDelayNotElapsed
  let _ ← getAdmin
  modifyConfig fun c => { c with admin := some recovery.newAdmin }
  modifyRecovery fun r => { r with pending := none, veto := none }

end PriceOracle.Model

/-! ## The dead-man switch

Operators send heartbeats. -/

namespace PriceOracle.Model

open Lib.Transaction

/-- The state that an evaluation reports. -/
inductive DeadManState
  | operational
  | degraded
deriving DecidableEq

def Store.getDeadManConfig (st : Store) : DeadManConfig := st.deadMan.config.getD ⟨0, 0, []⟩

def Store.isDeadManEnabled (st : Store) : Bool := 0 < st.getDeadManConfig.triggerAfter

def Store.isDegraded (st : Store) : Bool := st.deadMan.degraded

/-- A switch that was never beaten reports zero. -/
def Store.getLastHeartbeat (st : Store) : Nat := st.deadMan.lastHeartbeat.getD 0

def Store.isWarningEmitted (st : Store) : Bool := st.deadMan.warned

def deadManConfigure (triggerAfter warnAfter : Nat) (operators : List Address) : Contract Unit :=
  asAdmin do
    ensure (0 < triggerAfter → warnAfter < triggerAfter) .invalidConfiguration
    ensure (0 < triggerAfter → operators ≠ []) .invalidConfiguration
    modifyDeadMan fun d => { d with config := some ⟨triggerAfter, warnAfter, operators⟩ }

/-- A heartbeat records its time and nothing else; only the recovery clears the warning. -/
def deadManHeartbeat (operator : Address) : Contract Unit := do
  let config ← readStore fun _ st => st.getDeadManConfig
  ensure (config.triggerAfter ≠ 0) .deadManDisabled
  requireAuth operator
  ensure (operator ∈ config.operators) .notAuthorized
  let timestamp ← getTimestamp
  modifyDeadMan fun d => { d with lastHeartbeat := some timestamp }

/-- The time since the last heartbeat; the subtraction saturates. -/
def Store.elapsedSince (st : Store) (timestamp : Nat) : Nat := timestamp - st.getLastHeartbeat

/-- The warning is announced once, until a recovery. -/
def warnIfOverdue (elapsed last : Nat) : Contract Unit := do
  let config ← readStore fun _ st => st.getDeadManConfig
  let warned ← readStore fun _ st => st.isWarningEmitted
  if 0 < config.warnAfter ∧ config.warnAfter ≤ elapsed ∧ warned = false then do
    modifyDeadMan fun d => { d with warned := true }
    announce (.warning elapsed config.triggerAfter last)
  else pure ()

def enterDegraded (elapsed last : Nat) : Contract Unit := do
  let timestamp ← getTimestamp
  modifyDeadMan fun d => { d with degraded := true, triggeredAt := some timestamp }
  mark .pause
  modifyGates fun g => { g with pauseFlag := some true }
  let config ← readStore fun _ st => st.getDeadManConfig
  announce (.triggered elapsed config.triggerAfter last)

/-- The part of `evaluate` that runs while the switch is armed and has not tripped. -/
def evaluateArmed : Contract DeadManState := do
  let config ← readStore fun _ st => st.getDeadManConfig
  let elapsed ← readStore fun e st => st.elapsedSince e.timestamp
  let last ← readStore fun _ st => st.getLastHeartbeat
  warnIfOverdue elapsed last
  if config.triggerAfter ≤ elapsed then do
    enterDegraded elapsed last
    pure .degraded
  else pure .operational

/-- Callable by anyone. -/
def deadManEvaluate : Contract DeadManState := do
  let enabled ← readStore fun _ st => st.isDeadManEnabled
  let degraded ← readStore fun _ st => st.isDegraded
  if enabled = false then pure .operational
  else if degraded = true then pure .degraded
  else evaluateArmed

/-- The pause flag is cleared whoever set it. -/
def deadManRecover (guardian : Address) : Contract Unit := do
  requireAuth guardian
  let degraded ← readStore fun _ st => st.isDegraded
  ensure (degraded = true) .notDegraded
  let admin ← getAdmin
  let guardians ← readStore fun _ st => st.getGuardians
  ensure (guardian = admin ∨ guardian ∈ guardians) .notAuthorized
  modifyDeadMan fun d => { d with degraded := false, triggeredAt := none, warned := false }
  modifyGates fun g => { g with pauseFlag := some false }
  announce (.recovered guardian)

end PriceOracle.Model
