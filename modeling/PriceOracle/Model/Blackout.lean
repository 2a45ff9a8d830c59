import PriceOracle.Model.Screening

/-! # Blackout windows

The administrator schedules, extends and cancels the windows in which an asset is not aggregated;
enough sources that signal volatility together open one on their own. Each asset has one window at a
time, and the end of the last one is kept. -/

namespace PriceOracle.Model

open Lib.Transaction Lib.MachineInt

def maxBlackoutSecs : Nat := 6 * 3600

def minNoticeSecs : Nat := 3600

def cooldownSecs : Nat := 6 * 3600

def signalWindowSecs : Nat := 300

def volatilityBlackoutSecs : Nat := 1800

def originScheduled : Nat := 1

def originVolatility : Nat := 2

def Store.getVolatilityQuorum (st : Store) : Nat := st.volatility.quorum.getD 3

def setVolatilityQuorum (quorum : Nat) : Contract Unit :=
  asAdmin do
    ensure (2 ≤ quorum) .invalidConfiguration
    modifyVolatility fun v => { v with quorum := some quorum }

def storeWindow (asset : Address) (b : BlackoutWindow) : Contract Unit := do
  mark .blackout
  modifyRounds fun r => { r with
    blackoutWindow := Function.update r.blackoutWindow asset (some b) }

/-- `blackout::close`: the window is gone, and has ended at `stop`. -/
def closeWindow (asset : Address) (stop : Nat) : Contract Unit :=
  modifyRounds fun r => { r with
    blackoutWindow := Function.update r.blackoutWindow asset none
    blackoutLastEnd := Function.update r.blackoutLastEnd asset (some stop) }

/-- A window that is over is closed; any other one stands in the way. -/
def closeExpired (asset : Address) : Contract Unit := do
  let now ← getTimestamp
  let window ← readStore fun _ st => st.blackoutWindowOf asset
  match window with
  | none => pure ()
  | some b => do
    ensure (b.stop ≤ now) .invalidConfiguration
    closeWindow asset b.stop

def checkCanOpen (asset : Address) (start : Nat) : Contract Unit := do
  closeExpired asset
  let lastEnd ← readStore fun _ st => st.rounds.blackoutLastEnd asset
  ensure (∀ l ∈ lastEnd, satAdd64 l cooldownSecs ≤ start) .invalidConfiguration

def scheduleBlackout (asset : Address) (start stop : Nat) : Contract Unit :=
  asAdmin do
    checkRegisteredAsset asset
    let now ← getTimestamp
    ensure (satAdd64 now minNoticeSecs ≤ start ∧ start < stop ∧ stop - start ≤ maxBlackoutSecs)
      .invalidConfiguration
    checkCanOpen asset start
    storeWindow asset ⟨start, stop, originScheduled⟩

def openedWindow (asset : Address) : Contract BlackoutWindow :=
  consult fun w => match w.store.blackoutWindowOf asset with
    | some b => .ok b
    | none => .error .invalidConfiguration

def extendBlackout (asset : Address) (newStop : Nat) : Contract Unit :=
  asAdmin do
    let b ← openedWindow asset
    let now ← getTimestamp
    ensure (now < b.stop ∧ b.stop < newStop ∧
      wrapSub64 newStop b.start ≤ maxBlackoutSecs) .invalidConfiguration
    storeWindow asset { b with stop := newStop }

def cancelBlackout (asset : Address) : Contract Unit :=
  asAdmin do
    let b ← openedWindow asset
    let now ← getTimestamp
    closeWindow asset (min now b.stop)

/-- The signals that still count at `now`; without any, the count begins anew. -/
def Store.signalsAt (st : Store) (asset : Address) (now : Nat) : VolatilitySignals :=
  ((st.volatility.signals asset).filter fun s => now - s.since < signalWindowSecs).getD ⟨now, []⟩

def VolatilitySignals.add (s : VolatilitySignals) (source : Address) : VolatilitySignals :=
  if s.sources.contains source then s else { s with sources := s.sources ++ [source] }

/-- Counts a signal that has passed the checks; the one that completes the quorum opens a window. -/
def countSignal (source asset : Address) : Contract Bool := do
  let now ← getTimestamp
  let previous ← readStore fun _ st => st.signalsAt asset now
  let signals := previous.add source
  let quorum ← readStore fun _ st => st.getVolatilityQuorum
  if signals.sources.length < quorum then do
    modifyVolatility fun v => { v with signals := Function.update v.signals asset (some signals) }
    pure false
  else do
    modifyVolatility fun v => { v with signals := Function.update v.signals asset none }
    checkCanOpen asset now
    storeWindow asset ⟨now, wrap64 (now + volatilityBlackoutSecs), originVolatility⟩
    pure true

def signalVolatility (source asset : Address) : Contract Bool := do
  requireAuth source
  checkSource source
  checkRegisteredAsset asset
  let probation ← readStore fun _ st => st.onProbation source
  ensure (probation = false) .notAuthorized
  countSignal source asset

end PriceOracle.Model
