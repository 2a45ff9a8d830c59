import PriceOracle.Model.Pricing
import PriceOracle.Model.Settings

/-! # Multi-round price confirmation

The operations of `consensus_rounds.rs` on one asset's rounds: configuration, opening, voting with
its tally, confirmation, equivocation reports and abandonment. -/

namespace PriceOracle.Model

open Lib.Transaction Lib.MachineInt

def maxRequiredRounds : Nat := 16

def maxRoundQuorum : Nat := 64

def maxAgreementBps : Nat := 10000

/-- `RoundConfig::disabled`. -/
def RoundConfig.disabled : RoundConfig := ⟨1, 1, 5, 500⟩

namespace Store

variable (st : Store)

def getRoundConfig (asset : Address) : RoundConfig := (st.consensus.config asset).getD .disabled

def currentRound (asset : Address) : Nat := (st.consensus.counter asset).getD 0

/-- The ledger at which `round` opened, defaulting to the current ledger. -/
def roundStart (env : Env) (asset : Address) (round : Nat) : Nat :=
  (st.consensus.start (asset, round)).getD env.sequence

/-- The last ledger at which `round` accepts votes. -/
def roundDeadline (env : Env) (asset : Address) (round : Nat) : Nat :=
  satAdd32 (st.roundStart env asset round) (st.getRoundConfig asset).roundLedgers

def roundVotes (asset : Address) (round : Nat) : List RoundVote :=
  ((st.consensus.voteIndex (asset, round)).getD []).filterMap fun s =>
    st.consensus.vote (asset, round, s)

def getRoundTally (asset : Address) (round : Nat) : Option RoundTally :=
  st.consensus.tally (asset, round)

def getEquivocationCount (source asset : Address) : Nat :=
  (st.consensus.equivocationCount (asset, source)).getD 0

def isBarredFromRound (source asset : Address) (round : Nat) : Bool :=
  st.consensus.barred (asset, round, source)

end Store

def setRoundConfig (asset : Address) (config : RoundConfig) : Contract Unit := do
  let admin ← getAdmin
  requireAuth admin
  checkRegisteredAsset asset
  ensure (config.requiredRounds ≠ 0 ∧ config.requiredRounds ≤ maxRequiredRounds)
    .invalidConfiguration
  ensure (config.quorum ≠ 0 ∧ config.quorum ≤ maxRoundQuorum) .invalidConfiguration
  ensure (config.roundLedgers ≠ 0) .invalidConfiguration
  ensure (config.agreementBps ≤ maxAgreementBps) .invalidConfiguration
  modifyConsensus fun c => { c with config := Function.update c.config asset (some config) }

/-- Opens the next round of `asset` at ledger `sequence`. -/
def Consensus.open (c : Consensus) (asset : Address) (sequence : Nat) : Consensus :=
  let next := wrap32 ((c.counter asset).getD 0 + 1)
  { c with
    counter := Function.update c.counter asset (some next)
    start := Function.update c.start (asset, next) (some sequence) }

def startRound (asset : Address) : Contract Nat := do
  checkRegisteredAsset asset
  let sequence ← getSequence
  modifyConsensus fun c => c.open asset sequence
  readStore fun _ st => st.currentRound asset

def observationId (env : Env) (asset : Address) (round : Nat) (source : Address) (price : Int)
    (timestamp : Nat) : Bytes :=
  env.host.sha256 (env.host.toXdr (.address asset) ++ leBytes 4 round ++
    env.host.toXdr (.address source) ++ leBytes 16 (toU128 price) ++ leBytes 8 timestamp)

/-- Tallies a round over its first `quorum` votes, once it has that many. -/
def tryTally (env : Env) (st : Store) (asset : Address) (round : Nat) (config : RoundConfig) :
    Option RoundTally :=
  let votes := st.roundVotes asset round
  if votes.length < config.quorum then none
  else
    let counted := votes.take config.quorum
    some {
      median := Pricing.computeMedian (counted.map RoundVote.price)
      votes := config.quorum
      finalizedLedger := env.sequence
      timestamp := counted.foldl (fun newest v => max newest v.timestamp) 0
      sources := counted }

/-- Stores a vote and appends the voter to the round's index. -/
def Consensus.castVote (c : Consensus) (asset : Address) (round : Nat) (vote : RoundVote) :
    Consensus :=
  { c with
    vote := Function.update c.vote (asset, round, vote.source) (some vote)
    voteIndex := Function.update c.voteIndex (asset, round)
      (some ((c.voteIndex (asset, round)).getD [] ++ [vote.source])) }

/-- Stores a tally and binds each counted observation to its round. -/
def Consensus.recordTally (c : Consensus) (asset : Address) (round : Nat) (t : RoundTally) :
    Consensus :=
  { c with
    tally := Function.update c.tally (asset, round) (some t)
    evidenceOwner := t.sources.foldl
      (fun m v => Function.update m (asset, v.observationId) (some round)) c.evidenceOwner }

def tallyIfDue (asset : Address) (round : Nat) (config : RoundConfig) : Contract Unit := do
  let done ← readStore fun _ st => (st.getRoundTally asset round).isSome
  if done then pure ()
  else do
    let tally ← readStore fun e st => tryTally e st asset round config
    match tally with
    | none => pure ()
    | some t => modifyConsensus fun c => c.recordTally asset round t

def submitRoundVote (source asset : Address) (round : Nat) (price : Int) (timestamp : Nat) :
    Contract Unit := do
  requireAuth source
  checkSource source
  checkRegisteredAsset asset
  let config ← readStore fun _ st => st.getRoundConfig asset
  let expected ← readStore fun _ st => st.currentRound asset
  ensure (round = expected) .roundNotFound
  let sequence ← getSequence
  let deadline ← readStore fun e st => st.roundDeadline e asset round
  ensure (sequence ≤ deadline) .roundExpired
  ensure (0 < price) .invalidPrice
  let now ← getTimestamp
  let threshold ← readStore fun _ st => st.getTimestampThreshold
  ensure (timestamp ≤ satAdd64 now threshold) .invalidTimestamp
  let barred ← readStore fun _ st => st.isBarredFromRound source asset round
  ensure (barred = false) .roundEquivocation
  let id ← readStore fun e _ => observationId e asset round source price timestamp
  let existing ← readStore fun _ st => st.consensus.vote (asset, round, source)
  match existing with
  | some v =>
    -- an identical retry is accepted without effect; a different value is refused
    ensure (v.price = price ∧ v.timestamp = timestamp) .roundEquivocation
  | none => do
    let owner ← readStore fun _ st => st.consensus.evidenceOwner (asset, id)
    ensure (owner.getD round = round) .roundEvidenceReplay
    modifyConsensus fun c => c.castVote asset round ⟨source, price, timestamp, sequence, id⟩
    tallyIfDue asset round config

/-- Spread between two medians in basis points. -/
def bpsBetween (a b : Int) : Nat :=
  if a = b then 0
  else if a = 0 ∨ b = 0 then maxAgreementBps
  else
    let (lo, hi) := if a < b then (a, b) else (b, a)
    let diff := toU128 (wrapSub hi lo)
    let scaled := wrap128 (diff * 10000) / toU128 lo
    if maxAgreementBps < scaled then maxAgreementBps else scaled

/-- The most recent tallied rounds from `r` down, newest first, at most `n` of them. -/
def Store.talliedRun (st : Store) (asset : Address) : Nat → Nat → List (Nat × RoundTally)
  | 0, _ => []
  | n + 1, r =>
    if r = 0 then []
    else match st.getRoundTally asset r with
      | none => []
      | some tally => (r, tally) :: st.talliedRun asset n (r - 1)

/-- The spread of each pair of adjacent medians. -/
def adjacentSpreads : List Int → List Nat
  | a :: b :: medians => bpsBetween a b :: adjacentSpreads (b :: medians)
  | _ => []

def finalizeConfirmation (asset : Address) : Contract ConfirmedPrice := do
  checkRegisteredAsset asset
  let config ← readStore fun _ st => st.getRoundConfig asset
  let current ← readStore fun _ st => st.currentRound asset
  let run ← readStore fun _ st => st.talliedRun asset config.requiredRounds current
  let medians := run.map fun x => x.2.median
  let rounds := run.map Prod.fst
  ensure (config.requiredRounds ≤ rounds.length) .noData
  ensure (∀ spread ∈ adjacentSpreads medians, spread ≤ config.agreementBps) .noData
  let decimals ← readStore fun _ st => st.getDecimals
  let sequence ← getSequence
  let confirmed : ConfirmedPrice := {
    price := Pricing.computeMedian medians
    decimals := decimals
    rounds := rounds
    spreadBps := (adjacentSpreads medians).foldl max 0
    finalizedLedger := sequence
    timestamp := run.foldl (fun newest x => max newest x.2.timestamp) 0 }
  modifyConsensus fun c => { c with
    confirmedPrice := Function.update c.confirmedPrice asset (some confirmed)
    confirmedRounds := Function.update c.confirmedRounds asset (some rounds) }
  pure confirmed

/-- Bars `source` from `round` and raises its lifetime count. -/
def Consensus.penalise (c : Consensus) (source asset : Address) (round : Nat) : Consensus :=
  { c with
    equivocationCount := Function.update c.equivocationCount (asset, source)
      (some (wrap32 ((c.equivocationCount (asset, source)).getD 0 + 1)))
    barred := Function.update c.barred (asset, round, source) true }

def reportEquivocation (source asset : Address) (round : Nat) : Contract Unit := do
  checkRegisteredAsset asset
  let vote ← readStore fun _ st => st.consensus.vote (asset, round, source)
  ensure (vote.isSome = true) .roundNotFound
  let barred ← readStore fun _ st => st.isBarredFromRound source asset round
  if barred then pure ()
  else modifyConsensus fun c => c.penalise source asset round

def abandonStalledRound (asset : Address) : Contract Nat := do
  checkRegisteredAsset asset
  let round ← readStore fun _ st => st.currentRound asset
  let sequence ← getSequence
  let deadline ← readStore fun e st => st.roundDeadline e asset round
  ensure (deadline < sequence) .roundExpired
  let next ← startRound asset
  modifyConsensus fun c => { c with
    abandoned := Function.update c.abandoned asset
      (some (wrap32 ((c.abandoned asset).getD 0 + 1))) }
  pure next

end PriceOracle.Model
