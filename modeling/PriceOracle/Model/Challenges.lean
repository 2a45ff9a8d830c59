import PriceOracle.Model.Settings

/-! # Challenges

Anybody may challenge the price of an asset, within bounds on how much is open at a time. The
administrator resolves: a valid challenge earns a reward, an invalid one is a strike and forfeits as
much. -/

namespace PriceOracle.Model

open Lib.Transaction Lib.MachineInt

def maxOpenChallengesPerChallenger : Nat := 3

def maxOpenChallengesPerAsset : Nat := 5

def maxChallengerStrikes : Nat := 3

def readU32 (m : Map Address Nat) (key : Address) : Nat := (m key).getD 0

/-- A zero is removed rather than stored. -/
def writeU32 (m : Map Address Nat) (key : Address) (value : Nat) : Map Address Nat :=
  Function.update m key (if value = 0 then none else some value)

@[simp] theorem readU32_writeU32 (m : Map Address Nat) (key other : Address) (value : Nat) :
    readU32 (writeU32 m key value) other = if other = key then value else readU32 m other := by
  unfold readU32 writeU32
  by_cases hother : other = key
  · subst hother
    rw [Function.update_self,if_pos rfl]
    split_ifs with hzero
    · exact hzero.symm
    · rfl
  · rw [Function.update_of_ne hother,if_neg hother]

/-- The number of the next challenge. -/
def Challenges.nextId (c : Challenges) : Nat := wrap32 (c.count.getD 0 + 1)

/-- The record of a new challenge. -/
def Challenge.opened (id : Nat) (asset challenger : Address) (expectedPrice : Int)
    (proofData : Bytes) (sequence : Nat) : Challenge where
  id := id
  asset := asset
  challenger := challenger
  expectedPrice := expectedPrice
  proofData := proofData
  challengedLedger := sequence
  isResolved := false
  isValid := false
  rewardAmount := 0

def challengePrice (challenger asset : Address) (expectedPrice : Int) (proofData : Bytes) :
    Contract Unit := do
  requireAuth challenger
  checkRegisteredAsset asset
  ensure (0 < expectedPrice) .invalidPrice
  let strikes ← readStore fun _ st => readU32 st.challenges.challengerStrikes challenger
  ensure (strikes < maxChallengerStrikes) .notAuthorized
  let challengerOpen ← readStore fun _ st => readU32 st.challenges.challengerOpenCount challenger
  let assetOpen ← readStore fun _ st => readU32 st.challenges.assetOpenChallenges asset
  ensure (challengerOpen < maxOpenChallengesPerChallenger ∧ assetOpen < maxOpenChallengesPerAsset)
    .rateLimitExceeded
  modifyChallenges fun c => { c with
    challengerOpenCount := writeU32 c.challengerOpenCount challenger (challengerOpen + 1)
    assetOpenChallenges := writeU32 c.assetOpenChallenges asset (assetOpen + 1) }
  let sequence ← getSequence
  modifyChallenges fun c => { c with
    challenge := Function.update c.challenge c.nextId
      (some (.opened c.nextId asset challenger expectedPrice proofData sequence))
    count := some c.nextId }

def foundChallenge (id : Nat) : Contract Challenge :=
  consult fun w => match w.store.challenges.challenge id with
    | some challenge => .ok challenge
    | none => .error .operationNotFound

/-- A thousandth of the challenged price, and at least 1. -/
def Challenge.reward (challenge : Challenge) : Int :=
  let base := challenge.expectedPrice.tdiv 1000
  if 0 < base then base else 1

def Challenge.penalty (challenge : Challenge) : Int := max (challenge.expectedPrice.tdiv 1000) 1

def Store.challengerRewards (st : Store) (challenger : Address) : Int :=
  (st.custody.challengerRewards challenger).getD 0

def writeChallengerRewards (challenger : Address) (amount : Int) : Contract Unit :=
  modifyCustody fun c => { c with
    challengerRewards := Function.update c.challengerRewards challenger (some amount) }

def resolveChallenge (id : Nat) (isValid : Bool) : Contract Unit :=
  asAdmin do
    let challenge ← foundChallenge id
    ensure (challenge.isResolved = false) .invalidConfiguration
    modifyChallenges fun c => { c with
      challengerOpenCount := writeU32 c.challengerOpenCount challenge.challenger
        (readU32 c.challengerOpenCount challenge.challenger - 1)
      assetOpenChallenges := writeU32 c.assetOpenChallenges challenge.asset
        (readU32 c.assetOpenChallenges challenge.asset - 1) }
    let rewards ← readStore fun _ st => st.challengerRewards challenge.challenger
    if isValid then
      writeChallengerRewards challenge.challenger (wrapAdd rewards challenge.reward)
    else do
      modifyChallenges fun c => { c with
        challengerStrikes := writeU32 c.challengerStrikes challenge.challenger
          (wrap32 (readU32 c.challengerStrikes challenge.challenger + 1)) }
      writeChallengerRewards challenge.challenger (max (wrapSub rewards challenge.penalty) 0)
    modifyChallenges fun c => { c with
      challenge := Function.update c.challenge id (some { challenge with
        isResolved := true
        isValid := isValid
        rewardAmount := if isValid then challenge.reward else challenge.rewardAmount }) }

/-- The rewards are only accounted for: no token is transferred. -/
def claimRewards (claimer : Address) : Contract Int := do
  requireAuth claimer
  let rewards ← readStore fun _ st => st.challengerRewards claimer
  if rewards = 0 then pure 0
  else do
    modifyCustody fun c => { c with
      challengerRewards := Function.update c.challengerRewards claimer none }
    pure rewards

end PriceOracle.Model
