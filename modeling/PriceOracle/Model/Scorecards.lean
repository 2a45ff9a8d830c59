import PriceOracle.Model.SanityLattice

/-! # Accuracy scorecards

`scorecards.rs` grades every source of a round against the median of the other sources, and keeps the
last errors of each, cut off at a cap and coded as unsigned numbers. -/

namespace PriceOracle.Model.Scorecards

open Lib.MachineInt

/-- The fewest other sources that have a median. -/
def minReferenceSources : Nat := 2

def maxShortWindow : Nat := 64

def maxLongWindow : Nat := 512

structure ScorecardConfig where
  shortWindow : Nat
  longWindow : Nat
  coldStartSamples : Nat
  hitToleranceBps : Nat
  outlierCapBps : Nat
deriving DecidableEq

def defaultConfig : ScorecardConfig where
  shortWindow := 10
  longWindow := 50
  coldStartSamples := 5
  hitToleranceBps := 100
  outlierCapBps := 5000

structure ScorecardWindow where
  samples : Nat
  meanAbsErrorBps : Nat
  biasBps : Int
  hitRateBps : Nat
deriving DecidableEq

structure SourceScorecard where
  source : Address
  short : ScorecardWindow
  long : ScorecardWindow
  coldStart : Bool
  shortSamples : Nat
  longMaxErrorBps : Nat
deriving DecidableEq

/-- The stored configuration and samples. -/
structure Cards where
  cfg : Option ScorecardConfig := none
  sourceScorecard : Map Address (List Nat) := fun _ => none

def Cards.config (s : Cards) : ScorecardConfig := s.cfg.getD defaultConfig

/-- `samples`: the retained samples, oldest first. -/
def Cards.samples (s : Cards) (source : Address) : List Nat :=
  (s.sourceScorecard source).getD []

/-- `set_config`, by a caller who is the administrator or not. -/
def setConfig (byAdmin : Bool) (cfg : ScorecardConfig) (s : Cards) :
    Except ErrorCode Cards :=
  if byAdmin = false then .error .notAuthorized
  else if cfg.shortWindow = 0 ∨ maxShortWindow < cfg.shortWindow ∨
      cfg.longWindow < cfg.shortWindow ∨ maxLongWindow < cfg.longWindow ∨
      cfg.longWindow < cfg.coldStartSamples ∨ cfg.hitToleranceBps = 0 ∨
      maxToleranceBps < cfg.hitToleranceBps ∨ cfg.outlierCapBps = 0 ∨
      u32Max < cfg.outlierCapBps then
    .error .invalidScorecardConfig
  else .ok { s with cfg := some cfg }

/-- The signed relative error of the price, in basis points. -/
def errorBps (price reference : Int) : Int :=
  if reference = 0 then 0
  else (satMul (wrapSub price reference) 10000).tdiv (wrapAbs reference)

/-- The cut at the cap keeps the sign. -/
def winsorize (cap : Nat) (raw : Int) : Int := max (-(cap : Int)) (min cap raw)

def encodeSample (err : Int) : Nat :=
  let shifted := err + 2 ^ 31
  if shifted < 0 then 0 else if (u32Max : Int) < shifted then u32Max else shifted.toNat

def decodeSample (stored : Nat) : Int := stored - 2 ^ 31

/-- The figures of the last `n` samples; a mean error beyond 32 bits is truncated to them. -/
def windowOver (s : List Nat) (n hitTol : Nat) : ScorecardWindow :=
  let slice := s.drop (s.length - n)
  if slice.length = 0 then ⟨0, 0, 0, 0⟩
  else
    let errs := slice.map decodeSample
    let hits := errs.countP fun err => decide (err.natAbs ≤ hitTol)
    { samples := slice.length
      meanAbsErrorBps := (errs.map Int.natAbs).sum / slice.length % 2 ^ 32
      biasBps := (errs.sum.tdiv slice.length + 2 ^ 31) % 2 ^ 32 - 2 ^ 31
      hitRateBps := hits * 10000 / slice.length }

/-- The buffer holds as many samples as the longest window. -/
def toSlice (v : List Nat) : List Nat := v.take maxLongWindow

def summarize (source : Address) (all : List Nat) (cfg : ScorecardConfig) : SourceScorecard :=
  let short := windowOver all cfg.shortWindow cfg.hitToleranceBps
  let long := windowOver all cfg.longWindow cfg.hitToleranceBps
  { source, short, long
    coldStart := decide (long.samples < cfg.coldStartSamples)
    shortSamples := short.samples
    longMaxErrorBps :=
      all.foldl (fun longMax v => max longMax ((decodeSample v).natAbs % 2 ^ 32)) 0 }

def getScorecard (s : Cards) (source : Address) : SourceScorecard :=
  summarize source (toSlice (s.samples source)) s.config

/-- The sample is appended, and the oldest ones go until the long window holds the rest. -/
def record (source : Address) (reference price : Int) (s : Cards) :
    Cards × SourceScorecard :=
  let stored := encodeSample (winsorize s.config.outlierCapBps (errorBps price reference))
  let pushed := s.samples source ++ [stored]
  let all := pushed.drop (pushed.length - s.config.longWindow)
  ({ s with sourceScorecard := Function.update s.sourceScorecard source (some all) },
    summarize source (toSlice all) s.config)

/-- The median of the prices but the one at `skip`, as many as the buffer holds. -/
def leaveOneOutMedian (prices : List Int) (skip : Nat) : Option Int :=
  let rest := (prices.eraseIdx skip).take maxLongWindow
  let n := rest.length
  if n < minReferenceSources then none
  else
    let sorted := rest.insertionSort (· ≤ ·)
    if n % 2 = 1 then some (sorted.getD (n / 2) 0)
    else some (Pricing.midpoint (sorted.getD (n / 2 - 1) 0) (sorted.getD (n / 2) 0))

/-- The prices of a round that fit the buffer of `record_round`. -/
def roundPrices (sources : List Address) (prices : List Int) : List Int :=
  prices.take (min (min sources.length prices.length) maxLongWindow)

/-- One iteration of the loop of `record_round`. -/
def recordSource (sources : List Address) (buf : List Int) (s : Cards) (i : Nat) : Cards :=
  match leaveOneOutMedian buf i with
  | some reference =>
    if 0 < reference then (record (sources.getD i 0) reference (buf.getD i 0) s).1 else s
  | none => s

def recordRound (sources : List Address) (prices : List Int) (s : Cards) : Cards :=
  let buf := roundPrices sources prices
  (List.range buf.length).foldl (recordSource sources buf) s

end PriceOracle.Model.Scorecards
