import PriceOracle.Lib.SquareRoot
import PriceOracle.Model.Settings

/-! # Fair values of exotic assets

A liquidity token is worth twice the root of its reserves, an index the mean of its components, and
an option what the closed formula says; a component is resolved in the same way, to a bounded depth.
All values are scaled by `10 ^ 18`. -/

namespace PriceOracle.Model

open Lib.Transaction Lib.MachineInt Lib.SquareRoot

namespace Exotic

def scale : Int := 10 ^ 18

def maxResolutionDepth : Nat := 3

/-- Newton's iteration from `n` itself; its guesses fit 128 bits, and so do their sums. -/
def isqrtU128 (n : Nat) : Nat := if n = 0 then 0 else newton n n n ((n + 1) / 2)

def fixedSqrt (x : Int) : Int :=
  if x ≤ 0 then 0 else wrap (isqrtU128 (satMul128 x.toNat scale.toNat))

/-- The loop that halves the argument of a logarithm, and counts. -/
def reduceDown : Nat → Int × Int → Int × Int
  | 0, state => state
  | fuel + 1, (val, n) => if 2 * scale ≤ val then reduceDown fuel (val.tdiv 2, n + 1) else (val, n)

/-- The loop that doubles it. -/
def reduceUp : Nat → Int × Int → Int × Int
  | 0, state => state
  | fuel + 1, (val, n) => if val < scale then reduceUp fuel (val * 2, n - 1) else (val, n)

def fixedLn (x : Int) : Int :=
  if x ≤ 0 then -scale * 40
  else if x = scale then 0
  else
    -- a value of 128 bits is halved, and a positive one doubled, less often than this
    let (val, n) := reduceUp 64 (reduceDown 128 (x, 0))
    let t := (satMul (val - scale) scale).tdiv (val + scale)
    let t2 := (satMul t t).tdiv scale
    let t3 := (satMul t2 t).tdiv scale
    let t5 := (satMul t3 t2).tdiv scale
    let t7 := (satMul t5 t2).tdiv scale
    let atanh := t + t3.tdiv 3 + t5.tdiv 5 + t7.tdiv 7
    satMul 693147180559945309 n + 2 * atanh

def fixedLnRatio (a b : Int) : Int :=
  if b = 0 ∨ a ≤ 0 then 0 else fixedLn ((satMul a scale).tdiv b)

/-- The terms of the alternating series, one after the other. -/
def expTerm (x : Int) (acc : Int × Int) (k : Nat) : Int × Int :=
  let (result, term) := acc
  let term := ((satMul term x).tdiv scale).tdiv k
  (if k % 2 = 0 then satAdd result term else satSub result term, term)

def fixedExpNeg (x : Int) : Int :=
  if x ≤ 0 then scale
  else if 20 * scale < x then 0
  else max ((List.range' 1 16).foldl (expTerm x) (scale, scale)).1 0

def standardNormalPdf (dAbs : Int) : Int :=
  let dSq := (satMul dAbs dAbs).tdiv scale
  (satMul 398942280401432678 (fixedExpNeg (dSq.tdiv 2))).tdiv scale

/-- The polynomial of the tail in `t`, from the inside out; the coefficients have nine digits. -/
def tailPoly (t : Int) : Int :=
  let step4 := wrapAdd (-1821255978) ((satMul 1330274429 t).tdiv scale)
  let step3 := wrapAdd 1781477937 ((satMul step4 t).tdiv scale)
  let step2 := wrapAdd (-356563782) ((satMul step3 t).tdiv scale)
  let step1 := wrapAdd 319381530 ((satMul step2 t).tdiv scale)
  let acc := (satMul step1 t).tdiv scale
  (satMul acc scale).tdiv 1000000000

def clampScale (x : Int) : Int := max 0 (min x scale)

def normalCdf (d : Int) : Int :=
  let negative := d < 0
  let dAbs := if negative then wrap (-d) else d
  let tDenom := wrapAdd scale ((satMul 2316419 dAbs).tdiv 10000000)
  if tDenom = 0 then if negative then 0 else scale
  else
    let poly := tailPoly ((satMul scale scale).tdiv tDenom)
    let tail := (satMul (standardNormalPdf dAbs) poly).tdiv scale
    let nPos := clampScale (scale - clampScale tail)
    if negative then scale - nPos else nPos

def computeLpTokenPrice (reserve0 reserve1 totalSupply : Nat) : Except ErrorCode Int :=
  if totalSupply = 0 then .error .invalidConfiguration
  else if reserve0 = 0 ∨ reserve1 = 0 then .error .noData
  else
    let sqrtProduct := isqrtU128 (satMul128 reserve0 reserve1 / scale.toNat)
    let numerator := satMul128 (satMul128 2 sqrtProduct) scale.toNat
    .ok (wrap (numerator / totalSupply : Nat))

/-- One component of an index adds its weighted price. -/
def addComponent (resolve : Address → Except ErrorCode Int) (acc : Int × Nat)
    (component : Address × Nat) : Except ErrorCode (Int × Nat) := do
  let price ← resolve component.1
  if price ≤ 0 then .error .noData
  else .ok (satAdd acc.1 (satMul price component.2), satAdd64 acc.2 component.2)

def computeIndexPrice (resolve : Address → Except ErrorCode Int) (components : List Address)
    (weights : List Nat) : Except ErrorCode Int := do
  if components.isEmpty ∨ components.length ≠ weights.length then .error .invalidConfiguration
  else
    let (weightedSum, weightTotal) ← (components.zip weights).foldlM (addComponent resolve) (0, 0)
    if weightTotal = 0 then .error .invalidConfiguration else .ok (weightedSum.tdiv weightTotal)

def intrinsic (s k : Int) (isCall : Bool) : Int :=
  if isCall then max (wrapSub s k) 0 else max (wrapSub k s) 0

/-- The difference of the two legs before it is clamped, for given probabilities. -/
def legs (s k nD1 nD2 : Int) (isCall : Bool) : Int :=
  if isCall then wrapSub ((satMul s nD1).tdiv scale) ((satMul k nD2).tdiv scale)
  else wrapSub ((satMul k (scale - nD2)).tdiv scale) ((satMul s (scale - nD1)).tdiv scale)

/-- `sigma * sqrt(T)`. -/
def sigmaSqrtT (sigma t : Int) : Int := (satMul sigma (fixedSqrt t)).tdiv scale

/-- `d1 = (ln(S/K) + sigma^2 * T / 2) / (sigma * sqrt(T))`. -/
def dOne (s k sigma t : Int) : Int :=
  let sigmaSq := (satMul sigma sigma).tdiv scale
  let halfSigmaSqT := ((satMul sigmaSq t).tdiv scale).tdiv 2
  (satMul (wrapAdd (fixedLnRatio s k) halfSigmaSqT) scale).tdiv (sigmaSqrtT sigma t)

def dTwo (s k sigma t : Int) : Int := wrapSub (dOne s k sigma t) (sigmaSqrtT sigma t)

/-- Without volatility or time that shows at this scale, an option has no time value. -/
def degenerate (sigma t : Int) : Bool := sigma = 0 ∨ t = 0 ∨ sigmaSqrtT sigma t = 0

def optionValue (s k sigma t : Int) (isCall : Bool) : Int :=
  if degenerate sigma t then intrinsic s k isCall
  else max (legs s k (normalCdf (dOne s k sigma t)) (normalCdf (dTwo s k sigma t)) isCall) 0

def secsPerYear : Int := 31536000

/-- The time to an expiry in years. -/
def yearsTo (expiry timestamp : Nat) : Int :=
  (satMul (expiry - timestamp : Nat) scale).tdiv secsPerYear

def sigmaOf (config : AssetPricingConfig) : Int := config.volatilityBps * scale.tdiv 10000

end Exotic

namespace Store

variable (env : Env) (st : Store)

/-- The volatility is that of the underlying's configuration. -/
def computeOptionPrice (resolve : Address → Except ErrorCode Int) (underlying : Address)
    (strike expiry : Nat) (isCall : Bool) : Except ErrorCode Int := do
  let s ← resolve underlying
  if s ≤ 0 then .error .noData
  else if expiry ≤ env.timestamp then .ok (Exotic.intrinsic s (wrap strike) isCall)
  else match st.exotic underlying with
    | none => .error .exoticAssetNotConfigured
    | some config => .ok (Exotic.optionValue s (wrap strike) (Exotic.sigmaOf config)
        (Exotic.yearsTo expiry env.timestamp) isCall)

def resolveDirectPrice (asset : Address) : Except ErrorCode Int :=
  match st.aggregate asset with
  | some aggregate => .ok aggregate.price
  | none => .error .noData

/-- The fair value of an asset that lies below the visited ones; the fuel is the depth that is
left. An asset leaves the visited ones when it is resolved, so each branch sees its own path. -/
def resolvePrice : Nat → List Address → Address → Except ErrorCode Int
  | 0, _, _ => .error .exoticCycleLimitExceeded
  | depth + 1, visited, asset =>
    if asset ∈ visited then .error .exoticCycleDetected
    else match st.exotic asset with
      | none => .error .exoticAssetNotConfigured
      | some config =>
        let resolve := resolvePrice depth (visited ++ [asset])
        match config.assetType with
        | .direct => st.resolveDirectPrice asset
        | .lpToken reserve0 reserve1 totalSupply =>
          Exotic.computeLpTokenPrice reserve0 reserve1 totalSupply
        | .index components weights => Exotic.computeIndexPrice resolve components weights
        | .option underlying strike expiry isCall =>
          st.computeOptionPrice env resolve underlying strike expiry isCall

end Store

end PriceOracle.Model
