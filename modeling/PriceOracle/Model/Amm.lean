import PriceOracle.Model.Custody

/-! # The market maker

Constant-product pools, one for each symbol. A swap is priced by the product of the reserves and
guarded by the published aggregate of the first token. -/

namespace PriceOracle.Model

open Lib.Transaction Lib.MachineInt

def defaultFeeBps : Nat := 30

def defaultMaxDeviationBps : Nat := 500

def safeMulU128 (a b : Nat) : Contract Nat :=
  consult fun _ => if a * b ≤ u128Max then .ok (a * b) else .error .arithmeticOverflow

def safeDivU128 (a b : Nat) : Contract Nat :=
  consult fun _ => if b = 0 then .error .invalidConfiguration else .ok (a / b)

/-- `checked_add` of two unsigned values. -/
def checkedAddU128 (a b : Nat) : Contract Nat :=
  consult fun _ => if a + b ≤ u128Max then .ok (a + b) else .error .arithmeticOverflow

/-- The distance of `a` from `b`, in basis points of `b`. -/
def computeDeviationBps (a b : Nat) : Nat :=
  if b = 0 then u32Max
  else min (satMul128 (max a b - min a b) 10000 / b) u32Max

namespace AmmPool

variable (p : AmmPool)

/-- Whether a swap moves from the first token to the second; none for any other pair. -/
def direction (fromAsset toAsset : Address) : Option Bool :=
  if fromAsset = p.assetX ∧ toAsset = p.assetY then some true
  else if fromAsset = p.assetY ∧ toAsset = p.assetX then some false
  else none

def reserveIn (xToY : Bool) : Nat := if xToY then p.reserveX else p.reserveY

def reserveOut (xToY : Bool) : Nat := if xToY then p.reserveY else p.reserveX

/-- The reserves after a swap. -/
def exchange (xToY : Bool) (amountIn amountOut : Nat) : AmmPool :=
  if xToY then { p with
    reserveX := satAdd128 p.reserveX amountIn, reserveY := p.reserveY - amountOut }
  else { p with
    reserveY := satAdd128 p.reserveY amountIn, reserveX := p.reserveX - amountOut }

end AmmPool

def readPool (asset : Symbol) : Contract (Option AmmPool) :=
  readStore fun _ st => st.amm.pool asset

def writePool (asset : Symbol) (pool : AmmPool) : Contract Unit :=
  modifyAmm fun a => { a with pool := Function.update a.pool asset (some pool) }

def foundPool (asset : Symbol) : Contract AmmPool :=
  consult fun w => match w.store.amm.pool asset with
    | some pool => .ok pool
    | none => .error .poolNotFound

def enabledPool (asset : Symbol) : Contract AmmPool :=
  consult fun w => match w.store.amm.pool asset with
    | some pool => if pool.enabled then .ok pool else .error .poolNotFound
    | none => .error .poolNotFound

/-- The published aggregate of a token; zero when there is none. -/
def Store.oraclePriceForAsset (st : Store) (asset : Address) : Nat :=
  match st.aggregate asset with
  | some a => if 0 < a.price then toU128 a.price else 0
  | none => 0

def Store.readMaxDeviationBps (st : Store) : Nat :=
  st.amm.maxDeviationBps.getD defaultMaxDeviationBps

def initAmm (asset : Symbol) (assetX assetY : Address) (initialX initialY : Int) : Contract Unit :=
  asAdmin do
    ensure (¬(initialX ≤ 0 ∨ initialY ≤ 0)) .invalidConfiguration
    let existing ← readPool asset
    ensure (existing.isSome = false) .poolAlreadyExists
    let k ← safeMulU128 (toU128 initialX) (toU128 initialY)
    writePool asset ⟨assetX, assetY, toU128 initialX, toU128 initialY, k, true, defaultFeeBps⟩

def addLiquidity (caller : Address) (asset : Symbol) (amountX amountY : Int) : Contract Unit := do
  requireAuth caller
  ensure (¬(amountX ≤ 0 ∨ amountY ≤ 0)) .invalidPrice
  let pool ← foundPool asset
  let this ← getContractAddress
  transferToken pool.assetX caller this amountX
  transferToken pool.assetY caller this amountY
  let reserveX := satAdd128 pool.reserveX (toU128 amountX)
  let reserveY := satAdd128 pool.reserveY (toU128 amountY)
  let k ← safeMulU128 reserveX reserveY
  writePool asset { pool with reserveX := reserveX, reserveY := reserveY, k := k }

/-- The spot price after the swap against the published price, where there is one. -/
def checkManipulation (pool : AmmPool) (newRx newRy : Nat) : Contract Unit := do
  let oraclePx ← readStore fun _ st => st.oraclePriceForAsset pool.assetX
  if 0 < oraclePx ∧ 0 < newRx then do
    let scaled ← safeMulU128 newRy 1000000000000000000
    let ammSpot ← safeDivU128 scaled newRx
    let maxDev ← readStore fun _ st => st.readMaxDeviationBps
    ensure (¬maxDev < computeDeviationBps ammSpot oraclePx) .ammPriceManipulation
  else pure ()

/-- The amount that counts towards the product: the fee is left out, rounded down. -/
def amountAfterFee (pool : AmmPool) (amountIn : Nat) : Contract Nat := do
  let scaled ← safeMulU128 amountIn (wrap128 (10000 + 2 ^ 128 - pool.feeBps))
  safeDivU128 scaled 10000

/-- Only the token that leaves the pool is transferred. -/
def swap (caller : Address) (asset : Symbol) (fromAsset toAsset : Address)
    (amountIn minReturn : Int) : Contract Int := do
  requireAuth caller
  ensure (¬amountIn ≤ 0) .invalidPrice
  let pool ← enabledPool asset
  let xToY ← consult fun _ => match pool.direction fromAsset toAsset with
    | some xToY => .ok xToY
    | none => .error .invalidConfiguration
  let afterFee ← amountAfterFee pool (toU128 amountIn)
  let newReserveIn ← checkedAddU128 (pool.reserveIn xToY) afterFee
  let newReserveOut ← safeDivU128 pool.k newReserveIn
  ensure (newReserveOut < pool.reserveOut xToY) .invalidPrice
  let out := pool.reserveOut xToY - newReserveOut
  let amountOut := wrap out
  ensure (minReturn ≤ amountOut) .slippageExceeded
  checkManipulation pool (if xToY then newReserveIn else newReserveOut)
    (if xToY then newReserveOut else newReserveIn)
  let moved := pool.exchange xToY (toU128 amountIn) out
  let k ← safeMulU128 moved.reserveX moved.reserveY
  writePool asset { moved with k := k }
  let this ← getContractAddress
  transferToken toAsset this caller amountOut
  pure amountOut

def setAmmStatus (asset : Symbol) (enabled : Bool) : Contract Unit := asAdmin do
  let pool ← foundPool asset
  writePool asset { pool with enabled := enabled }

end PriceOracle.Model
