import PriceOracle.Model.Settings

/-! # Baskets

A basket weighs the prices of other assets. Its constituents are checked as a whole before it is
stored; a rebalance replaces the weights and keeps the assets. Its value is a weighted sum over the
constituents whose aggregates are recent. -/

namespace PriceOracle.Model

open Lib.Transaction Lib.MachineInt

def basketWeightScale : Nat := 1000000

def maxBasketConstituents : Nat := 32

section Validation

variable (st : Store) (basket : Address)

/-- The constituents one by one, after the assets in `seen`; the sum of their weights is added to
`total`. -/
def Store.checkConstituents :
    List Address → Nat → List BasketConstituent → Except ErrorCode Nat
  | _, total, [] => .ok total
  | seen, total, c :: rest =>
    if c.weight = 0 then .error .invalidBasketWeights
    else if c.asset = basket then .error .recursiveBasket
    else if (st.baskets c.asset).isSome then .error .recursiveBasket
    else if c.asset ∈ seen then .error .invalidBasketComposition
    else checkConstituents (seen ++ [c.asset]) (total + c.weight) rest

def Store.validateConstituents (constituents : List BasketConstituent) : Except ErrorCode Nat :=
  if constituents.length = 0 ∨ maxBasketConstituents < constituents.length then
    .error .invalidBasketComposition
  else do
    let total ← st.checkConstituents basket [] 0 constituents
    if total ≠ basketWeightScale then .error .invalidBasketWeights
    else .ok total

end Validation

def writeBasket (basket : Address) (config : BasketConfig) : Contract Unit :=
  modifyBaskets fun b => Function.update b basket (some config)

def setBasket (basket : Address) (config : BasketConfig) : Contract Unit :=
  asAdmin do
    let total ← consult fun w => w.store.validateConstituents basket config.constituents
    writeBasket basket { config with totalWeight := total }

def getBasket (basket : Address) : Contract BasketConfig :=
  consult fun w => match w.store.baskets basket with
    | some config => .ok config
    | none => .error .basketNotFound

/-- The constituents with new weights, by position. -/
def reweigh (constituents : List BasketConstituent) (weights : List Nat) :
    List BasketConstituent :=
  constituents.zipWith (fun c weight => { c with weight := weight }) weights

def rebalanceBasket (basket : Address) (weights : List Nat) : Contract Unit :=
  asAdmin do
    let config ← getBasket basket
    ensure (weights.length = config.constituents.length) .invalidBasketWeights
    ensure (0 ∉ weights) .invalidBasketWeights
    ensure (weights.sum = basketWeightScale) .invalidBasketWeights
    writeBasket basket
      { config with constituents := reweigh config.constituents weights, totalWeight := weights.sum }

def defaultBasketMaxStaleness : Nat := 300

structure BasketContribution where
  asset : Address
  weight : Nat
  price : Int
  timestamp : Nat
  contribution : Int
  stalenessSecs : Nat
  present : Bool
  fresh : Bool
deriving DecidableEq

structure BasketValue where
  value : Int
  decimals : Nat
  isDegraded : Bool
  liveConstituents : Nat
  totalConstituents : Nat
  stalenessSecs : Nat
  contributions : List BasketContribution
deriving DecidableEq

/-- A constituent as it is reported; one that is not fresh contributes nothing. -/
def Store.basketContribution (st : Store) (now maxStaleness : Nat) (c : BasketConstituent) :
    BasketContribution :=
  let agg := st.aggregate c.asset
  let price := (agg.map AggregatePrice.price).getD 0
  let timestamp := (agg.map AggregatePrice.timestamp).getD 0
  let age := if agg.isSome then now - timestamp else 0
  let fresh := agg.isSome && decide (age ≤ maxStaleness)
  { asset := c.asset
    weight := c.weight
    price
    timestamp
    contribution := if fresh then
      wrap (wrap128 (toU128 price * c.weight) / basketWeightScale : Nat) else 0
    stalenessSecs := age
    present := agg.isSome
    fresh }

/-- The accumulators of `get_basket_value`. -/
structure BasketTotals where
  weightedSum : Nat := 0
  live : Nat := 0
  worstStaleness : Nat := 0
  anyUnusable : Bool := false
  contributions : List BasketContribution := []

def BasketTotals.add (t : BasketTotals) (leg : BasketContribution) : BasketTotals :=
  if leg.fresh then
    { t with
      weightedSum := wrap128 (t.weightedSum + wrap128 (toU128 leg.price * leg.weight))
      live := t.live + 1
      worstStaleness := max t.worstStaleness leg.stalenessSecs
      contributions := t.contributions ++ [leg] }
  else { t with anyUnusable := true, contributions := t.contributions ++ [leg] }

/-- The value of a basket, with the stored staleness bound. -/
def Store.basketValue (env : Env) (st : Store) (maxStaleness : Option Nat) (basket : Address) :
    Except ErrorCode BasketValue :=
  match st.baskets basket with
  | none => .error .basketNotFound
  | some config =>
    let bound := maxStaleness.getD defaultBasketMaxStaleness
    let totals := config.constituents.foldl
      (fun t c => t.add (st.basketContribution env.timestamp bound c)) ({} : BasketTotals)
    if totals.anyUnusable = true ∧ config.stalenessPolicy = .reject then
      .error .basketConstituentStale
    else
      let scaled := totals.weightedSum / basketWeightScale
      if i128Max < scaled then .error .invalidConfiguration
      else .ok {
        value := scaled
        decimals := st.getDecimals
        isDegraded := totals.anyUnusable
        liveConstituents := totals.live
        totalConstituents := config.constituents.length
        stalenessSecs := totals.worstStaleness
        contributions := totals.contributions }

def getBasketValue (maxStaleness : Option Nat) (basket : Address) : Contract BasketValue :=
  consult fun w => w.store.basketValue w.env maxStaleness basket

end PriceOracle.Model
