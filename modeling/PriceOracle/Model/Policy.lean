import PriceOracle.Model.Settings
import PriceOracle.Model.Pricing

/-! # Aggregation policy and source eligibility

How the policy of an asset is resolved from its layers and its risk tier, which submissions count
as fresh, what they weigh, and which sources are kept out of a round. -/

namespace PriceOracle.Model

open Lib.Transaction Lib.MachineInt

/-- One layer of `effective_policy`: each field set in it replaces the one below. -/
def PolicyOverride.over (o : PolicyOverride) (p : EffectivePolicy) : EffectivePolicy where
  method := o.method.getD p.method
  minSources := o.minSources.getD p.minSources
  freshnessSecs := o.freshnessSecs.getD p.freshnessSecs
  maxDeviationBps := o.maxDeviationBps.getD p.maxDeviationBps

/-- `TIER_PARAMS`; only the four tiers have parameters. -/
def tierParams : Nat → Option EffectivePolicy
  | 0 => some ⟨0, 5, 60, 100⟩
  | 1 => some ⟨0, 3, 300, 300⟩
  | 2 => some ⟨2, 2, 1800, 1000⟩
  | 3 => some ⟨2, 2, 900, 3000⟩
  | _ => none

def weightMax : Nat := 1000

def FreshnessCurve.default : FreshnessCurve := ⟨300, 100, by decide, by decide⟩

def weightForAge (ageSecs : Nat) (curve : FreshnessCurve) : Nat :=
  weightMax - (weightMax - curve.minWeight) * min ageSecs curve.windowSecs / curve.windowSecs

def isFresh (env : Env) (entry : PriceEntry) (windowSecs : Nat) : Bool :=
  windowSecs = 0 ∨ env.timestamp - entry.ledgerTimestamp ≤ windowSecs

def entryWeight (env : Env) (entry : PriceEntry) (curve : FreshnessCurve) : Nat :=
  weightForAge (env.timestamp - entry.ledgerTimestamp) curve

namespace Store

variable (st : Store) (asset : Address)

def getAssetPolicy : Option PolicyOverride :=
  if st.on .assetPolicy then st.config.assetPolicy asset else none

def getAssetClass : Option Nat :=
  if st.on .assetPolicy then st.config.assetClassId asset else none

def classPolicy : Option PolicyOverride := (st.getAssetClass asset).bind st.config.classPolicy

/-- The global layer, then the class, then the asset. -/
def layeredPolicy (minSources : Nat) : EffectivePolicy :=
  [st.classPolicy asset, st.getAssetPolicy asset].foldl
    (fun p layer => (layer.map fun o => o.over p).getD p)
    ⟨st.getAggregationMethod, minSources, 0, 0⟩

def getTierParams : Option EffectivePolicy :=
  if st.on .riskTier then (st.config.assetRiskTier asset).bind tierParams else none

def enforcementFlag : Bool := st.on .riskTier && st.config.riskTierEnforcement.getD false

/-- `risk_tier::apply_to_policy`: the tier supplies what the asset's own override leaves open,
above the class and global layers. -/
def applyToPolicy (p : EffectivePolicy) : EffectivePolicy :=
  match st.getTierParams asset with
  | none => p
  | some base =>
    let o := st.getAssetPolicy asset
    { method := if (o.bind PolicyOverride.method).isNone then base.method else p.method
      minSources := if (o.bind PolicyOverride.minSources).isNone then base.minSources
        else p.minSources
      freshnessSecs := if (o.bind PolicyOverride.freshnessSecs).isNone then base.freshnessSecs
        else p.freshnessSecs
      maxDeviationBps := if (o.bind PolicyOverride.maxDeviationBps).isNone then
          base.maxDeviationBps
        else p.maxDeviationBps }

def defaultWindow : Nat :=
  if st.on .freshnessWindow then st.config.defaultFreshnessWindow.getD 0 else 0

/-- The freshness window: the asset's own, else its tier's, else the default. -/
def windowFor : Nat :=
  match if st.on .freshnessWindow then st.config.assetFreshnessWindow asset else none with
  | some secs => secs
  | none =>
    match st.getTierParams asset with
    | some base => if 0 < base.freshnessSecs then base.freshnessSecs else st.defaultWindow
    | none => st.defaultWindow

def getCurve : FreshnessCurve :=
  if st.on .freshnessCurve then (st.config.freshnessCurve asset).getD .default else .default

def getCapBps : Nat :=
  if st.on .influenceCap then st.config.influenceCapBps.getD 5000 else 5000

def anyProbation : Bool := st.on .sourceLifecycle && st.config.anyProbation

def onProbation (source : Address) : Bool :=
  st.anyProbation && (st.config.lifecycle source).any fun record => !record.graduated

def isCorrelationFlagged (source : Address) : Bool :=
  st.on .correlation && st.stats.correlationFlagged (source, asset)

def getCorrelationPairs : List CorrelationPair :=
  if st.on .correlation then st.config.correlationPairs else []

end Store

def effectivePolicy (asset : Address) : Contract EffectivePolicy := do
  let minSources ← getMinSourcesRequired
  readStore fun _ st => st.layeredPolicy asset minSources

/-- `recompute::is_excluded`. -/
def isExcluded (source : Address) : Contract Bool := do
  let inactive ← readStore fun _ st => st.isSourceInactive source
  if inactive then pure true else isSourceSuspended source

def ratioPrecision : Nat := 10000000

/-- Whether `pair` is enabled, involves `asset`, and its ratio leaves the band at `price`. -/
def Store.violatesPair (st : Store) (asset : Address) (price : Int) (pair : CorrelationPair) :
    Bool :=
  if pair.baseAsset ≠ asset ∧ pair.quoteAsset ≠ asset then false
  else
    let isBase := pair.baseAsset = asset
    let counterpart := if isBase then pair.quoteAsset else pair.baseAsset
    match st.config.correlationBand (pair.baseAsset, pair.quoteAsset),
        st.aggregate counterpart with
    | some band, some agg =>
      if band.enabled = false ∨ agg.price ≤ 0 then false
      else
        let basePrice := toU128 (if isBase then price else agg.price)
        let quotePrice := toU128 (if isBase then agg.price else price)
        let ratio := if basePrice * ratioPrecision ≤ u128Max then
            basePrice * ratioPrecision / quotePrice
          else u128Max
        decide (ratio < band.minRatio ∨ band.maxRatio < ratio)
    | _, _ => false

/-- Flags the source for the asset if a configured pair is violated. -/
def validateCorrelation (asset : Address) (price : Int) (source : Address) : Contract Bool :=
  if price ≤ 0 then pure false
  else do
    let pairs ← readStore fun _ st => st.getCorrelationPairs
    let violated ← readStore fun _ st => pairs.any fun pair => st.violatesPair asset price pair
    if violated then
      modifyStats fun s => { s with
        correlationFlagged := Function.update s.correlationFlagged (source, asset) true }
    pure (!violated)

section Frames

variable {T : List Region} (source : Address) (asset : Address)

theorem effectivePolicy_frame : Frame T (effectivePolicy asset) :=
  getMinSourcesRequired_frame.bind fun _ => readStore_frame _

theorem isExcluded_frame : Frame T (isExcluded source) := by
  refine .read fun inactive => ?_
  split_ifs
  · exact preserves_pure _
  · exact isSourceSuspended_frame source

theorem validateCorrelation_frame (price : Int) (source : Address) :
    Frame [.stats] (validateCorrelation asset price source) := by
  unfold validateCorrelation
  split_ifs
  · exact preserves_pure _
  · refine .read fun pairs => .read fun violated => ?_
    split_ifs
    · exact (modifyStats_frame _).bind fun _ => preserves_pure _
    · exact (preserves_pure _).bind fun _ => preserves_pure _

theorem isExcluded_sat (w : World) : Sat (isExcluded source) w fun b _ =>
      b = (w.store.isSourceInactive source || w.store.suspended w.env source) := by
  unfold isExcluded
  simp only [sat_bind,sat_readStore]
  split_ifs with h
  · simp [h]
  · exact (isSourceSuspended_sat source w).mono fun b _ hb => by simp [h,hb]

end Frames

end PriceOracle.Model
