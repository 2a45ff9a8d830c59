import PriceOracle.Aggregation.Unfiltered
import PriceOracle.Lib.Run
import PriceOracle.Model.Serving
import PriceOracle.Model.Sources
import PriceOracle.Pricing.Selection

/-! # The price book

What the oracle is for when no optional feature is in use. The book holds who takes part, the last
price accepted from each source, and the price it serves for each asset: the median of the last
prices when it was last taken. -/

namespace PriceOracle.Defaults

open Lib.OrderStatistic Model

structure Book where
  assets : List Address := []
  sources : List Address := []
  /-- Every address that has ever been a source. -/
  known : List Address := []
  quorum : Nat
  paused : Bool := false
  accepted : Address → Address → Option Int := fun _ _ => none
  cached : Address → Option Int := fun _ => none

namespace Book

variable (b : Book)

def contributions (asset : Address) : List Int := b.sources.filterMap (b.accepted asset)

def refreshed (asset : Address) : Option Int :=
  if b.quorum ≤ (b.contributions asset).length then some (median (b.contributions asset))
  else b.cached asset

def refresh (asset : Address) : Book :=
  { b with cached := Function.update b.cached asset (b.refreshed asset) }

theorem refresh_cached (asset a : Address) : (b.refresh asset).cached a =
    if a = asset then b.refreshed asset else b.cached a :=
  Function.update_apply _ _ _ _

def register (asset : Address) : Book := { b with assets := b.assets ++ [asset] }

def enroll (source : Address) : Book :=
  { b with sources := b.sources ++ [source], known := b.known ++ [source] }

def record (source asset : Address) (price : Int) : Book :=
  { b with
    accepted :=
      Function.update b.accepted asset (Function.update (b.accepted asset) source (some price)) }

/-- An accepted submission refreshes the price of its asset. -/
def submit (source asset : Address) (price : Int) : Book :=
  (b.record source asset price).refresh asset

def withdraw (source : Address) : Book :=
  { b with
    sources := b.sources.filter fun s => s ≠ source
    accepted := fun asset => Function.update (b.accepted asset) source none }

/-- A removal refreshes the prices of the assets it affects. -/
def remove (affects : Book → Address → Address → Bool) (source : Address) : Book :=
  { b.withdraw source with
    cached := fun asset =>
      if affects b source asset then (b.withdraw source).refreshed asset else b.cached asset }

end Book

/-- The rule by which every removal refreshes every price. -/
def everywhere (_ : Book) (_ _ : Address) : Bool := true

/-- The rule by which a removal refreshes the prices that are served and that the source has
contributed to. -/
def contributed (b : Book) (source asset : Address) : Bool :=
  (b.accepted asset source).isSome && (b.cached asset).isSome

inductive BookCall
  | registerAsset (asset : Address)
  | addSource (source : Address) (name : Text)
  | removeSource (source : Address)
  | setMinSourcesRequired (newMin : Nat)
  | submitPrice (source asset : Address) (price : Int) (timestamp nonce : Nat)
  | pause
  | unpause

def BookCall.body : BookCall → Contract Unit
  | .registerAsset asset => Model.registerAsset asset
  | .addSource source name => Model.addSource source name
  | .removeSource source => Model.removeSource source
  | .setMinSourcesRequired newMin => Model.setMinSourcesRequired newMin
  | .submitPrice source asset price timestamp nonce =>
    Model.submitPrice source asset price timestamp nonce
  | .pause => Model.pause
  | .unpause => Model.unpause

/-- What a call that succeeds does to the book. -/
def Book.apply (affects : Book → Address → Address → Bool) (b : Book) : BookCall → Book
  | .registerAsset asset => b.register asset
  | .addSource source _ => b.enroll source
  | .removeSource source => b.remove affects source
  | .setMinSourcesRequired newMin => { b with quorum := newMin }
  | .submitPrice source asset price _ _ => b.submit source asset price
  | .pause => { b with paused := true }
  | .unpause => { b with paused := false }

structure BookTx where
  env : Env
  call : BookCall

/-- The contract and its book after a call; the book follows the calls that succeed. -/
def follow (affects : Book → Address → Address → Bool) (x : Store × Book) (t : BookTx) :
    Store × Book :=
  (invoke t.call.body t.env x.1,
    if failure t.call.body t.env x.1 = none then x.2.apply affects t.call else x.2)

/-- The price that `get_price` serves without an age limit, if it serves any. -/
def served (env : Env) (st : Store) (asset : Address) : Option Int :=
  match getPrice asset 0 (World.enter env st) with
  | .ok price _ => price.map AggregatePrice.price
  | .error _ _ => none

/-- At any time the contract serves the prices of the book. -/
def Serves (x : Store × Book) : Prop := ∀ env asset, served env x.1 asset = x.2.cached asset

end PriceOracle.Defaults

/-! ## What rounds come to without optional features

With every feature flag but that of the pause down, no stage of a round has anything to say: it
takes the median of the stored submissions, if there are enough of them. -/

namespace PriceOracle.Defaults

open Lib.Transaction Lib.MachineInt Lib.OrderStatistic Model Aggregation

/-- Every optional feature is at its default. -/
structure Default (st : Store) : Prop where
  flags : ∀ f, f ≠ .pause → st.on f = false
  method : st.getAggregationMethod = 0
  resolution : ∀ asset, st.getAssetResolution asset = 0
  bounds : ∀ asset, st.priceBoundsOf asset = ⟨0, i128Max, 0⟩
  breaker : ∀ asset, st.isCircuitBreakerTripped asset = false
  whitelists : ∀ source, st.gates.sourceAssets source = none
  overrides : ∀ asset, st.overrides asset = none

def entries (st : Store) (asset : Address) : List (Address × PriceEntry) :=
  st.storedBy asset (fun _ => true) st.registry.sources

section Collapse

variable {env : Env} {st : Store} (h : Default st) (asset : Address)

include h

theorem Default.guards : st.guards = {} := by
  rw [Store.guards,h.flags .publicationGuards (by decide)]
  rfl

theorem Default.tier : st.getTierParams asset = none := by
  rw [Store.getTierParams,h.flags .riskTier (by decide)]
  rfl

theorem Default.policy :
    (st.contextOf env asset).policy = ⟨0,st.config.minSources.getD 0,0,0⟩ := by
  change st.applyToPolicy asset (st.basePolicy asset) = _
  unfold Store.applyToPolicy Store.basePolicy Store.layeredPolicy Store.classPolicy
    Store.getAssetClass Store.getAssetPolicy
  rw [h.tier asset,h.flags .assetPolicy (by decide),h.method]
  rfl

theorem Default.basePolicy : st.basePolicy asset = ⟨0,st.config.minSources.getD 0,0,0⟩ := by
  unfold Store.basePolicy Store.layeredPolicy Store.classPolicy Store.getAssetClass
    Store.getAssetPolicy
  rw [h.flags .assetPolicy (by decide),h.method]
  rfl

theorem Default.minIntervalFor : st.minIntervalFor asset = 0 := by
  rw [Store.minIntervalFor,Store.getMinSubmissionInterval,
    h.flags .assetMinSubmissionInterval (by decide),h.flags .minSubmissionInterval (by decide)]
  rfl

theorem Default.selectSources (seed : Nat) : st.selectSources seed = st.registry.sources := by
  unfold Store.selectSources Store.getMaxAggregationSources
  rw [h.flags .maxAggregationSources (by decide)]
  rfl

theorem Default.compliant (source : Address) :
    st.compliant env (st.minIntervalFor asset) asset source = true := by
  rw [Store.compliant,h.minIntervalFor]
  rfl

theorem Default.screens (entry : PriceEntry) :
    (st.contextOf env asset).screens env entry = true := by
  have hwindow : (st.contextOf env asset).freshWindow = 0 := by
    change st.windowFor asset = 0
    rw [Store.windowFor,Store.defaultWindow,h.flags .freshnessWindow (by decide),h.tier asset]
    rfl
  have hround : (st.contextOf env asset).dqRound = none := by
    change st.dqRound env asset = none
    rw [Store.dqRound,Store.dqConfigOf,h.flags .dqPipeline (by decide)]
    rfl
  unfold RoundContext.screens isFresh
  rw [h.policy,hwindow,hround]
  rfl

theorem Default.unfiltered : Unfiltered env st asset fun _ => true where
  sampled := h.selectSources _
  interval source _ _ := h.compliant asset source
  welcome x _ := by
    refine ⟨fun hguard => ?_,?_,h.screens asset x.2⟩
    · change st.guards.anySourceExcluded = true at hguard
      rw [h.guards] at hguard
      cases hguard
    · rw [Store.isCorrelationFlagged,h.flags .correlation (by decide)]
      rfl
  trial := by
    have hprobation : (st.contextOf env asset).probationGuard = false := by
      change st.anyProbation = false
      rw [Store.anyProbation,h.flags .sourceLifecycle (by decide)]
      rfl
    unfold onTrial
    rw [hprobation]
    simp
  unmasked prices _ := by
    unfold Store.survivorMask survives EffectivePolicy.deviationMask
    rw [h.policy]
    have hconfig : st.outlierConfigOf asset = ⟨0,35000,5⟩ := by
      rw [Store.outlierConfigOf,h.flags .outlierFilter (by decide)]
      rfl
    rw [hconfig]
    rfl

/-- No gate is closed. -/
theorem Default.ready : st.ready env asset = st.quorate env asset := by
  have htiered : st.tiered asset = true := by
    rw [Store.tiered,Store.enforcementFlag,h.flags .riskTier (by decide)]
    rfl
  have hlit : st.blackedOut env asset = false := by
    rw [Store.blackedOut,Store.blackoutWindowOf,h.flags .blackout (by decide)]
    rfl
  have hundeferred : st.undeferred env asset = true := by
    rw [Store.undeferred,Store.deferralOf,h.flags .assetDeferral (by decide)]
    rfl
  rw [Store.ready,htiered,hlit,hundeferred]
  rfl

theorem Default.screened (price : Int) : st.screened env asset price = some price := by
  unfold Store.screened Store.applyBounds Store.withheld
  rw [h.guards]
  rfl

theorem Default.rawPrice : st.rawPrice env asset =
    Pricing.computeMedian ((entries st asset).map fun x => x.2.price) := by
  unfold Store.rawPrice Store.aggregatedPrice Store.readBftFaultTolerance
  rw [h.policy,h.flags .bft (by decide),h.basePolicy asset]
  dsimp only
  rw [(h.unfiltered asset).leaves.vectors.1]
  rfl

/-- A round decides on the median of the stored submissions, if there are enough. -/
theorem Default.decision : (st.decision env asset).map Decision.price =
    if st.config.minSources.getD 0 ≤ (entries st asset).length ∧ entries st asset ≠ [] then
      some (Pricing.computeMedian ((entries st asset).map fun x => x.2.price))
    else none := by
  unfold Store.decision
  rw [h.ready,(h.unfiltered asset).leaves.quorate,h.policy,h.screened,h.rawPrice]
  simp only [decide_eq_true_eq]
  change Option.map _ (if _ ≤ (entries st asset).length ∧ entries st asset ≠ [] then _ else _) = _
  split_ifs <;> rfl

end Collapse

end PriceOracle.Defaults
