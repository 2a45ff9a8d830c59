import PriceOracle.Configuration.Calls
import PriceOracle.Model.OptionalSettings

/-! # Feature bits

A reader that finds its bit clear falls back to a default without reading the setting. It reads
what is stored as long as every writer of the setting marks the bit, or writes the default. -/

namespace PriceOracle.Configuration

open Model Lib.Transaction

/-- The settings behind the bit are absent, or what their readers fall back to. -/
def Unset (st : Store) : FeatureFlag → Prop
  | .influenceCap => st.config.influenceCapBps.getD 5000 = 5000
  | .bft => st.config.bftFaultTolerance.getD 0 = 0 ∧ st.config.bftAggregationMethod.getD 0 = 0
  | .compactionThreshold => st.config.compactionThresholdBps.getD 0 = 0
  | .pause => st.gates.pauseFlag.getD false = false
  | .timestampThreshold => st.config.timestampThreshold.getD 300 = 300
  | .commitReveal => st.config.commitRevealEnabled.getD false = false
  | .correlation => st.config.correlationPairs = [] ∧ ∀ x, st.stats.correlationFlagged x = false
  | .freshnessWindow => st.config.defaultFreshnessWindow.getD 0 = 0 ∧
      ∀ a, st.config.assetFreshnessWindow a = none
  | .maxAggregationSources => st.config.maxAggregationSources.getD 0 = 0
  | .maxEventsPerCall => st.config.maxEventsPerCall.getD 20 = 20
  | .maxHistoryPerAsset => st.config.maxHistoryPerAsset.getD 1000 = 1000
  | .minSubmissionInterval => st.config.minSubmissionInterval.getD 0 = 0
  | .publicationGuards => st.bounds.guards.getD {} = {}
  | .riskTier => st.config.riskTierEnforcement.getD false = false ∧
      ∀ a, st.config.assetRiskTier a = none
  | .sourceBond => st.config.sourceBondAmount.getD 0 = 0
  | .assetPolicy => ∀ a, st.config.assetPolicy a = none ∧ st.config.assetClassId a = none
  | .assetDeferral => ∀ a, st.config.assetDeferral a = none
  | .assetDisabled => ∀ a, (st.gates.assetDisabled a).getD false = false
  | .assetMinSubmissionInterval => ∀ a, st.config.assetMinSubmissionInterval a = none
  | .storageTier => ∀ a, (st.config.assetStorageTier a).getD .temporary = .temporary
  | .sourceLifecycle => st.config.anyProbation = false
  | .dqPipeline => ∀ a, st.config.dqConfig a = none
  | .freshnessCurve => ∀ a, (st.config.freshnessCurve a).getD .default = .default
  | .freeze => ∀ a, st.gates.frozen a = none
  | .outlierFilter => ∀ a, (st.config.outlierConfig a).getD ⟨0, 35000, 5⟩ = ⟨0, 35000, 5⟩ ∧
      (st.rounds.outlierExclusions a).getD [] = []
  | .triggers => ∀ a, (st.config.triggerSubmissionThreshold a).getD 0 = 0 ∧
      (st.config.triggerDeviationBps a).getD 0 = 0
  | .blackout => ∀ a, st.rounds.blackoutWindow a = none
  | .sourceAssets => ∀ s, st.gates.sourceAssets s = none
  | .sourceDemerits => ∀ s, st.storedDemerits s = ⟨0, .active, 0⟩
  | .sourceInactive => ∀ s, (st.config.sourceInactive s).getD false = false
  | .anomalyRetention => st.config.anomalyRetention.getD 16 = 16
  | .contribScoringWindow => st.config.contribScoringWindow.getD 10 = 10
  | .sourceComparison => ∀ a, st.config.sourceComparison a = false
  | .priceCallback => ∀ a, (st.config.priceCallbacks a).getD [] = []

/-- The readers behind the bit return what a direct read of the stored setting returns. -/
def ReadsDirectly (st : Store) : FeatureFlag → Prop
  | .influenceCap => st.getCapBps = st.config.influenceCapBps.getD 5000
  | .bft => st.readBftFaultTolerance = st.config.bftFaultTolerance.getD 0 ∧
      st.readBftAggregationMethod = st.config.bftAggregationMethod.getD 0
  | .compactionThreshold =>
    st.getCompactionThresholdBps = st.config.compactionThresholdBps.getD 0
  | .pause => st.isPaused = st.gates.pauseFlag.getD false
  | .timestampThreshold => st.getTimestampThreshold = st.config.timestampThreshold.getD 300
  | .commitReveal => st.readCommitRevealEnabled = st.config.commitRevealEnabled.getD false
  | .correlation => st.getCorrelationPairs = st.config.correlationPairs ∧
      ∀ a s, st.isCorrelationFlagged a s = st.stats.correlationFlagged (s, a)
  | .freshnessWindow => st.defaultWindow = st.config.defaultFreshnessWindow.getD 0 ∧
      ∀ a, (if st.on .freshnessWindow then st.config.assetFreshnessWindow a else none) =
        st.config.assetFreshnessWindow a
  | .maxAggregationSources =>
    st.getMaxAggregationSources = st.config.maxAggregationSources.getD 0
  | .maxEventsPerCall => st.getMaxEventsPerCall = st.config.maxEventsPerCall.getD 20
  | .maxHistoryPerAsset => st.getMaxHistoryPerAsset = st.config.maxHistoryPerAsset.getD 1000
  | .minSubmissionInterval => st.getMinSubmissionInterval = st.config.minSubmissionInterval.getD 0
  | .publicationGuards => st.guards = st.bounds.guards.getD {}
  | .riskTier => st.enforcementFlag = st.config.riskTierEnforcement.getD false ∧
      ∀ a, st.getTierParams a = (st.config.assetRiskTier a).bind tierParams
  | .sourceBond => st.getSourceBond = st.config.sourceBondAmount.getD 0
  | .assetPolicy => ∀ a, st.getAssetPolicy a = st.config.assetPolicy a ∧
      st.getAssetClass a = st.config.assetClassId a
  | .assetDeferral => ∀ a, st.deferralOf a = st.config.assetDeferral a
  | .assetDisabled => ∀ a, st.isAssetDisabled a = (st.gates.assetDisabled a).getD false
  | .assetMinSubmissionInterval => ∀ a, st.minIntervalFor a =
      (st.config.assetMinSubmissionInterval a).getD st.getMinSubmissionInterval
  | .storageTier => ∀ a, st.getAssetStorageTier a =
      (st.config.assetStorageTier a).getD .temporary
  | .sourceLifecycle => st.anyProbation = st.config.anyProbation
  | .dqPipeline => ∀ a, st.dqConfigOf a = st.config.dqConfig a
  | .freshnessCurve => ∀ a, st.getCurve a = (st.config.freshnessCurve a).getD .default
  | .freeze => ∀ a, st.isPriceFrozen a = (st.gates.frozen a).isSome ∧
      st.getFrozenPrice a = st.gates.frozen a
  | .outlierFilter => ∀ a, st.outlierConfigOf a = (st.config.outlierConfig a).getD ⟨0, 35000, 5⟩ ∧
      st.getExclusions a = (st.rounds.outlierExclusions a).getD []
  | .triggers => ∀ a,
      st.submissionThresholdTrigger a = (st.config.triggerSubmissionThreshold a).getD 0 ∧
      st.deviationTrigger a = (st.config.triggerDeviationBps a).getD 0
  | .blackout => ∀ a, st.blackoutWindowOf a = st.rounds.blackoutWindow a
  | .sourceAssets => ∀ s a, st.sourceAllowed s a =
      (st.gates.sourceAssets s).all fun assets => assets.contains a
  | .sourceDemerits => ∀ env s, st.sourceDemerits env s =
      (st.storedDemerits s).settle env.sequence st.demeritConfig.cooldownLedgers
  | .sourceInactive => ∀ s, st.isSourceInactive s = (st.config.sourceInactive s).getD false
  | .anomalyRetention => st.getRetention = st.config.anomalyRetention.getD 16
  | .contribScoringWindow => st.getScoringWindow = st.config.contribScoringWindow.getD 10
  | .sourceComparison => ∀ a, st.comparisonEnabled a = st.config.sourceComparison a
  | .priceCallback => ∀ a, st.invokedCallbacks a = (st.config.priceCallbacks a).getD []

/-- Whatever hides behind a clear bit is what the readers fall back to. -/
def FlagsAgree (st : Store) : Prop := ∀ f, st.on f = false → Unset st f

section Readers

variable {st : Store}

theorem sourceAllowed_eq (source asset : Address) : st.sourceAllowed source asset =
    (!st.on .sourceAssets || (st.gates.sourceAssets source).all fun l => l.contains asset) := by
  unfold Store.sourceAllowed
  cases st.on .sourceAssets
  · rfl
  · cases st.gates.sourceAssets source <;> rfl

/-- A reader behind a set bit reads the setting, and one behind a clear bit falls back to it. -/
theorem FlagsAgree.readsDirectly (h : FlagsAgree st) (f : FeatureFlag) : ReadsDirectly st f := by
  have hoff := h f
  cases hon : st.on f
  all_goals cases f <;> simp_all [Unset,ReadsDirectly,Store.getCapBps,
    Store.readBftFaultTolerance,Store.readBftAggregationMethod,Store.getCompactionThresholdBps,
    Store.isPaused,Store.getTimestampThreshold,Store.readCommitRevealEnabled,
    Store.getCorrelationPairs,Store.isCorrelationFlagged,Store.defaultWindow,
    Store.getMaxAggregationSources,Store.getMaxEventsPerCall,Store.getMaxHistoryPerAsset,
    Store.getMinSubmissionInterval,Store.guards,Store.enforcementFlag,Store.getTierParams,
    Store.getSourceBond,Store.getAssetPolicy,Store.getAssetClass,Store.deferralOf,
    Store.isAssetDisabled,Store.minIntervalFor,Store.getAssetStorageTier,Store.anyProbation,
    Store.dqConfigOf,Store.getCurve,Store.isPriceFrozen,Store.getFrozenPrice,
    Store.outlierConfigOf,Store.getExclusions,Store.submissionThresholdTrigger,
    Store.deviationTrigger,
    Store.blackoutWindowOf,sourceAllowed_eq,Store.sourceDemerits,SourceDemeritState.settle,
    Store.isSourceInactive,Store.getRetention,Store.getScoringWindow,Store.comparisonEnabled,
    Store.invokedCallbacks]

end Readers

/-- The bits and settings move so that whatever hides behind a clear bit still does no harm. -/
def KeepsAgreement (w w' : World) : Prop := FlagsAgree w.store → FlagsAgree w'.store

instance : Std.Refl KeepsAgreement := ⟨fun _ h => h⟩

instance : IsTrans World KeepsAgreement := ⟨fun _ _ _ hst htu h => htu (hst h)⟩

abbrev Keeps {α : Type} (m : Contract α) : Prop := Preserves KeepsAgreement m

section Rules

variable {st st' : Store} {α : Type} {g : FeatureFlag}

/-- A write of the settings behind one bit, once that bit is marked. -/
theorem FlagsAgree.marked {f : FeatureFlag} (h : FlagsAgree st)
    (hflags : st'.flags = Function.update st.flags f true)
    (hother : ∀ g, g ≠ f → Unset st g → Unset st' g) : FlagsAgree st' := by
  intro g hg
  have hg' : Function.update st.flags f true g = false := by rw [← hflags]; exact hg
  by_cases hgf : g = f
  · simp [hgf] at hg'
  · rw [Function.update_of_ne hgf] at hg'
    exact hother g hgf (h g hg')

theorem FlagsAgree.unmarked (h : FlagsAgree st) (hflags : st'.flags = st.flags)
    (hall : ∀ g, Unset st g → Unset st' g) : FlagsAgree st' := by
  intro g hg
  have hg' : st.flags g = false := by rw [← hflags]; exact hg
  exact hall g (h g hg')

theorem unset_write {key : OptionalKey} (hg : g ≠ key.flag) (h : Unset st g) :
    Unset (key.write st) g := by
  cases key <;> cases g <;> first | exact absurd rfl hg | exact h

theorem getD_update {β : Type} {m : Map Address β} {d : β} {o : Option β}
    (h : ∀ a, (m a).getD d = d) (ho : o.getD d = d) (k a : Address) :
    (Function.update m k o a).getD d = d := by
  by_cases ha : a = k
  · rw [ha,Function.update_self,ho]
  · rw [Function.update_of_ne ha,h]

theorem none_update {β : Type} {m : Map Address β} (h : ∀ a, m a = none) (k a : Address) :
    Function.update m k none a = none := by
  by_cases ha : a = k
  · rw [ha,Function.update_self]
  · rw [Function.update_of_ne ha,h]

theorem unset_remove {key : RemovedKey} (h : Unset st g) : Unset (key.write st) g := by
  cases key
  case assetDisabled asset => cases g <;> first | exact h | exact getD_update h rfl asset
  case sourceInactive source => cases g <;> first | exact h | exact getD_update h rfl source
  case priceCallback asset consumer =>
    cases g <;> first
      | exact h
      | exact getD_update h (by rw [h asset]; rfl) asset
  all_goals cases g <;> first
    | exact h
    | simp_all [Unset,RemovedKey.write,Function.update_apply]

theorem unset_flags {bits : FeatureFlag → Bool} :
    Unset { st with flags := bits } g ↔ Unset st g := by
  cases g <;> rfl

/-- The parts of the storage in which settings with a bit are kept. -/
structure SameOptional (st st' : Store) : Prop where
  flags : st'.flags = st.flags
  config : st'.config = st.config
  bounds : st'.bounds = st.bounds
  gates : st'.gates = st.gates
  demerits : st'.demerits = st.demerits
  stats : st'.stats = st.stats
  rounds : st'.rounds = st.rounds

theorem FlagsAgree.same (h : FlagsAgree st) (hsame : SameOptional st st') : FlagsAgree st' := by
  refine h.unmarked hsame.flags fun g hg => ?_
  obtain ⟨_,hconfig,hbounds,hgates,hdemerits,hstats,hrounds⟩ := hsame
  cases g <;> simp only [Unset,Store.storedDemerits,hconfig,hbounds,hgates,hdemerits,hstats,
    hrounds] <;> exact hg

theorem keeps_update {f : World → World}
    (h : ∀ w, FlagsAgree w.store → FlagsAgree (f w).store) : Keeps (update f) :=
  preserves_update h

theorem requireAuth_keeps (a : Address) : Keeps (requireAuth a) :=
  .read fun _ => .check fun _ => keeps_update fun _ h => h

theorem asAdmin_keeps {body : Contract α} (h : Keeps body) : Keeps (asAdmin body) :=
  .lookup fun admin => (requireAuth_keeps admin).bind fun _ => h

theorem mark_keeps (f : FeatureFlag) : Keeps (mark f) := by
  intro w
  rw [sat_mark]
  intro h
  exact h.marked rfl fun g _ hg => unset_flags.2 hg

theorem setOptional_keeps (key : OptionalKey) : Keeps (setOptional key) := by
  intro w
  simp only [setOptional,sat_bind,sat_mark,sat_update]
  intro h
  refine h.marked (f := key.flag) ?_ fun g hg hu => unset_write hg (unset_flags.2 hu)
  cases key <;> rfl

theorem removeOptional_keeps (key : RemovedKey) : Keeps (removeOptional key) := by
  refine keeps_update fun w h => h.unmarked ?_ fun g hg => unset_remove hg
  cases key <;> rfl

theorem checkRegisteredAsset_keeps (asset : Address) : Keeps (checkRegisteredAsset asset) := by
  refine .read fun _ => .check fun _ => ?_
  refine keeps_update fun w h => ?_
  split_ifs
  · exact h
  · exact h.same ⟨rfl,rfl,rfl,rfl,rfl,rfl,rfl⟩

theorem updateGuards_keeps (f : PublicationGuards → PublicationGuards) :
    Keeps (updateGuards f) := by
  intro w
  simp only [updateGuards,modifyBounds,sat_bind,sat_readStore,sat_mark,sat_update]
  intro h
  refine h.marked rfl fun g hg hu => ?_
  cases g <;> first | exact absurd rfl hg | exact hu

theorem removeDqAnchor_keeps (asset : Address) : Keeps (removeDqAnchor asset) := by
  refine keeps_update fun w h => h.unmarked rfl fun g hg => ?_
  cases g <;> exact hg

end Rules

end PriceOracle.Configuration
