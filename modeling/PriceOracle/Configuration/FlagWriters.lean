import PriceOracle.Configuration.Flags

/-! # The writers of the optional settings

Every function that writes a setting with a feature bit marks the bit or writes the default, but
for `remove_source_asset`: it stores the remaining list of a source and marks nothing. -/

namespace PriceOracle.Configuration

open Model Lib.Transaction Lib.Run

/-- The functions that write an optional setting. The bookkeeping of other operations (an emergency,
a lapsed heartbeat, an invalid submission, an onboarding, a blackout) writes or removes one key. -/
inductive FlagCall
  | config (call : ConfigCall)
  | write (key : OptionalKey)
  | remove (key : RemovedKey)
  | setCapBps (capBps : Nat)
  | setRetention (retention : Nat)
  | setBftParameters (faultTolerance method : Nat)
  | setCompactionThresholdBps (thresholdBps : Nat)
  | setCommitRevealEnabled (enabled : Bool)
  | setScoringWindow (window : Nat)
  | setCorrelationPair (baseAsset quoteAsset : Address) (minRatio maxRatio : Nat) (enabled : Bool)
  | removeCorrelationPair (baseAsset quoteAsset : Address)
  | clearCorrelationFlag (source asset : Address)
  | validateCorrelation (asset : Address) (price : Int) (source : Address)
  | setDefaultWindow (secs : Nat)
  | setAssetWindow (asset : Address) (secs : Nat)
  | setTier (asset : Address) (tier : Fin 4) (reason : String)
  | clearTier (asset : Address) (reason : String)
  | enforceTiers
  | stopEnforcingTiers
  | setSourceBond (amount : Int)
  | setAssetPolicy (asset : Address) (policy : Option PolicyOverride)
  | setClassPolicy (classId : Nat) (policy : Option PolicyOverride)
  | setAssetClass (asset : Address) (classId : Option Nat)
  | setDeferralPolicy (asset : Address) (policy : DeferralPolicy)
  | clearDeferralPolicy (asset : Address)
  | disableAsset (asset : Address)
  | enableAsset (asset : Address)
  | setAssetStorageTier (asset : Address) (tier : HistoryStorageTier)
  | executeStorageTierDowngrade (asset : Address)
  | setDqConfig (asset : Address) (cfg : DqConfig)
  | clearDqConfig (asset : Address)
  | enableComparison (asset : Address)
  | disableComparison (asset : Address)
  | setCurve (asset : Address) (windowSecs minWeight : Nat)
  | freezePrice (asset : Address) (reason : String)
  | unfreezePrice (asset : Address)
  | setOutlierConfig (asset : Address) (cfg : Option OutlierConfig)
  | storeExclusions (asset : Address) (exclusions : List OutlierExclusion)
  | registerPriceCallback (consumer asset callbackContract : Address) (method : String)
  | unregisterPriceCallback (consumer asset : Address)
  | setSubmissionThresholdTrigger (asset : Address) (threshold : Nat)
  | setDeviationTrigger (asset : Address) (deviationBps : Nat)
  | suppresses (asset : Address)
  | updateGuards (f : PublicationGuards → PublicationGuards)
  | grantSourceAssets (source : Address) (assets : List Address)
  | addSourceAsset (source asset : Address)
  | removeSourceAsset (source asset : Address)
  | moveSourceAssets (source newAddress : Address)
  | getSourceDemerits (source : Address)
  | resetSourceDemerits (source : Address)
  | markSourceActive (source : Address)
  | enableAllFeatureFlags

def FlagCall.body : FlagCall → Contract Unit
  | config call => call.body
  | write key => setOptional key
  | remove key => removeOptional key
  | setCapBps capBps => Model.setCapBps capBps
  | setRetention retention => Model.setRetention retention
  | setBftParameters faultTolerance method => Model.setBftParameters faultTolerance method
  | setCompactionThresholdBps thresholdBps => Model.setCompactionThresholdBps thresholdBps
  | setCommitRevealEnabled enabled => Model.setCommitRevealEnabled enabled
  | setScoringWindow window => Model.setScoringWindow window
  | setCorrelationPair baseAsset quoteAsset minRatio maxRatio enabled =>
    Model.setCorrelationPair baseAsset quoteAsset minRatio maxRatio enabled
  | removeCorrelationPair baseAsset quoteAsset => Model.removeCorrelationPair baseAsset quoteAsset
  | clearCorrelationFlag source asset => Model.clearCorrelationFlag source asset
  | validateCorrelation asset price source => do
    let _ ← Model.validateCorrelation asset price source
    pure ()
  | setDefaultWindow secs => Model.setDefaultWindow secs
  | setAssetWindow asset secs => Model.setAssetWindow asset secs
  | setTier asset tier reason => Model.setTier asset tier reason
  | clearTier asset reason => Model.clearTier asset reason
  | enforceTiers => Model.enforceTiers
  | stopEnforcingTiers => Model.stopEnforcingTiers
  | setSourceBond amount => Model.setSourceBond amount
  | setAssetPolicy asset policy => Model.setAssetPolicy asset policy
  | setClassPolicy classId policy => Model.setClassPolicy classId policy
  | setAssetClass asset classId => Model.setAssetClass asset classId
  | setDeferralPolicy asset policy => Model.setDeferralPolicy asset policy
  | clearDeferralPolicy asset => Model.clearDeferralPolicy asset
  | disableAsset asset => Model.disableAsset asset
  | enableAsset asset => Model.enableAsset asset
  | setAssetStorageTier asset tier => Model.setAssetStorageTier asset tier
  | executeStorageTierDowngrade asset => Model.executeStorageTierDowngrade asset
  | setDqConfig asset cfg => Model.setDqConfig asset cfg
  | clearDqConfig asset => Model.clearDqConfig asset
  | enableComparison asset => Model.enableComparison asset
  | disableComparison asset => Model.disableComparison asset
  | setCurve asset windowSecs minWeight => Model.setCurve asset windowSecs minWeight
  | freezePrice asset reason => Model.freezePrice asset reason
  | unfreezePrice asset => Model.unfreezePrice asset
  | setOutlierConfig asset cfg => Model.setOutlierConfig asset cfg
  | storeExclusions asset exclusions => Model.storeExclusions asset exclusions
  | registerPriceCallback consumer asset callbackContract method =>
    Model.registerPriceCallback consumer asset callbackContract method
  | unregisterPriceCallback consumer asset => Model.unregisterPriceCallback consumer asset
  | setSubmissionThresholdTrigger asset threshold =>
    Model.setSubmissionThresholdTrigger asset threshold
  | setDeviationTrigger asset deviationBps => Model.setDeviationTrigger asset deviationBps
  | suppresses asset => do
    let _ ← Model.suppresses asset
    pure ()
  | updateGuards f => Model.updateGuards f
  | grantSourceAssets source assets => Model.grantSourceAssets source assets
  | addSourceAsset source asset => Model.addSourceAsset source asset
  | removeSourceAsset source asset => Model.removeSourceAsset source asset
  | moveSourceAssets source newAddress => Model.moveSourceAssets source newAddress
  | getSourceDemerits source => do
    let _ ← Model.getSourceDemerits source
    pure ()
  | resetSourceDemerits source => Model.resetSourceDemerits source
  | markSourceActive source => Model.markSourceActive source
  | enableAllFeatureFlags => Model.enableAllFeatureFlags

section Writers

variable {st : Store}

theorem FlagsAgree.recorded (h : FlagsAgree st) (env : Env) :
    FlagsAgree { st with config := recordedConfig env st } := by
  obtain ⟨index,snapshot,heq,_⟩ := storeSnapshot_eq st.config (snapshotOf env st)
  refine h.unmarked rfl fun g hg => ?_
  unfold recordedConfig
  rw [heq]
  cases g <;> exact hg

theorem FlagsAgree.configured (h : FlagsAgree st) (env : Env) (setting : ConfigSetting) :
    FlagsAgree (configured env st setting) := by
  intro g hg
  have hbits : markAll st.flags setting.flags g = false := hg
  rw [markAll_apply,Bool.or_eq_false_iff,decide_eq_false_iff_not] at hbits
  have hold := h.recorded env g hbits.2
  have hmem := hbits.1
  cases setting <;> cases g <;> first | exact hold | exact absurd List.mem_cons_self hmem

theorem FlagsAgree.flagged (h : FlagsAgree st) (env : Env) {flags : List FeatureFlag}
    {paused : Bool} (hflag : .pause ∈ flags ∨ paused = false) :
    FlagsAgree (flagged env st flags paused) := by
  intro g hg
  have hbits : markAll st.flags flags g = false := hg
  rw [markAll_apply,Bool.or_eq_false_iff,decide_eq_false_iff_not] at hbits
  have hold := h.recorded env g hbits.2
  rcases hflag with hflag | rfl
  · cases g <;> first | exact hold | exact absurd hflag hbits.1
  · cases g <;> first | exact hold | rfl

theorem FlagsAgree.restored (h : FlagsAgree st) (env : Env) (snapshot : ConfigSnapshot) :
    FlagsAgree (restored env st snapshot) := by
  intro g hg
  have hbits : markAll st.flags snapshotFlags g = false := hg
  rw [markAll_apply,Bool.or_eq_false_iff,decide_eq_false_iff_not] at hbits
  have hold := h.recorded env g hbits.2
  cases g <;> first | exact hold | exact absurd (by decide) hbits.1

end Writers

theorem setting_keeps (setting : ConfigSetting) : Keeps setting.body := by
  intro w
  refine setting.body_sat.mono ?_
  rintro _ w' ⟨_,_,hst⟩ h
  rw [hst]
  exact h.configured w.env setting

theorem timelock_keeps (f : Timelock → Timelock) : Keeps (modifyTimelock f) :=
  keeps_update fun _ h => h.same ⟨rfl,rfl,rfl,rfl,rfl,rfl,rfl⟩

theorem executeSingleOp_keeps (op : BatchOperation) : Keeps (executeSingleOp op) := by
  intro w
  refine (executeSingleOp_sat op).mono ?_
  rintro _ w' ⟨_,_,hst⟩ h
  rw [hst]
  unfold applyElement
  cases elementSetting op with
  | none => exact h
  | some setting => exact h.configured w.env setting

theorem initializeContract_keeps (admin : Address) (min hist dec : Nat) (desc : String) :
    Keeps (initializeContract admin min hist dec desc) := by
  refine .read fun _ => .check fun _ => .check fun _ => .check fun _ =>
    (requireAuth_keeps admin).bind fun _ => Preserves.bind ?_ fun _ => ?_
  · refine keeps_update fun w h => h.unmarked rfl fun g hg => ?_
    cases g <;> exact hg
  · exact keeps_update fun w h => h.same ⟨rfl,rfl,rfl,rfl,rfl,rfl,rfl⟩

theorem configCall_keeps (call : ConfigCall) : Keeps call.body := by
  cases call with
  | initializeContract admin min hist dec desc => exact initializeContract_keeps admin min hist dec desc
  | set setting => exact setting_keeps setting
  | pause =>
    refine asAdmin_keeps fun w => ?_
    simp only [sat_bind,sat_snapshotBeforeChange,sat_mark,modifyGates,sat_update]
    intro _ h
    have hpaused : FlagsAgree (flagged w.env w.store [.pause] true) :=
      h.flagged w.env (.inl List.mem_cons_self)
    exact hpaused
  | unpause =>
    refine asAdmin_keeps fun w => ?_
    simp only [sat_bind,sat_snapshotBeforeChange,modifyGates,sat_update]
    intro _ h
    have hlifted : FlagsAgree (flagged w.env w.store [] false) := h.flagged w.env (.inr rfl)
    exact hlifted
  | proposeBatch operations =>
    exact (asAdmin_keeps (.lookup fun _ => .read fun _ => .read fun _ => .read fun _ =>
      (timelock_keeps _).bind fun _ => preserves_pure _)).bind fun _ => preserves_pure ()
  | executeBatch id =>
    exact asAdmin_keeps (.lookup fun _ => .read fun _ => .read fun _ => .check fun _ =>
      (preserves_forM fun op _ => executeSingleOp_keeps op).bind fun _ => timelock_keeps _)
  | cancelBatch id =>
    exact asAdmin_keeps (.lookup fun _ => timelock_keeps _)
  | rollbackConfig version =>
    refine asAdmin_keeps (.lookup fun snapshot => fun w => ?_)
    simp only [sat_bind,sat_snapshotBeforeChange,applySnapshot,modifyConfig,modifyGates,
      sat_update,sat_marks]
    exact fun _ h => h.restored w.env snapshot

theorem validateCorrelation_keeps (asset : Address) (price : Int) (source : Address) :
    Keeps (validateCorrelation asset price source) := by
  intro w
  unfold validateCorrelation
  by_cases hprice : price ≤ 0
  · rw [if_pos hprice]
    exact (sat_pure _).2 fun h => h
  · rw [if_neg hprice]
    simp only [sat_bind,sat_readStore]
    split_ifs with hviolated
    · simp only [modifyStats,sat_bind,sat_update,sat_pure]
      intro h
      have hon : w.store.on .correlation = true := by
        by_contra hoff
        simp [Store.getCorrelationPairs,hoff] at hviolated
      refine h.marked (f := .correlation) (Function.update_eq_self_iff.2 hon.symm).symm
        fun g hg hu => ?_
      cases g <;> first | exact absurd rfl hg | exact hu
    · simp only [sat_pure]
      exact fun h => h

theorem storeExclusions_keeps (asset : Address) (exclusions : List OutlierExclusion) :
    Keeps (storeExclusions asset exclusions) := by
  refine .read fun enabled => ?_
  split_ifs
  · refine keeps_update fun w h => h.unmarked rfl fun g hg => ?_
    cases g <;> first
      | exact hg
      | exact fun a => ⟨(hg a).1,getD_update (fun a => (hg a).2) rfl asset a⟩
  · exact preserves_pure _
  · intro w
    simp only [sat_bind,sat_mark,modifyRounds,sat_update]
    intro h
    refine h.marked rfl fun g hg hu => ?_
    cases g <;> first | exact absurd rfl hg | exact hu

theorem suppresses_keeps (asset : Address) : Keeps (suppresses asset) := by
  refine .read fun window => .read fun now => ?_
  cases window with
  | none => exact preserves_pure _
  | some b =>
    dsimp only
    split_ifs
    · exact preserves_pure _
    · refine Preserves.bind (keeps_update fun w h => h.unmarked rfl fun g hg => ?_)
        fun _ => preserves_pure _
      cases g <;> first | exact hg | exact none_update hg asset
    · exact preserves_pure _

theorem getSourceDemerits_keeps (source : Address) : Keeps (getSourceDemerits source) := by
  refine .read fun _ => Preserves.bind (keeps_update fun w h => ?_)
    fun _ => preserves_pure _
  split_ifs with hlifted
  · refine h.marked (f := .sourceDemerits) (Function.update_eq_self_iff.2 hlifted.1.symm).symm
      fun g hg hu => ?_
    cases g <;> first | exact absurd rfl hg | exact hu
  · exact h

theorem writeTier_keeps (asset : Address) (tier : HistoryStorageTier) :
    Keeps (writeTier asset tier) := by
  intro w
  simp only [writeTier,sat_bind,sat_mark,modifyConfig,sat_update]
  intro h
  refine h.marked rfl fun g hg hu => ?_
  cases g <;> first | exact absurd rfl hg | exact hu

theorem applyTierChange_keeps (asset : Address) (tier : HistoryStorageTier) :
    Keeps (applyTierChange asset tier) := by
  refine (writeTier_keeps asset tier).bind fun _ => .read fun _ => ?_
  refine keeps_update fun w h => h.unmarked rfl fun g hg => ?_
  cases g <;> exact hg

theorem applyDowngrade_keeps (asset : Address) (tier : HistoryStorageTier) :
    Keeps (applyDowngrade asset tier) := by
  refine .read fun _ => .check fun _ => (applyTierChange_keeps asset tier).bind fun _ => ?_
  refine keeps_update fun w h => h.unmarked rfl fun g hg => ?_
  cases g <;> exact hg

theorem setAssetStorageTier_keeps (asset : Address) (tier : HistoryStorageTier) :
    Keeps (setAssetStorageTier asset tier) := by
  refine asAdmin_keeps ((checkRegisteredAsset_keeps asset).bind fun _ => .read fun current => ?_)
  cases current <;> cases tier
  · exact preserves_pure _
  · exact applyTierChange_keeps asset .persistent
  · exact applyDowngrade_keeps asset .temporary
  · exact preserves_pure _

theorem setCompactionThresholdBps_keeps (bps : Nat) : Keeps (setCompactionThresholdBps bps) := by
  refine asAdmin_keeps fun w => ?_
  simp only [sat_bind,sat_mark,modifyConfig,sat_update]
  intro h
  refine h.marked rfl fun g hg hu => ?_
  cases g <;> first | exact absurd rfl hg | exact hu

theorem moveSourceAssets_keeps (source newAddress : Address) :
    Keeps (moveSourceAssets source newAddress) := by
  refine keeps_update fun w h => ?_
  cases hs : w.store.gates.sourceAssets source with
  | none => exact h
  | some assets =>
    -- the assets of a source are only stored behind the set bit
    have hon : w.store.on .sourceAssets = true := by
      by_contra hoff
      have hnone := h .sourceAssets (by simpa using hoff) source
      simp [hs] at hnone
    refine h.marked (f := .sourceAssets) (Function.update_eq_self_iff.2 hon.symm).symm
      fun g hg hu => ?_
    cases g <;> first | exact absurd rfl hg | exact hu

section Settings

variable {body : Contract Unit}

theorem onRegistered_keeps (asset : Address) (h : Keeps body) :
    Keeps (asAdmin do checkRegisteredAsset asset; body) :=
  asAdmin_keeps ((checkRegisteredAsset_keeps asset).bind fun _ => h)

theorem setCapBps_keeps (capBps : Nat) : Keeps (setCapBps capBps) :=
  asAdmin_keeps (.check fun _ => setOptional_keeps _)

theorem setRetention_keeps (retention : Nat) : Keeps (setRetention retention) :=
  asAdmin_keeps (.check fun _ => setOptional_keeps _)

theorem setBftParameters_keeps (faultTolerance method : Nat) :
    Keeps (setBftParameters faultTolerance method) :=
  asAdmin_keeps (.check fun _ => setOptional_keeps _)

theorem setScoringWindow_keeps (window : Nat) : Keeps (setScoringWindow window) :=
  asAdmin_keeps (.check fun _ => setOptional_keeps _)

theorem setCommitRevealEnabled_keeps (enabled : Bool) : Keeps (setCommitRevealEnabled enabled) :=
  asAdmin_keeps (setOptional_keeps _)

theorem setSourceBond_keeps (amount : Int) : Keeps (setSourceBond amount) :=
  asAdmin_keeps (setOptional_keeps _)

theorem setCorrelationPair_keeps (baseAsset quoteAsset : Address) (minRatio maxRatio : Nat)
    (enabled : Bool) :
    Keeps (setCorrelationPair baseAsset quoteAsset minRatio maxRatio enabled) :=
  asAdmin_keeps (.check fun _ => setOptional_keeps _)

theorem removeCorrelationPair_keeps (baseAsset quoteAsset : Address) :
    Keeps (removeCorrelationPair baseAsset quoteAsset) := asAdmin_keeps (removeOptional_keeps _)

theorem clearCorrelationFlag_keeps (source asset : Address) :
    Keeps (clearCorrelationFlag source asset) := asAdmin_keeps (removeOptional_keeps _)

theorem setDefaultWindow_keeps (secs : Nat) : Keeps (setDefaultWindow secs) :=
  asAdmin_keeps (.check fun _ => (setOptional_keeps _).bind fun _ => updateGuards_keeps _)

theorem setAssetWindow_keeps (asset : Address) (secs : Nat) : Keeps (setAssetWindow asset secs) :=
  onRegistered_keeps asset
    (.check fun _ => (setOptional_keeps _).bind fun _ => updateGuards_keeps _)

theorem setTier_keeps (asset : Address) (tier : Fin 4) (reason : String) :
    Keeps (setTier asset tier reason) := by
  refine onRegistered_keeps asset (.check fun _ => (setOptional_keeps _).bind fun _ =>
    (updateGuards_keeps _).bind fun _ => ?_)
  split_ifs
  · exact updateGuards_keeps _
  · exact preserves_pure _

theorem clearTier_keeps (asset : Address) (reason : String) : Keeps (clearTier asset reason) :=
  onRegistered_keeps asset (.check fun _ => removeOptional_keeps _)

theorem enforceTiers_keeps : Keeps enforceTiers :=
  asAdmin_keeps (.read fun _ => .check fun _ => setOptional_keeps _)

theorem stopEnforcingTiers_keeps : Keeps stopEnforcingTiers :=
  asAdmin_keeps (removeOptional_keeps _)

theorem setClassPolicy_keeps (classId : Nat) (policy : Option PolicyOverride) :
    Keeps (setClassPolicy classId policy) := by
  refine asAdmin_keeps (.check fun _ => keeps_update fun w h => h.unmarked rfl fun g hg => ?_)
  cases g <;> exact hg

theorem setCurve_keeps (asset : Address) (windowSecs minWeight : Nat) :
    Keeps (setCurve asset windowSecs minWeight) := by
  refine asAdmin_keeps (.check fun _ => ?_)
  split_ifs
  · exact setOptional_keeps _
  · exact preserves_abort _

end Settings

section Assets

variable (asset : Address)

theorem setAssetPolicy_keeps (policy : Option PolicyOverride) :
    Keeps (setAssetPolicy asset policy) :=
  onRegistered_keeps asset (.check fun _ => setOptional_keeps _)

theorem setAssetClass_keeps (classId : Option Nat) : Keeps (setAssetClass asset classId) :=
  onRegistered_keeps asset (setOptional_keeps _)

theorem setDeferralPolicy_keeps (policy : DeferralPolicy) :
    Keeps (setDeferralPolicy asset policy) :=
  onRegistered_keeps asset
    (.check fun _ => (setOptional_keeps _).bind fun _ => updateGuards_keeps _)

theorem clearDeferralPolicy_keeps : Keeps (clearDeferralPolicy asset) :=
  onRegistered_keeps asset (removeOptional_keeps _)

theorem disableAsset_keeps : Keeps (disableAsset asset) :=
  onRegistered_keeps asset (setOptional_keeps _)

theorem enableAsset_keeps : Keeps (enableAsset asset) :=
  onRegistered_keeps asset (removeOptional_keeps _)

theorem executeStorageTierDowngrade_keeps : Keeps (executeStorageTierDowngrade asset) :=
  onRegistered_keeps asset (applyDowngrade_keeps asset .temporary)

theorem setDqConfig_keeps (cfg : DqConfig) : Keeps (setDqConfig asset cfg) :=
  onRegistered_keeps asset
    (.check fun _ => (setOptional_keeps _).bind fun _ => removeDqAnchor_keeps asset)

theorem clearDqConfig_keeps : Keeps (clearDqConfig asset) :=
  asAdmin_keeps ((removeOptional_keeps _).bind fun _ => removeDqAnchor_keeps asset)

theorem enableComparison_keeps : Keeps (enableComparison asset) :=
  onRegistered_keeps asset (setOptional_keeps _)

theorem disableComparison_keeps : Keeps (disableComparison asset) :=
  onRegistered_keeps asset (removeOptional_keeps _)

theorem freezePrice_keeps (reason : String) : Keeps (freezePrice asset reason) :=
  onRegistered_keeps asset (.check fun _ => .read fun _ => .check fun _ => .lookup fun _ =>
    .read fun _ => setOptional_keeps _)

theorem unfreezePrice_keeps : Keeps (unfreezePrice asset) :=
  asAdmin_keeps (.read fun _ => .check fun _ => removeOptional_keeps _)

theorem setOutlierConfig_keeps (cfg : Option OutlierConfig) :
    Keeps (setOutlierConfig asset cfg) :=
  onRegistered_keeps asset (.check fun _ => setOptional_keeps _)

theorem setSubmissionThresholdTrigger_keeps (threshold : Nat) :
    Keeps (setSubmissionThresholdTrigger asset threshold) :=
  onRegistered_keeps asset (setOptional_keeps _)

theorem setDeviationTrigger_keeps (deviationBps : Nat) :
    Keeps (setDeviationTrigger asset deviationBps) :=
  onRegistered_keeps asset (.check fun _ => setOptional_keeps _)

theorem registerPriceCallback_keeps (consumer callbackContract : Address) (method : String) :
    Keeps (registerPriceCallback consumer asset callbackContract method) :=
  (requireAuth_keeps consumer).bind fun _ => (checkRegisteredAsset_keeps asset).bind fun _ =>
    (mark_keeps _).bind fun _ => .read fun _ => .check fun _ => setOptional_keeps _

theorem unregisterPriceCallback_keeps (consumer : Address) :
    Keeps (unregisterPriceCallback consumer asset) :=
  (requireAuth_keeps consumer).bind fun _ => (checkRegisteredAsset_keeps asset).bind fun _ =>
    .read fun _ => .check fun _ => removeOptional_keeps _

end Assets

section SourceSettings

variable (source : Address)

theorem grantSourceAssets_keeps (assets : List Address) :
    Keeps (grantSourceAssets source assets) :=
  asAdmin_keeps ((preserves_forM fun a _ => checkRegisteredAsset_keeps a).bind fun _ =>
    setOptional_keeps _)

theorem addSourceAsset_keeps (asset : Address) : Keeps (addSourceAsset source asset) := by
  refine asAdmin_keeps (Preserves.bind (.read fun _ => preserves_ensure _ _) fun _ =>
    (checkRegisteredAsset_keeps asset).bind fun _ => .read fun _ => ?_)
  split_ifs
  · exact preserves_pure _
  · exact setOptional_keeps _

theorem resetSourceDemerits_keeps : Keeps (resetSourceDemerits source) :=
  asAdmin_keeps (.read fun _ => .check fun _ => .read fun _ => setOptional_keeps _)

theorem markSourceActive_keeps : Keeps (markSourceActive source) := by
  refine .read fun enabled => ?_
  split_ifs
  · exact removeOptional_keeps _
  · exact preserves_pure _

end SourceSettings

/-- All writers but one keep the agreement, whoever calls them. -/
theorem flagCall_keeps (call : FlagCall)
    (hcall : ∀ source asset, call ≠ .removeSourceAsset source asset) : Keeps call.body := by
  cases call with
  | removeSourceAsset source asset => exact absurd rfl (hcall source asset)
  | config call => exact configCall_keeps call
  | write key => exact setOptional_keeps key
  | remove key => exact removeOptional_keeps key
  | setCapBps => exact setCapBps_keeps _
  | setRetention => exact setRetention_keeps _
  | setBftParameters => exact setBftParameters_keeps _ _
  | setCompactionThresholdBps => exact setCompactionThresholdBps_keeps _
  | setCommitRevealEnabled => exact setCommitRevealEnabled_keeps _
  | setScoringWindow => exact setScoringWindow_keeps _
  | setCorrelationPair => exact setCorrelationPair_keeps _ _ _ _ _
  | removeCorrelationPair => exact removeCorrelationPair_keeps _ _
  | clearCorrelationFlag => exact clearCorrelationFlag_keeps _ _
  | validateCorrelation => exact (validateCorrelation_keeps _ _ _).bind fun _ => preserves_pure ()
  | setDefaultWindow => exact setDefaultWindow_keeps _
  | setAssetWindow => exact setAssetWindow_keeps _ _
  | setTier => exact setTier_keeps _ _ _
  | clearTier => exact clearTier_keeps _ _
  | enforceTiers => exact enforceTiers_keeps
  | stopEnforcingTiers => exact stopEnforcingTiers_keeps
  | setSourceBond => exact setSourceBond_keeps _
  | setAssetPolicy => exact setAssetPolicy_keeps _ _
  | setClassPolicy => exact setClassPolicy_keeps _ _
  | setAssetClass => exact setAssetClass_keeps _ _
  | setDeferralPolicy => exact setDeferralPolicy_keeps _ _
  | clearDeferralPolicy => exact clearDeferralPolicy_keeps _
  | disableAsset => exact disableAsset_keeps _
  | enableAsset => exact enableAsset_keeps _
  | setAssetStorageTier => exact setAssetStorageTier_keeps _ _
  | executeStorageTierDowngrade => exact executeStorageTierDowngrade_keeps _
  | setDqConfig => exact setDqConfig_keeps _ _
  | clearDqConfig => exact clearDqConfig_keeps _
  | enableComparison => exact enableComparison_keeps _
  | disableComparison => exact disableComparison_keeps _
  | setCurve => exact setCurve_keeps _ _ _
  | freezePrice => exact freezePrice_keeps _ _
  | unfreezePrice => exact unfreezePrice_keeps _
  | setOutlierConfig => exact setOutlierConfig_keeps _ _
  | storeExclusions => exact storeExclusions_keeps _ _
  | registerPriceCallback => exact registerPriceCallback_keeps _ _ _ _
  | unregisterPriceCallback => exact unregisterPriceCallback_keeps _ _
  | setSubmissionThresholdTrigger => exact setSubmissionThresholdTrigger_keeps _ _
  | setDeviationTrigger => exact setDeviationTrigger_keeps _ _
  | suppresses => exact (suppresses_keeps _).bind fun _ => preserves_pure ()
  | updateGuards f => exact updateGuards_keeps f
  | grantSourceAssets => exact grantSourceAssets_keeps _ _
  | addSourceAsset => exact addSourceAsset_keeps _ _
  | moveSourceAssets => exact moveSourceAssets_keeps _ _
  | getSourceDemerits => exact (getSourceDemerits_keeps _).bind fun _ => preserves_pure ()
  | resetSourceDemerits => exact resetSourceDemerits_keeps _
  | markSourceActive => exact markSourceActive_keeps _
  | enableAllFeatureFlags => exact asAdmin_keeps (keeps_update fun _ _ f hf => by cases hf)

section Removal

variable {w : World} {env : Env} {st : Store} (source asset : Address)

theorem removeSourceAsset_sat :
    Sat (removeSourceAsset source asset) w fun _ w' => w'.store.flags = w.store.flags ∧
      (w'.store.gates.sourceAssets source).isSome = true ∧
      ∀ g, g ≠ .sourceAssets → Unset w.store g → Unset w'.store g := by
  refine (sat_asAdmin _).2 fun admin _ _ => ?_
  simp only [checkIsSource,modifyGates,sat_bind,sat_readStore,sat_ensure,sat_update,
    authorizedBy_store]
  intro _
  refine sat_ite _ (fun _ => ?_) fun _ => ?_
  · rw [sat_update]
    refine ⟨rfl,by simp,fun g hg hu => ?_⟩
    cases g <;> first | exact absurd rfl hg | exact hu
  · rw [sat_pure]
    refine ⟨rfl,by simp,fun g hg hu => ?_⟩
    cases g <;> first | exact absurd rfl hg | exact hu

theorem removeSourceAsset_agrees_iff (h : FlagsAgree st) :
    FlagsAgree (invoke (removeSourceAsset source asset) env st) ↔
      (failure (removeSourceAsset source asset) env st = none → st.on .sourceAssets = true) := by
  rcases invoke_cases (removeSourceAsset_sat source asset (w := World.enter env st)) with
    ⟨hfail,hsame,_⟩ | ⟨hok,w,⟨hflags,hstored,hother⟩,hw,_⟩
  · rw [hsame]
    exact ⟨fun _ hok => absurd hok hfail,fun _ => h⟩
  · rw [← hw]
    have hflags' : w.store.flags = st.flags := hflags
    constructor
    · intro hagree _
      by_contra hoff
      have hclear : w.store.on .sourceAssets = false := by
        unfold Store.on
        rw [hflags']
        simpa [Store.on] using hoff
      have hnone := hagree .sourceAssets hclear source
      simp [hnone] at hstored
    · intro hon
      refine h.marked (f := .sourceAssets) ?_ hother
      rw [hflags']
      exact (Function.update_eq_self_iff.2 (hon hok).symm).symm

end Removal

/-- A writer, or a change of storage that leaves the bits and the settings behind them as they are. -/
inductive FlagAct
  | call (call : FlagCall)
  | elsewhere (rest : Store)

structure FlagTx where
  env : Env
  act : FlagAct

/-- The rest of one storage with the optional settings of another. -/
def withOptional (st rest : Store) : Store :=
  { rest with
    flags := st.flags
    demerits := st.demerits
    config := { rest.config with
      influenceCapBps := st.config.influenceCapBps
      bftFaultTolerance := st.config.bftFaultTolerance
      bftAggregationMethod := st.config.bftAggregationMethod
      compactionThresholdBps := st.config.compactionThresholdBps
      timestampThreshold := st.config.timestampThreshold
      commitRevealEnabled := st.config.commitRevealEnabled
      correlationPairs := st.config.correlationPairs
      defaultFreshnessWindow := st.config.defaultFreshnessWindow
      assetFreshnessWindow := st.config.assetFreshnessWindow
      maxAggregationSources := st.config.maxAggregationSources
      maxEventsPerCall := st.config.maxEventsPerCall
      maxHistoryPerAsset := st.config.maxHistoryPerAsset
      minSubmissionInterval := st.config.minSubmissionInterval
      riskTierEnforcement := st.config.riskTierEnforcement
      assetRiskTier := st.config.assetRiskTier
      sourceBondAmount := st.config.sourceBondAmount
      assetPolicy := st.config.assetPolicy
      assetClassId := st.config.assetClassId
      assetDeferral := st.config.assetDeferral
      assetMinSubmissionInterval := st.config.assetMinSubmissionInterval
      assetStorageTier := st.config.assetStorageTier
      anyProbation := st.config.anyProbation
      dqConfig := st.config.dqConfig
      freshnessCurve := st.config.freshnessCurve
      outlierConfig := st.config.outlierConfig
      triggerSubmissionThreshold := st.config.triggerSubmissionThreshold
      triggerDeviationBps := st.config.triggerDeviationBps
      sourceInactive := st.config.sourceInactive
      anomalyRetention := st.config.anomalyRetention
      contribScoringWindow := st.config.contribScoringWindow
      sourceComparison := st.config.sourceComparison
      priceCallbacks := st.config.priceCallbacks }
    gates := { rest.gates with
      pauseFlag := st.gates.pauseFlag
      assetDisabled := st.gates.assetDisabled
      frozen := st.gates.frozen
      sourceAssets := st.gates.sourceAssets }
    bounds := { rest.bounds with guards := st.bounds.guards }
    stats := { rest.stats with correlationFlagged := st.stats.correlationFlagged }
    rounds := { rest.rounds with
      outlierExclusions := st.rounds.outlierExclusions
      blackoutWindow := st.rounds.blackoutWindow } }

def execFlag (st : Store) (t : FlagTx) : Store :=
  match t.act with
  | .call call => invoke call.body t.env st
  | .elsewhere rest => withOptional st rest

/-- No source loses an asset while the bit of the source assets is clear. -/
def RemovesMarked (s : Store) (t : FlagTx) : Prop :=
  ∀ source asset, t.act = .call (.removeSourceAsset source asset) →
    failure (removeSourceAsset source asset) t.env s = none → s.on .sourceAssets = true

section Runs

variable {st : Store}

theorem execFlag_agrees_iff (t : FlagTx) (h : FlagsAgree st) :
    FlagsAgree (execFlag st t) ↔ RemovesMarked st t := by
  obtain ⟨env,act⟩ := t
  cases act with
  | elsewhere rest =>
    have hagree : FlagsAgree (withOptional st rest) := by
      refine h.unmarked rfl fun g hg => ?_
      cases g <;> exact hg
    exact ⟨fun _ _ _ hact => (by cases hact),fun _ => hagree⟩
  | call call =>
    by_cases hcall : ∃ source asset, call = .removeSourceAsset source asset
    · obtain ⟨source,asset,rfl⟩ := hcall
      refine (removeSourceAsset_agrees_iff source asset h).trans ⟨fun hon s a hact hok => ?_,
        fun hall => hall source asset rfl⟩
      simp only [FlagAct.call.injEq,FlagCall.removeSourceAsset.injEq] at hact
      obtain ⟨rfl,rfl⟩ := hact
      exact hon hok
    · have hne (source asset : Address) : call ≠ .removeSourceAsset source asset := fun heq =>
        hcall ⟨source,asset,heq⟩
      have hagree : FlagsAgree (invoke call.body env st) := by
        rcases invoke_cases (flagCall_keeps call hne (World.enter env st)) with
          ⟨_,hsame,_⟩ | ⟨_,w,hw,hst,_⟩
        · rw [hsame]
          exact h
        · rw [← hst]
          exact hw h
      refine ⟨fun _ source asset hact => ?_,fun _ => hagree⟩
      simp only [FlagAct.call.injEq] at hact
      exact absurd hact (hne source asset)

/-- Every reader with a bit reads what is stored, and nothing else hides behind a clear bit. -/
def Agreed (st : Store) : Prop := FlagsAgree st ∧ ∀ f, ReadsDirectly st f

theorem agreed_iff : Agreed st ↔ FlagsAgree st := ⟨fun h => h.1,fun h => ⟨h,h.readsDirectly⟩⟩

/-- A run from an agreeing storage stays in agreement exactly as long as no source loses an asset
behind a clear bit. -/
theorem flags_agree_iff (st : Store) (ts : List FlagTx) (hstart : FlagsAgree st) :
    (∀ x ∈ steps execFlag st ts, Agreed (execFlag x.1 x.2)) ↔
      ∀ x ∈ steps execFlag st ts, RemovesMarked x.1 x.2 := by
  simp only [agreed_iff]
  exact steps_keep_iff (fun _ t hs => execFlag_agrees_iff t hs) hstart

end Runs

/-- Initialized by 9, with the asset 5 and the active source 20; no bit is set. -/
def unflaggedStore : Store :=
  { config := { admin := some 9, minSources := some 1 }
    registry := {
      assets := [5]
      assetIndex := fun a => if a = 5 then some true else none
      sources := [20]
      srcActive := fun a => if a = 20 then some true else none } }

theorem unflaggedStore_agrees : FlagsAgree unflaggedStore := by
  intro f _
  cases f <;> simp [Unset,unflaggedStore,Store.storedDemerits]

/-- The source is given the asset, the cap is set, and the source loses the asset again. -/
def markedRun : List FlagTx :=
  [⟨.concrete 100 5 [9], .call (.addSourceAsset 20 5)⟩,
    ⟨.concrete 101 5 [9], .call (.setCapBps 4000)⟩,
    ⟨.concrete 102 5 [9], .call (.removeSourceAsset 20 5)⟩]

theorem markedRun_agrees :
    (run execFlag unflaggedStore markedRun).on .sourceAssets = true ∧
      ∀ x ∈ steps execFlag unflaggedStore markedRun, Agreed (execFlag x.1 x.2) := by
  refine ⟨by decide,?_⟩
  refine (flags_agree_iff unflaggedStore markedRun unflaggedStore_agrees).2 ?_
  simp only [markedRun,steps_cons,steps_nil,List.forall_mem_cons]
  refine ⟨?_,?_,?_,by simp⟩
  · intro source asset hact
    cases hact
  · intro source asset hact
    cases hact
  · intro source asset _ _
    decide

/-- The administrator takes an asset from a source that was never given any. -/
def unmarkedRun : List FlagTx :=
  [⟨.concrete 100 5 [9], .call (.removeSourceAsset 20 5)⟩]

theorem unmarked_assets_ignored :
    ¬∀ x ∈ steps execFlag unflaggedStore unmarkedRun, Agreed (execFlag x.1 x.2) := by
  intro h
  have hagreed := h (unflaggedStore,⟨.concrete 100 5 [9],.call (.removeSourceAsset 20 5)⟩)
    List.mem_cons_self
  have hnone := hagreed.1 .sourceAssets (by decide) 20
  exact absurd hnone (by decide)

end PriceOracle.Configuration
