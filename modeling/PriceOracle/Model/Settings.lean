import PriceOracle.Model.Host

/-! # Settings and access checks

The configuration getters with their feature-flag gates and defaults, and the checks shared by the
entry points. A getter that only reads is a function of storage; a check that may panic is a
transaction. -/

namespace PriceOracle.Model

open Lib.Transaction Lib.MachineInt

namespace Store

variable (st : Store)

def getDecimals : Nat := st.config.decimals.getD 18

def getTimestampThreshold : Nat :=
  if st.on .timestampThreshold then st.config.timestampThreshold.getD 300 else 300

def getAggregationMethod : Nat := st.config.aggregationMethod.getD 0

def getMaxAggregationSources : Nat :=
  if st.on .maxAggregationSources then st.config.maxAggregationSources.getD 0 else 0

def getMaxEventsPerCall : Nat :=
  if st.on .maxEventsPerCall then st.config.maxEventsPerCall.getD 20 else 20

def getMaxHistoryLength : Nat := st.config.maxHistory.getD 100

def getMaxHistoryPerAsset : Nat :=
  if st.on .maxHistoryPerAsset then st.config.maxHistoryPerAsset.getD 1000 else 1000

def getMinSubmissionInterval : Nat :=
  if st.on .minSubmissionInterval then st.config.minSubmissionInterval.getD 0 else 0

def getAggregationCooldown : Nat := st.config.aggregationCooldown.getD 10

def getCommitWindow : Nat := st.config.commitWindow.getD 20

def getRevealWindow : Nat := st.config.revealWindow.getD 20

/-- The interval the aggregation loop enforces for `asset`. -/
def minIntervalFor (asset : Address) : Nat :=
  if st.on .assetMinSubmissionInterval then
    (st.config.assetMinSubmissionInterval asset).getD st.getMinSubmissionInterval
  else st.getMinSubmissionInterval

def isPaused : Bool := st.on .pause && st.gates.pauseFlag.getD false

def isPriceFrozen (asset : Address) : Bool := st.on .freeze && (st.gates.frozen asset).isSome

def getFrozenPrice (asset : Address) : Option FrozenPrice :=
  if st.on .freeze then st.gates.frozen asset else none

def isAssetDisabled (asset : Address) : Bool :=
  st.on .assetDisabled && (st.gates.assetDisabled asset).getD false

def isAssetPaused (asset : Address) : Bool := (st.gates.assetPauseFlag asset).getD false

def isCircuitBreakerTripped (asset : Address) : Bool :=
  (st.gates.circuitBreakerTripped asset).getD false

/-- The value `get_price_bounds` returns for a registered asset. -/
def priceBoundsOf (asset : Address) : PriceBounds :=
  (st.gates.priceBounds asset).getD ⟨0, i128Max, 0⟩

/-- The value `get_min_price` returns for a registered asset. -/
def minPriceOf (asset : Address) : Int :=
  if 0 < (st.priceBoundsOf asset).minPrice then (st.priceBoundsOf asset).minPrice
  else (st.gates.minPrice asset).getD 0

/-- The condition `check_source_asset` enforces. -/
def sourceAllowed (source asset : Address) : Bool :=
  if st.on .sourceAssets then
    match st.gates.sourceAssets source with
    | some assets => assets.contains asset
    | none => true
  else true

def isSourceInactive (source : Address) : Bool :=
  st.on .sourceInactive && (st.config.sourceInactive source).getD false

def getSourceBond : Int := if st.on .sourceBond then st.config.sourceBondAmount.getD 0 else 0

def getSourceDepositedBond (source : Address) : Int := (st.registry.sourceBond source).getD 0

def readBftFaultTolerance : Nat := if st.on .bft then st.config.bftFaultTolerance.getD 0 else 0

def readBftAggregationMethod : Nat :=
  if st.on .bft then st.config.bftAggregationMethod.getD 0 else 0

def readCommitRevealEnabled : Bool :=
  st.on .commitReveal && st.config.commitRevealEnabled.getD false

def getCompactionThresholdBps : Nat :=
  if st.on .compactionThreshold then st.config.compactionThresholdBps.getD 0 else 0

def getAssetStorageTier (asset : Address) : HistoryStorageTier :=
  if st.on .storageTier then (st.config.assetStorageTier asset).getD .temporary else .temporary

/-- `price_bounds::guards`. -/
def guards : PublicationGuards :=
  if st.on .publicationGuards then st.bounds.guards.getD {} else {}

end Store

def getAdmin : Contract Address :=
  consult fun w => match w.store.config.admin with
    | some admin => .ok admin
    | none => .error .hostTrap

/-- An entry point that only the administrator may call. -/
def asAdmin {α : Type} (body : Contract α) : Contract α := do
  let admin ← getAdmin
  requireAuth admin
  body

def getMinSourcesRequired : Contract Nat :=
  consult fun w => match w.store.config.minSources with
    | some n => .ok n
    | none => .error .configMissing

def checkNotPaused : Contract Unit := do
  let paused ← readStore fun _ st => st.isPaused
  ensure (paused = false) .contractPaused

def checkNotFrozen (asset : Address) : Contract Unit := do
  let frozen ← readStore fun _ st => st.isPriceFrozen asset
  ensure (frozen = false) .priceFrozen

def checkSource (source : Address) : Contract Unit := do
  let active ← readStore fun _ st => (st.registry.srcActive source).getD false
  ensure (active = true) .notAuthorized
  let required ← readStore fun _ st => st.getSourceBond
  let deposited ← readStore fun _ st => st.getSourceDepositedBond source
  ensure (¬(0 < required ∧ deposited < required)) .insufficientBond

/-- Rebuilds the membership index of an asset that only has the legacy flag. -/
def indexAsset (asset : Address) : Contract Unit :=
  update fun w =>
    if (w.store.registry.assetIndex asset).getD false then w
    else { w with store := { w.store with registry := { w.store.registry with
      assetIndex := Function.update w.store.registry.assetIndex asset (some true) } } }

def checkRegisteredAsset (asset : Address) : Contract Unit := do
  let registered ← readStore fun _ st => st.isRegisteredAsset asset
  ensure (registered = true) .assetNotRegistered
  indexAsset asset

def checkSourceAsset (source asset : Address) : Contract Unit := do
  let allowed ← readStore fun _ st => st.sourceAllowed source asset
  ensure (allowed = true) .notAuthorized

def getPriceBounds (asset : Address) : Contract PriceBounds := do
  checkRegisteredAsset asset
  readStore fun _ st => st.priceBoundsOf asset

def getMinPrice (asset : Address) : Contract Int := do
  checkRegisteredAsset asset
  let _ ← getPriceBounds asset
  readStore fun _ st => st.minPriceOf asset

/-- `get_source_demerits`: a read that lifts an expired disqualification. -/
def getSourceDemerits (source : Address) : Contract SourceDemeritState := do
  let state ← readStore fun e st => st.sourceDemerits e source
  update fun w =>
    if w.store.on .sourceDemerits ∧
        w.store.storedDemerits source ≠ w.store.sourceDemerits w.env source then
      { w with store := { w.store with
        demerits := Function.update w.store.demerits source
          (some (w.store.sourceDemerits w.env source)) } }
    else w
  pure state

def isSourceSuspended (source : Address) : Contract Bool := do
  let state ← getSourceDemerits source
  pure (state.status = .disqualified)

def enforceCommitRevealForBft : Contract Unit := do
  let tolerance ← readStore fun _ st => st.readBftFaultTolerance
  ensure (tolerance = 0) .commitRevealRequired
  let enabled ← readStore fun _ st => st.readCommitRevealEnabled
  ensure (enabled = false) .commitRevealRequired

/-- `feature_flags::mark`. -/
def mark (f : FeatureFlag) : Contract Unit :=
  update fun w =>
    if w.store.on f then w
    else { w with store := { w.store with flags := Function.update w.store.flags f true } }

section Rules

variable {α : Type} {body : Contract α} {w : World}

@[simp] theorem sat_mark (f : FeatureFlag) (Q : Unit → World → Prop) :
    Sat (mark f) w Q ↔
      Q () { w with store := { w.store with flags := Function.update w.store.flags f true } } := by
  unfold mark
  rw [sat_update]
  by_cases hon : w.store.on f = true
  · have hself : Function.update w.store.flags f true = w.store.flags :=
      Function.update_eq_self_iff.2 hon.symm
    rw [if_pos hon,hself]
  · rw [if_neg hon]

/-- The world in which the body of an administrator's call runs. -/
def World.authorizedBy (w : World) (admin : Address) : World :=
  { w with log := { w.log with auths := w.log.auths ++ [admin] } }

@[simp] theorem authorizedBy_env (admin : Address) : (w.authorizedBy admin).env = w.env := rfl

@[simp] theorem authorizedBy_store (admin : Address) : (w.authorizedBy admin).store = w.store := rfl

/-- The administrator has authorized the call. -/
def AdminSigned (env : Env) (st : Store) : Prop :=
  ∃ admin, st.config.admin = some admin ∧ env.authorized admin = true

theorem sat_asAdmin (Q : α → World → Prop) :
    Sat (asAdmin body) w Q ↔ ∀ admin, w.store.config.admin = some admin →
      w.env.authorized admin = true → Sat body (w.authorizedBy admin) Q := by
  simp only [asAdmin,sat_bind,getAdmin,sat_consult,sat_requireAuth]
  cases w.store.config.admin with
  | none => simp
  | some a => simp [World.authorizedBy]

theorem fails_asAdmin (E : ErrorCode → World → Prop) :
    Fails (asAdmin body) w E ↔
      (w.store.config.admin = none → E .hostTrap w) ∧
        ∀ admin, w.store.config.admin = some admin →
          (w.env.authorized admin = false → E .notAuthorized w) ∧
          (w.env.authorized admin = true → Fails body (w.authorizedBy admin) E) := by
  simp only [asAdmin,fails_bind,getAdmin,fails_consult,sat_consult,fails_requireAuth,
    sat_requireAuth]
  cases w.store.config.admin with
  | none => simp
  | some a => simp [World.authorizedBy]

theorem sat_asAdmin_signed {Q : α → World → Prop}
    (hbody : ∀ admin, Sat body (w.authorizedBy admin) Q) :
    Sat (asAdmin body) w fun a u => AdminSigned w.env w.store ∧ Q a u := by
  rw [sat_asAdmin]
  intro admin hadmin hauth
  exact (hbody admin).mono fun a u hQ => ⟨⟨admin,hadmin,hauth⟩,hQ⟩

theorem fails_asAdmin_signed {E : ErrorCode → World → Prop} (h : AdminSigned w.env w.store)
    (hbody : ∀ admin, Fails body (w.authorizedBy admin) E) : Fails (asAdmin body) w E := by
  obtain ⟨signer,hsigner,hsigned⟩ := h
  rw [fails_asAdmin]
  refine ⟨fun hnone => ?_,fun admin hadmin => ⟨fun hno => ?_,fun _ => hbody admin⟩⟩
  · rw [hsigner] at hnone
    cases hnone
  · rw [hsigner,Option.some.injEq] at hadmin
    rw [← hadmin,hsigned] at hno
    cases hno

end Rules

section Frames

variable {T : List Region} (asset : Address) (source : Address) (env : Env)

theorem getAdmin_frame : Frame T getAdmin := preserves_consult _

theorem asAdmin_frame {α : Type} {body : Contract α} (hbody : Frame T body) :
    Frame (.auths :: T) (asAdmin body) :=
  getAdmin_frame.bind fun admin => ((requireAuth_frame admin).mono (by simp)).bind fun _ =>
    hbody.mono (List.subset_cons_self _ _)

theorem asAdmin_sat {α : Type} {R : World → World → Prop} [IsTrans World R] {body : Contract α}
    {w : World} (hauth : ∀ t t', layout.agreeOff [.auths] t t' → R t t')
    (hbody : ∀ t, layout.agreeOff [.auths] w t → Sat body t fun _ u => R t u) :
    Sat (asAdmin body) w fun _ u => R w u := by
  have hw : layout.agreeOff [.auths] w w := Std.Refl.refl w
  refine (getAdmin_frame.from hw).andThen fun admin t ht => ?_
  refine ((requireAuth_frame admin).from ht).andThen fun _ t ht => ?_
  exact (hbody t ht).mono fun _ u hu => IsTrans.trans w t u (hauth w t ht) hu

theorem getMinSourcesRequired_frame : Frame T getMinSourcesRequired := preserves_consult _

theorem checkNotPaused_frame : Frame T checkNotPaused :=
  .read fun _ => preserves_ensure _ _

theorem checkNotFrozen_frame : Frame T (checkNotFrozen asset) :=
  .read fun _ => preserves_ensure _ _

theorem checkSource_frame : Frame T (checkSource source) :=
  .read fun _ => .check fun _ => .read fun _ => .read fun _ => preserves_ensure _ _

theorem checkSourceAsset_frame (source asset : Address) : Frame T (checkSourceAsset source asset) :=
  .read fun _ => preserves_ensure _ _

theorem isRegisteredAsset_indexed (st : Store) (asset : Address)
    (h : st.isRegisteredAsset asset = true) :
    Store.isRegisteredAsset { st with registry := { st.registry with
      assetIndex := Function.update st.registry.assetIndex asset (some true) } } =
      st.isRegisteredAsset := by
  funext a
  by_cases ha : a = asset
  · subst ha
    rw [h]
    simp [Store.isRegisteredAsset]
  · simp [Store.isRegisteredAsset,Function.update_of_ne ha]

theorem checkRegisteredAsset_frame : Frame T (checkRegisteredAsset asset) := by
  intro w
  unfold checkRegisteredAsset indexAsset
  simp only [sat_bind,sat_readStore,sat_ensure,sat_update]
  intro h r _
  split_ifs with hi
  · rfl
  · cases r <;> try rfl
    change (Store.isRegisteredAsset _,_,_,_,_) = (_,_,_,_,_)
    rw [isRegisteredAsset_indexed w.store asset h]

theorem checkRegisteredAsset_sat (w : World) : Sat (checkRegisteredAsset asset) w fun _ w' =>
      w.store.isRegisteredAsset asset = true ∧ layout.agreeOff [] w w' := by
  refine Sat.and ?_ (checkRegisteredAsset_frame asset w)
  unfold checkRegisteredAsset
  simp only [sat_bind,sat_readStore,sat_ensure]
  intro h a w' _
  exact h

theorem checkRegisteredAsset_fails (w : World) : Fails (checkRegisteredAsset asset) w fun e _ =>
      e = .assetNotRegistered ∧ w.store.isRegisteredAsset asset = false := by
  unfold checkRegisteredAsset indexAsset
  simp

theorem checkRegisteredAsset_ok {asset : Address} {w : World}
    (hregistered : w.store.isRegisteredAsset asset = true) :
    ∃ w', checkRegisteredAsset asset w = .ok () w' ∧ layout.agreeOff [] w w' := by
  cases hrun : checkRegisteredAsset asset w with
  | ok u w' => exact ⟨w',rfl,(checkRegisteredAsset_sat asset w u w' hrun).2⟩
  | error e w' =>
    have hunknown := (checkRegisteredAsset_fails asset w e w' hrun).2
    exact absurd (hunknown.symm.trans hregistered) Bool.false_ne_true

theorem getPriceBounds_frame : Frame T (getPriceBounds asset) :=
  (checkRegisteredAsset_frame asset).bind fun _ => readStore_frame _

theorem getMinPrice_frame : Frame T (getMinPrice asset) :=
  (checkRegisteredAsset_frame asset).bind fun _ => (getPriceBounds_frame asset).bind fun _ =>
    readStore_frame _

theorem sourceDemerits_update (st : Store) (source a : Address)
    (d : SourceDemeritState) (hon : st.on .sourceDemerits = true) :
    Store.sourceDemerits env { st with demerits := Function.update st.demerits source (some d) } a =
      if a = source then d.settle env.sequence st.demeritConfig.cooldownLedgers
      else st.sourceDemerits env a := by
  simp only [Store.sourceDemerits,Store.storedDemerits,Store.on,Store.demeritConfig] at hon ⊢
  by_cases ha : a = source
  · subst ha
    simp [hon]
  · simp [hon,ha]

theorem suspended_settled (st : Store) (source : Address) (hon : st.on .sourceDemerits = true) :
    Store.suspended env { st with
      demerits := Function.update st.demerits source (some (st.sourceDemerits env source)) } =
      st.suspended env := by
  funext a
  unfold Store.suspended
  rw [sourceDemerits_update env st source a _ hon]
  split_ifs with ha
  · subst ha
    rw [Store.sourceDemerits,if_pos hon,SourceDemeritState.settle_settle]
  · rfl

theorem getSourceDemerits_frame : Frame T (getSourceDemerits source) := by
  refine .read fun state =>
    Preserves.bind (preserves_update fun w r _ => ?_) fun _ => preserves_pure _
  split_ifs with h
  · cases r <;> try rfl
    exact suspended_settled w.env w.store source h.1
  · rfl

theorem isSourceSuspended_frame : Frame T (isSourceSuspended source) :=
  (getSourceDemerits_frame source).bind fun _ => preserves_pure _

theorem enforceCommitRevealForBft_frame : Frame T enforceCommitRevealForBft :=
  .read fun _ => .check fun _ => .read fun _ => preserves_ensure _ _

theorem mark_frame (f : FeatureFlag) : Frame [.flags,.suspension] (mark f) := by
  refine preserves_update fun w r hr => ?_
  split_ifs with h
  · rfl
  · cases r <;> first | rfl | simp at hr

theorem isSourceSuspended_sat (w : World) :
    Sat (isSourceSuspended source) w fun b _ => b = w.store.suspended w.env source := by
  unfold isSourceSuspended getSourceDemerits
  simp [Store.suspended]

end Frames

end PriceOracle.Model
