import PriceOracle.Model.Invocation
import PriceOracle.Model.Timelock
import PriceOracle.Lib.Run

/-! # The calls that change the configuration

Every captured setting is written by its setter, by an element of a batch and by a rollback. The
setters differ in what they check, mark and write; each takes a snapshot in between. -/

namespace PriceOracle.Configuration

open Model Lib.Transaction Lib.Footprint

/-- The feature bits after those of `flags` are marked. -/
def markAll (bits : FeatureFlag → Bool) (flags : List FeatureFlag) : FeatureFlag → Bool :=
  flags.foldl (fun bits f => Function.update bits f true) bits

theorem markAll_apply (bits : FeatureFlag → Bool) (flags : List FeatureFlag) (f : FeatureFlag) :
    markAll bits flags f = (decide (f ∈ flags) || bits f) := by
  induction flags generalizing bits with
  | nil => simp [markAll]
  | cons g flags ih =>
    have hstep : markAll bits (g :: flags) = markAll (Function.update bits g true) flags := rfl
    rw [hstep,ih]
    by_cases hf : f = g
    · simp [hf]
    · simp [hf]

/-- The snapshot of an oracle that has a required number of sources. -/
def snapshotOf (env : Env) (st : Store) : ConfigSnapshot :=
  st.capture env st.config.nextVersion (st.config.minSources.getD 0)

/-- The configuration once that snapshot is stored. -/
def recordedConfig (env : Env) (st : Store) : Config := st.config.storeSnapshot (snapshotOf env st)

/-- A setting of the administrator that is captured by snapshots, but for the pause flag. -/
inductive ConfigSetting
  | minSourcesRequired (newMin : Nat)
  | maxHistoryLength (newMax : Nat)
  | resolution (newResolution : Nat)
  | decimals (newDecimals : Nat)
  | description (newDescription : String)
  | aggregationMethod (method : Nat)
  | timestampThreshold (threshold : Nat)
  | maxPriceDeviation (deviationBasisPoints : Nat)
  | circuitBreakerThreshold (thresholdBps : Nat)
  | heartbeatInterval (interval : Nat)
  | maxHistoryPerAsset (newMax : Nat)
  | maxEventsPerCall (newMax : Nat)
  | maxAggregationSources (newMax : Nat)
  | aggregationCooldown (cooldownLedgers : Nat)
  | minSubmissionInterval (intervalLedgers : Nat)
  | interpolationEnabled (enabled : Bool)
  | maxSources (newMax : Nat)
  | queryRateLimit (maxPerLedger : Nat)
  | maxAssets (newMax : Nat)
  | timelockDuration (duration : Nat)

def ConfigSetting.body : ConfigSetting → Contract Unit
  | minSourcesRequired newMin => setMinSourcesRequired newMin
  | maxHistoryLength newMax => setMaxHistoryLength newMax
  | resolution newResolution => setResolution newResolution
  | decimals newDecimals => setDecimals newDecimals
  | description newDescription => setDescription newDescription
  | aggregationMethod method => setAggregationMethod method
  | timestampThreshold threshold => setTimestampThreshold threshold
  | maxPriceDeviation deviationBasisPoints => setMaxPriceDeviation deviationBasisPoints
  | circuitBreakerThreshold thresholdBps => setCircuitBreakerThreshold thresholdBps
  | heartbeatInterval interval => setHeartbeatInterval interval
  | maxHistoryPerAsset newMax => setMaxHistoryPerAsset newMax
  | maxEventsPerCall newMax => setMaxEventsPerCall newMax
  | maxAggregationSources newMax => setMaxAggregationSources newMax
  | aggregationCooldown cooldownLedgers => setAggregationCooldown cooldownLedgers
  | minSubmissionInterval intervalLedgers => setMinSubmissionInterval intervalLedgers
  | interpolationEnabled enabled => setInterpolationEnabled enabled
  | maxSources newMax => setMaxSources newMax
  | queryRateLimit maxPerLedger => setQueryRateLimit maxPerLedger
  | maxAssets newMax => setMaxAssets newMax
  | timelockDuration duration => setTimelockDuration duration

/-- What a setter demands of its argument. -/
def ConfigSetting.Valid (sourceCount : Nat) : ConfigSetting → Prop
  | minSourcesRequired newMin =>
    (newMin ≠ 0 ∧ newMin ≤ maxMinSources) ∧ (0 < sourceCount → newMin ≤ sourceCount)
  | maxHistoryLength newMax => newMax ≠ 0 ∧ newMax ≤ maxMaxHistory
  | resolution newResolution => newResolution ≤ maxResolution
  | decimals newDecimals => newDecimals ≤ maxDecimals
  | description newDescription => newDescription.utf8ByteSize ≤ maxDescriptionLength
  | aggregationMethod method => method ≤ 4
  | timestampThreshold threshold => threshold ≠ 0 ∧ threshold ≤ maxTimestampThreshold
  | maxPriceDeviation deviationBasisPoints => deviationBasisPoints ≤ 100000
  | circuitBreakerThreshold thresholdBps => thresholdBps ≤ 100000
  | heartbeatInterval interval => interval ≠ 0 ∧ interval ≤ maxHeartbeatInterval
  | _ => True

/-- The bits a setter marks. -/
def ConfigSetting.flags : ConfigSetting → List FeatureFlag
  | timestampThreshold _ => [.timestampThreshold]
  | maxHistoryPerAsset _ => [.maxHistoryPerAsset]
  | maxEventsPerCall _ => [.maxEventsPerCall]
  | maxAggregationSources _ => [.maxAggregationSources]
  | minSubmissionInterval _ => [.minSubmissionInterval]
  | _ => []

/-- The key a setter writes. -/
def ConfigSetting.write (c : Config) : ConfigSetting → Config
  | minSourcesRequired newMin => { c with minSources := some newMin }
  | maxHistoryLength newMax => { c with maxHistory := some newMax }
  | resolution newResolution => { c with resolution := some newResolution }
  | decimals newDecimals => { c with decimals := some newDecimals }
  | description newDescription => { c with description := some newDescription }
  | aggregationMethod method => { c with aggregationMethod := some method }
  | timestampThreshold threshold => { c with timestampThreshold := some threshold }
  | maxPriceDeviation deviationBasisPoints =>
    { c with maxPriceDeviation := some deviationBasisPoints }
  | circuitBreakerThreshold thresholdBps => { c with circuitBreakerThreshold := some thresholdBps }
  | heartbeatInterval interval => { c with heartbeatInterval := some interval }
  | maxHistoryPerAsset newMax => { c with maxHistoryPerAsset := some newMax }
  | maxEventsPerCall newMax => { c with maxEventsPerCall := some newMax }
  | maxAggregationSources newMax => { c with maxAggregationSources := some newMax }
  | aggregationCooldown cooldownLedgers => { c with aggregationCooldown := some cooldownLedgers }
  | minSubmissionInterval intervalLedgers =>
    { c with minSubmissionInterval := some intervalLedgers }
  | interpolationEnabled enabled => { c with interpolationEnabled := some enabled }
  | maxSources newMax => { c with maxSources := some newMax }
  | queryRateLimit maxPerLedger => { c with queryRateLimit := some maxPerLedger }
  | maxAssets newMax => { c with maxAssets := some newMax }
  | timelockDuration duration => { c with timelockDuration := some duration }

/-- The storage after a setting was accepted: its snapshot, its bits and its key are written. -/
def configured (env : Env) (st : Store) (setting : ConfigSetting) : Store :=
  { st with
    config := setting.write (recordedConfig env st)
    flags := markAll st.flags setting.flags }

section Setters

variable {w : World} {Q : Unit → World → Prop} (flags : List FeatureFlag)

theorem sat_marks : Sat (forM flags mark) w Q ↔
      Q () { w with store := { w.store with flags := markAll w.store.flags flags } } := by
  induction flags generalizing w with
  | nil => simp [markAll]
  | cons f flags ih =>
    rw [List.forM_cons,sat_bind,sat_mark,ih]
    rfl

@[simp] theorem sat_snapshotBeforeChange :
    Sat snapshotBeforeChange w Q ↔ (w.store.config.minSources.isSome = true →
      Q () { w with store := { w.store with config := recordedConfig w.env w.store } }) := by
  simp only [snapshotBeforeChange,captureCurrent,getMinSourcesRequired,modifyConfig,sat_bind,
    sat_readStore,sat_consult,sat_update]
  cases hm : w.store.config.minSources with
  | none => simp
  | some m => simp [recordedConfig,snapshotOf,hm]

theorem sat_configure (write : Config → Config) :
    Sat (configure flags write) w Q ↔ (w.store.config.minSources.isSome = true →
      Q () { w with store := { w.store with
        config := write (recordedConfig w.env w.store)
        flags := markAll w.store.flags flags } }) := by
  simp only [configure,sat_bind,sat_snapshotBeforeChange,sat_marks,modifyConfig,sat_update]

/-- A setter accepts a valid argument of the administrator, and its effect is that of `configured`. -/
theorem ConfigSetting.body_sat (setting : ConfigSetting) :
    Sat setting.body w fun _ w' => setting.Valid w.store.registry.sources.length ∧
      w.store.config.minSources.isSome = true ∧ w'.store = configured w.env w.store setting := by
  cases setting
  all_goals
    refine (sat_asAdmin _).2 fun admin _ _ => ?_
    simp only [sat_bind,sat_ensure,sat_readStore,sat_configure,authorizedBy_env,authorizedBy_store]
  case minSourcesRequired newMin =>
    intro hrange hcount hm
    exact ⟨⟨hrange,hcount⟩,hm,rfl⟩
  case maxHistoryPerAsset | maxEventsPerCall | maxAggregationSources | aggregationCooldown |
      minSubmissionInterval | interpolationEnabled | maxSources | queryRateLimit | maxAssets |
      timelockDuration =>
    intro hm
    exact ⟨trivial,hm,rfl⟩
  all_goals
    intro hvalid hm
    exact ⟨hvalid,hm,rfl⟩

end Setters

section Batches

/-- The setting an element of a batch writes, without the check of the setter. -/
def elementSetting (op : BatchOperation) : Option ConfigSetting :=
  match op.opType with
  | 2 => some (.minSourcesRequired (ofBeBytes op.data))
  | 3 => some (.maxHistoryLength (ofBeBytes op.data))
  | 4 => some (.resolution (ofBeBytes op.data))
  | 5 => some (.decimals (ofBeBytes op.data))
  | 7 => some (.timestampThreshold (ofBeBytes op.data))
  | _ => none

def applyElement (env : Env) (st : Store) (op : BatchOperation) : Store :=
  match elementSetting op with
  | some setting => configured env st setting
  | none => st

variable {w : World}

theorem executeSingleOp_sat (op : BatchOperation) :
    Sat (executeSingleOp op) w fun _ w' => w'.env = w.env ∧
      ((elementSetting op).isSome = true → w.store.config.minSources.isSome = true) ∧
      w'.store = applyElement w.env w.store op := by
  unfold executeSingleOp applyElement elementSetting
  simp only [sat_bind,getAdmin,sat_consult,sat_ensure]
  intro _ _ _
  split
  case h_1 =>
    simp_all
  case h_2 => simp_all
  case h_7 => simp_all
  case h_9 => exact sat_abort _
  all_goals
    rw [sat_configure]
    simp_all [configured,ConfigSetting.write,ConfigSetting.flags]

/-- The batch has an element that writes a setting. -/
def WritesSetting (operations : List BatchOperation) : Prop :=
  ∃ op ∈ operations, (elementSetting op).isSome = true

/-- The elements of a batch are applied one after the other. -/
theorem executeElements_sat (operations : List BatchOperation) :
    Sat (forM operations executeSingleOp) w fun _ w' => w'.env = w.env ∧
      (WritesSetting operations → w.store.config.minSources.isSome = true) ∧
      w'.store = operations.foldl (applyElement w.env) w.store := by
  induction operations generalizing w with
  | nil => simp [WritesSetting]
  | cons op operations ih =>
    rw [List.forM_cons,sat_bind]
    refine (executeSingleOp_sat op).mono ?_
    rintro _ u ⟨henv,hop,hst⟩
    refine ih.mono ?_
    rintro _ v ⟨henv',hrest,hst'⟩
    refine ⟨henv'.trans henv,?_,?_⟩
    · rintro ⟨x,hx,hwrites⟩
      cases hset : elementSetting op with
      | some setting => exact hop (by rw [hset]; rfl)
      | none =>
        have hsame : u.store = w.store := by
          rw [hst]
          simp [applyElement,hset]
        rw [← hsame]
        refine hrest ⟨x,?_,hwrites⟩
        rcases List.mem_cons.1 hx with rfl | hx
        · simp [hset] at hwrites
        · exact hx
    · rw [hst',henv,hst,List.foldl_cons]

end Batches

/-- The calls that write captured settings, and those that queue a batch. -/
inductive ConfigCall
  | initializeContract (admin : Address) (minSourcesRequired maxHistoryLength decimals : Nat)
      (description : String)
  | set (setting : ConfigSetting)
  | pause
  | unpause
  | proposeBatch (operations : List BatchOperation)
  | executeBatch (batchId : Nat)
  | cancelBatch (batchId : Nat)
  | rollbackConfig (version : Nat)

def ConfigCall.body : ConfigCall → Contract Unit
  | initializeContract admin minSourcesRequired maxHistoryLength decimals description =>
    Model.initializeContract admin minSourcesRequired maxHistoryLength decimals description
  | set setting => setting.body
  | pause => Model.pause
  | unpause => Model.unpause
  | proposeBatch operations => do
    let _ ← Model.proposeBatch operations
    pure ()
  | executeBatch batchId => Model.executeBatch batchId
  | cancelBatch batchId => Model.cancelBatch batchId
  | rollbackConfig version => Model.rollbackConfig version

/-- The storage after the pause flag was written. -/
def flagged (env : Env) (st : Store) (flags : List FeatureFlag) (paused : Bool) : Store :=
  { st with
    config := recordedConfig env st
    flags := markAll st.flags flags
    gates := { st.gates with pauseFlag := some paused } }

/-- The storage after the snapshot was restored. -/
def restored (env : Env) (st : Store) (snapshot : ConfigSnapshot) : Store :=
  { st with
    config := (recordedConfig env st).applySnapshot snapshot
    flags := markAll st.flags snapshotFlags
    gates := { st.gates with pauseFlag := some snapshot.paused } }

/-- The two storages have the same settings, bits and gates. -/
structure SameConfig (st st' : Store) : Prop where
  config : st'.config = st.config
  flags : st'.flags = st.flags
  gates : st'.gates = st.gates

/-- What a successful call does to the settings. -/
def ConfigCall.Effect : ConfigCall → Env → Store → Store → Prop
  | initializeContract admin minSourcesRequired maxHistoryLength decimals description, _, st, st' =>
    st.config.admin = none ∧ decimals ≤ maxDecimals ∧ SameConfig { st with
      config := st.config.initialized admin minSourcesRequired maxHistoryLength decimals
        description } st'
  | set setting, env, st, st' =>
    setting.Valid st.registry.sources.length ∧ st.config.minSources.isSome = true ∧
      SameConfig (configured env st setting) st'
  | pause, env, st, st' =>
    st.config.minSources.isSome = true ∧ SameConfig (flagged env st [.pause] true) st'
  | unpause, env, st, st' =>
    st.config.minSources.isSome = true ∧ SameConfig (flagged env st [] false) st'
  | proposeBatch _, _, st, st' => SameConfig st st'
  | executeBatch id, env, st, st' =>
    ∃ batch, st.timelock.pendingBatch id = some batch ∧
      (WritesSetting batch.operations → st.config.minSources.isSome = true) ∧
      SameConfig (batch.operations.foldl (applyElement env) st) st'
  | cancelBatch _, _, st, st' => SameConfig st st'
  | rollbackConfig version, env, st, st' =>
    ∃ snapshot, st.config.snapshot version = some snapshot ∧
      st.config.minSources.isSome = true ∧ SameConfig (restored env st snapshot) st'

section Effects

variable {w : World}

theorem sameConfig_refl (st : Store) : SameConfig st st := ⟨rfl,rfl,rfl⟩

theorem sameConfig_of_frame {T : List Region} {m : Contract Unit} (hm : Frame T m)
    (hconfig : .config ∉ T) (hflags : .flags ∉ T) (hgates : .gates ∉ T) :
    Sat m w fun _ w' => SameConfig w.store w'.store :=
  (hm w).mono fun _ _ hw => ⟨hw .config hconfig,hw .flags hflags,hw .gates hgates⟩

theorem rollbackConfig_sat (version : Nat) :
    Sat (Model.rollbackConfig version) w fun _ w' =>
      (ConfigCall.rollbackConfig version).Effect w.env w.store w'.store := by
  refine (sat_asAdmin _).2 fun admin _ _ => ?_
  simp only [sat_bind,sat_consult,sat_snapshotBeforeChange,applySnapshot,modifyConfig,
    modifyGates,sat_update,sat_marks,authorizedBy_store,authorizedBy_env]
  intro snapshot hread hm
  have hs : w.store.config.snapshot version = some snapshot :=
    found_of_ok (by cases w.store.config.snapshot version <;> rfl) hread
  exact ⟨snapshot,hs,hm,rfl,rfl,rfl⟩

theorem executeBatch_sat (id : Nat) :
    Sat (Model.executeBatch id) w fun _ w' =>
      (ConfigCall.executeBatch id).Effect w.env w.store w'.store := by
  refine (sat_asAdmin _).2 fun admin _ _ => ?_
  simp only [sat_bind,getPendingBatch,sat_consult,sat_readStore,sat_getSequence,sat_ensure,
    modifyTimelock,sat_update,authorizedBy_store,authorizedBy_env]
  intro b hread _
  have hb : w.store.timelock.pendingBatch id = some b :=
    found_of_ok (by cases w.store.timelock.pendingBatch id <;> rfl) hread
  refine (executeElements_sat b.operations).mono ?_
  rintro _ u ⟨_,hm,hu⟩
  refine ⟨b,hb,hm,?_⟩
  rw [hu]
  exact ⟨rfl,rfl,rfl⟩

theorem ConfigCall.body_sat (call : ConfigCall) :
    Sat call.body w fun _ w' => call.Effect w.env w.store w'.store := by
  cases call with
  | initializeContract admin minSourcesRequired maxHistoryLength decimals description =>
    simp only [body,Model.initializeContract,modifyConfig,sat_bind,sat_readStore,sat_ensure,
      sat_requireAuth,sat_update]
    intro hadmin _ hdecimals _
    exact ⟨by simpa using hadmin,hdecimals,rfl,rfl,rfl⟩
  | set setting =>
    refine setting.body_sat.mono ?_
    rintro _ w' ⟨hvalid,hm,hst⟩
    refine ⟨hvalid,hm,?_⟩
    rw [hst]
    exact sameConfig_refl _
  | pause =>
    refine (sat_asAdmin _).2 fun admin _ _ => ?_
    simp only [sat_bind,sat_snapshotBeforeChange,sat_mark,modifyGates,sat_update]
    intro hm
    exact ⟨hm,rfl,rfl,rfl⟩
  | unpause =>
    refine (sat_asAdmin _).2 fun admin _ _ => ?_
    simp only [sat_bind,sat_snapshotBeforeChange,modifyGates,sat_update]
    intro hm
    exact ⟨hm,rfl,rfl,rfl⟩
  | proposeBatch operations =>
    have hframe : Frame [.auths,.timelock] (do let _ ← Model.proposeBatch operations; pure ()) :=
      (asAdmin_frame (getAdmin_frame.bind fun _ => .read fun _ => .read fun _ => .read fun _ =>
        (modifyTimelock_frame _).bind fun _ => preserves_pure _)).bind fun _ => preserves_pure ()
    exact sameConfig_of_frame hframe (by simp) (by simp) (by simp)
  | executeBatch id => exact executeBatch_sat id
  | cancelBatch id =>
    have hframe : Frame [.auths,.timelock] (Model.cancelBatch id) :=
      asAdmin_frame (.lookup fun _ => modifyTimelock_frame _)
    exact sameConfig_of_frame hframe (by simp) (by simp) (by simp)
  | rollbackConfig version => exact rollbackConfig_sat version

end Effects

/-- A call, or a change of storage that leaves the settings, their bits and the pause flag as they
are. -/
inductive ConfigAct
  | call (call : ConfigCall)
  | elsewhere (rest : Store)

structure ConfigTx where
  env : Env
  act : ConfigAct

def execConfig (st : Store) (t : ConfigTx) : Store :=
  match t.act with
  | .call call => invoke call.body t.env st
  | .elsewhere rest =>
    { rest with
      config := st.config
      flags := st.flags
      gates := { rest.gates with pauseFlag := st.gates.pauseFlag } }

/-- A call panics and changes nothing, or it has its effect. -/
theorem execConfig_call (st : Store) (env : Env) (call : ConfigCall) :
    failure call.body env st ≠ none ∧ execConfig st ⟨env,.call call⟩ = st ∨
      failure call.body env st = none ∧ call.Effect env st (execConfig st ⟨env,.call call⟩) := by
  unfold execConfig
  rcases invoke_cases (call.body_sat (w := World.enter env st)) with h | ⟨hok,w,hw,hst,_⟩
  · exact .inl ⟨h.1,h.2.1⟩
  · refine .inr ⟨hok,?_⟩
    dsimp only
    rw [← hst]
    exact hw

section Records

variable {c : Config} {s : ConfigSnapshot}

theorem evict_eq (c : Config) (index : List Nat) :
    ∃ index' snapshot, c.evict index = { c with versionIndex := index', snapshot := snapshot } ∧
      ∀ v s, snapshot v = some s → c.snapshot v = some s := by
  induction index generalizing c with
  | nil => exact ⟨[],c.snapshot,rfl,fun _ _ h => h⟩
  | cons old rest ih =>
    unfold Config.evict
    by_cases hfull : maxConfigHistory < (old :: rest).length
    · rw [if_pos hfull]
      obtain ⟨index',snapshot,heq,hsub⟩ :=
        ih { c with snapshot := Function.update c.snapshot old none }
      refine ⟨index',snapshot,heq,fun v s hv => ?_⟩
      have hkept := hsub v s hv
      by_cases hold : v = old
      · simp [hold] at hkept
      · simpa [hold] using hkept
    · rw [if_neg hfull]
      exact ⟨old :: rest,c.snapshot,rfl,fun _ _ h => h⟩

/-- Storing a snapshot changes the records of snapshots only; what it keeps is old or the new one. -/
theorem storeSnapshot_eq (c : Config) (s : ConfigSnapshot) :
    ∃ index snapshot, c.storeSnapshot s =
        { c with versionCount := some s.version, versionIndex := index, snapshot := snapshot } ∧
      ∀ v x, snapshot v = some x → c.snapshot v = some x ∨ x = s := by
  obtain ⟨index,snapshot,heq,hsub⟩ := evict_eq { c with
    snapshot := Function.update c.snapshot s.version (some s)
    versionCount := some s.version } (c.versionIndex ++ [s.version])
  refine ⟨index,snapshot,heq,fun v x hv => ?_⟩
  rcases stored_of_update (hsub v x hv) with ⟨-,hs⟩ | hold
  · exact .inr hs
  · exact .inl hold

end Records

end PriceOracle.Configuration
