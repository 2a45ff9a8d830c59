import PriceOracle.Configuration.Calls

/-! # Bounds of the stored settings

The direct setters check their arguments; a rollback restores what was stored before. The initial
values and the elements of a batch are written as they are, so the bounds hold in every run in
which those are in range. -/

namespace PriceOracle.Configuration

open Model Lib.Run

/-- The stored settings are within the bounds of their setters. -/
structure Bounded (c : Config) : Prop where
  minSources : ∀ n, c.minSources = some n → 1 ≤ n ∧ n ≤ maxMinSources
  maxHistory : ∀ n, c.maxHistory = some n → 1 ≤ n ∧ n ≤ maxMaxHistory
  resolution : ∀ n, c.resolution = some n → n ≤ maxResolution
  decimals : ∀ n, c.decimals = some n → n ≤ maxDecimals
  timestampThreshold : ∀ n, c.timestampThreshold = some n → 1 ≤ n ∧ n ≤ maxTimestampThreshold

structure BoundedSnapshot (s : ConfigSnapshot) : Prop where
  minSources : 1 ≤ s.minSourcesRequired ∧ s.minSourcesRequired ≤ maxMinSources
  maxHistory : 1 ≤ s.maxHistoryLength ∧ s.maxHistoryLength ≤ maxMaxHistory
  resolution : s.resolution ≤ maxResolution
  decimals : s.decimals ≤ maxDecimals
  timestampThreshold : 1 ≤ s.timestampThreshold ∧ s.timestampThreshold ≤ maxTimestampThreshold

/-- The bounds hold of the settings and of every snapshot a rollback could restore. -/
structure InBounds (c : Config) : Prop where
  bounded : Bounded c
  snapshots : ∀ v s, c.snapshot v = some s → BoundedSnapshot s

/-- The value is within the bounds of its setting. -/
def ConfigSetting.InRange : ConfigSetting → Prop
  | minSourcesRequired n => 1 ≤ n ∧ n ≤ maxMinSources
  | maxHistoryLength n => 1 ≤ n ∧ n ≤ maxMaxHistory
  | resolution n => n ≤ maxResolution
  | decimals n => n ≤ maxDecimals
  | timestampThreshold n => 1 ≤ n ∧ n ≤ maxTimestampThreshold
  | _ => True

section Settings

variable {c : Config} {env : Env} {st : Store} {setting : ConfigSetting}

theorem inRange_of_valid {count : Nat} (h : setting.Valid count) : setting.InRange := by
  cases setting
  case minSourcesRequired n => exact ⟨Nat.pos_of_ne_zero h.1.1,h.1.2⟩
  case maxHistoryLength n => exact ⟨Nat.pos_of_ne_zero h.1,h.2⟩
  case timestampThreshold n => exact ⟨Nat.pos_of_ne_zero h.1,h.2⟩
  case resolution n => exact h
  case decimals n => exact h
  all_goals trivial

/-- The getters of a bounded configuration return bounded values, so its snapshot is bounded. -/
theorem boundedSnapshot_of_bounded (h : Bounded st.config)
    (hm : st.config.minSources.isSome = true) : BoundedSnapshot (snapshotOf env st) := by
  obtain ⟨m,hm⟩ := Option.isSome_iff_exists.1 hm
  constructor
  · simpa [snapshotOf,Store.capture,hm] using h.minSources m hm
  · change 1 ≤ st.getMaxHistoryLength ∧ st.getMaxHistoryLength ≤ maxMaxHistory
    unfold Store.getMaxHistoryLength
    cases hv : st.config.maxHistory with
    | none => simp [maxMaxHistory]
    | some n => exact h.maxHistory n hv
  · change st.getResolution ≤ maxResolution
    unfold Store.getResolution
    cases hv : st.config.resolution with
    | none => simp
    | some n => exact h.resolution n hv
  · change st.getDecimals ≤ maxDecimals
    unfold Store.getDecimals
    cases hv : st.config.decimals with
    | none => simp [maxDecimals]
    | some n => exact h.decimals n hv
  · change 1 ≤ st.getTimestampThreshold ∧ st.getTimestampThreshold ≤ maxTimestampThreshold
    unfold Store.getTimestampThreshold
    split_ifs
    · cases hv : st.config.timestampThreshold with
      | none => simp [maxTimestampThreshold]
      | some n => exact h.timestampThreshold n hv
    · simp [maxTimestampThreshold]

theorem InBounds.recorded (h : InBounds st.config) (hm : st.config.minSources.isSome = true) :
    InBounds (recordedConfig env st) := by
  unfold recordedConfig
  obtain ⟨index,snapshot,heq,hsub⟩ := storeSnapshot_eq st.config (snapshotOf env st)
  rw [heq]
  refine ⟨⟨h.bounded.minSources,h.bounded.maxHistory,h.bounded.resolution,h.bounded.decimals,
    h.bounded.timestampThreshold⟩,fun v s hv => ?_⟩
  rcases hsub v s hv with hold | rfl
  · exact h.snapshots v s hold
  · exact boundedSnapshot_of_bounded h.bounded hm

theorem InBounds.write (h : InBounds c) (hr : setting.InRange) : InBounds (setting.write c) := by
  obtain ⟨⟨h1,h2,h3,h4,h5⟩,hsnap⟩ := h
  cases setting
  case minSourcesRequired n =>
    exact ⟨⟨fun m hm => Option.some.inj hm ▸ hr,h2,h3,h4,h5⟩,hsnap⟩
  case maxHistoryLength n =>
    exact ⟨⟨h1,fun m hm => Option.some.inj hm ▸ hr,h3,h4,h5⟩,hsnap⟩
  case resolution n =>
    exact ⟨⟨h1,h2,fun m hm => Option.some.inj hm ▸ hr,h4,h5⟩,hsnap⟩
  case decimals n =>
    exact ⟨⟨h1,h2,h3,fun m hm => Option.some.inj hm ▸ hr,h5⟩,hsnap⟩
  case timestampThreshold n =>
    exact ⟨⟨h1,h2,h3,h4,fun m hm => Option.some.inj hm ▸ hr⟩,hsnap⟩
  all_goals exact ⟨⟨h1,h2,h3,h4,h5⟩,hsnap⟩

theorem InBounds.applySnapshot {s : ConfigSnapshot} (h : InBounds c) (hs : BoundedSnapshot s) :
    InBounds (c.applySnapshot s) :=
  ⟨⟨fun _ hn => Option.some.inj hn ▸ hs.minSources,fun _ hn => Option.some.inj hn ▸ hs.maxHistory,
    fun _ hn => Option.some.inj hn ▸ hs.resolution,fun _ hn => Option.some.inj hn ▸ hs.decimals,
    fun _ hn => Option.some.inj hn ▸ hs.timestampThreshold⟩,h.snapshots⟩

theorem minSources_recorded : (recordedConfig env st).minSources = st.config.minSources := by
  unfold recordedConfig
  obtain ⟨index,snapshot,heq,_⟩ := storeSnapshot_eq st.config (snapshotOf env st)
  rw [heq]

theorem minSources_configured (hm : st.config.minSources.isSome = true) :
    (configured env st setting).config.minSources.isSome = true := by
  have hrec : (recordedConfig env st).minSources.isSome = true := by rw [minSources_recorded,hm]
  cases setting
  case minSourcesRequired n => rfl
  all_goals exact hrec

end Settings

/-- What the element decodes to is within the bounds of its setting. -/
def ElementInRange (op : BatchOperation) : Prop :=
  ∀ setting ∈ elementSetting op, setting.InRange

section Steps

variable {env : Env} {st : Store}

theorem InBounds.applyElements {operations : List BatchOperation} (h : InBounds st.config)
    (hm : WritesSetting operations → st.config.minSources.isSome = true)
    (hops : ∀ op ∈ operations, ElementInRange op) :
    InBounds (operations.foldl (applyElement env) st).config := by
  induction operations generalizing st with
  | nil => exact h
  | cons op operations ih =>
    rw [List.foldl_cons]
    have hrest : ∀ x ∈ operations, ElementInRange x := fun x hx => hops x (by simp [hx])
    unfold applyElement
    cases hset : elementSetting op with
    | none => exact ih h (fun ⟨x,hx,hw⟩ => hm ⟨x,by simp [hx],hw⟩) hrest
    | some setting =>
      have hsome : st.config.minSources.isSome = true := hm ⟨op,by simp,by rw [hset]; rfl⟩
      have hstep : InBounds (configured env st setting).config :=
        (h.recorded hsome).write (hops op (by simp) setting hset)
      exact ih hstep (fun _ => minSources_configured hsome) hrest

/-- The values the step writes unchecked are in range: the arguments of `initialize`, where zero
stands for the default, and the elements of a batch. -/
def WritesInRange (s : Store) (t : ConfigTx) : Prop :=
  match t.act with
  | .call (.initializeContract _ minSourcesRequired maxHistoryLength _ _) =>
    minSourcesRequired ≤ maxMinSources ∧ maxHistoryLength ≤ maxMaxHistory
  | .call (.executeBatch id) =>
    failure (executeBatch id) t.env s = none →
      ∀ batch, s.timelock.pendingBatch id = some batch → ∀ op ∈ batch.operations, ElementInRange op
  | _ => True

theorem initialized_inBounds {c : Config} {admin : Address} {min hist dec : Nat} {desc : String}
    (h : InBounds c) (hmin : min ≤ maxMinSources) (hhist : hist ≤ maxMaxHistory)
    (hdec : dec ≤ maxDecimals) : InBounds (c.initialized admin min hist dec desc) := by
  refine ⟨⟨fun n hn => ?_,fun n hn => ?_,fun n hn => ?_,fun n hn => ?_,
    h.bounded.timestampThreshold⟩,h.snapshots⟩
  · rw [← Option.some.inj hn]
    split_ifs with hpos
    · exact ⟨hpos,hmin⟩
    · simp [maxMinSources]
  · rw [← Option.some.inj hn]
    split_ifs with hpos
    · exact ⟨hpos,hhist⟩
    · simp [maxMaxHistory]
  · rw [← Option.some.inj hn]
    exact Nat.zero_le _
  · rw [← Option.some.inj hn]
    exact hdec

theorem execConfig_inBounds {t : ConfigTx} (h : InBounds st.config) (hrange : WritesInRange st t) :
    InBounds (execConfig st t).config := by
  obtain ⟨env,act⟩ := t
  cases act with
  | elsewhere rest => exact h
  | call call =>
    rcases execConfig_call st env call with ⟨_,hsame⟩ | ⟨hok,heff⟩
    · rw [hsame]
      exact h
    · cases call with
      | initializeContract admin min hist dec desc =>
        obtain ⟨_,hdec,hsame⟩ := heff
        rw [hsame.config]
        exact initialized_inBounds h hrange.1 hrange.2 hdec
      | set setting =>
        obtain ⟨hvalid,hm,hsame⟩ := heff
        rw [hsame.config]
        exact (h.recorded hm).write (inRange_of_valid hvalid)
      | pause =>
        rw [heff.2.config]
        exact h.recorded heff.1
      | unpause =>
        rw [heff.2.config]
        exact h.recorded heff.1
      | proposeBatch operations =>
        rw [heff.config]
        exact h
      | executeBatch id =>
        obtain ⟨batch,hb,hm,hsame⟩ := heff
        rw [hsame.config]
        exact h.applyElements hm (hrange hok batch hb)
      | cancelBatch id =>
        rw [heff.config]
        exact h
      | rollbackConfig version =>
        obtain ⟨snapshot,hs,hm,hsame⟩ := heff
        rw [hsame.config]
        exact (h.recorded hm).applySnapshot (h.snapshots version snapshot hs)

end Steps

theorem inBounds_empty : InBounds {} :=
  ⟨⟨fun _ h => (by cases h),fun _ h => (by cases h),fun _ h => (by cases h),
    fun _ h => (by cases h),fun _ h => (by cases h)⟩,fun _ _ h => by cases h⟩

/-- In every run from an empty configuration whose unchecked writes are in range, the settings stay
within the bounds of their setters, in every state the run reaches. -/
theorem config_stays_bounded (st : Store) (ts : List ConfigTx) (hempty : st.config = {})
    (hrange : ∀ x ∈ steps execConfig st ts, WritesInRange x.1 x.2) :
    (∀ x ∈ steps execConfig st ts, Bounded x.1.config ∧ Bounded (execConfig x.1 x.2).config) ∧
      Bounded (run execConfig st ts).config := by
  have hstep (s : Store) (t : ConfigTx) (hs : InBounds s.config) (ht : WritesInRange s t) :
      (Bounded s.config ∧ Bounded (execConfig s t).config) ∧ InBounds (execConfig s t).config :=
    ⟨⟨hs.bounded,(execConfig_inBounds hs ht).bounded⟩,execConfig_inBounds hs ht⟩
  have hstart : InBounds st.config := hempty ▸ inBounds_empty
  obtain ⟨hall,hend⟩ := steps_satisfy hstep hstart hrange
  exact ⟨hall,hend.bounded⟩

/-- Three sources are required, then two by a batch; a rollback restores the three. -/
def boundedRun : List ConfigTx :=
  [⟨.concrete 100 5 [9], .call (.initializeContract 9 3 50 7 "oracle")⟩,
    ⟨.concrete 101 5 [9], .call (.set (.resolution 5))⟩,
    ⟨.concrete 102 5 [9], .call (.proposeBatch [⟨2, [0, 0, 0, 2]⟩])⟩,
    ⟨.concrete 112 5 [9], .call (.executeBatch 1)⟩,
    ⟨.concrete 113 5 [9], .call (.rollbackConfig 1)⟩]

theorem boundedRun_batch :
    (run execConfig {} (boundedRun.take 3)).timelock.pendingBatch 1 =
      some ⟨1,9,102,[⟨2,[0,0,0,2]⟩]⟩ := by
  decide

theorem boundedRun_stays_bounded :
    (∀ x ∈ steps execConfig {} boundedRun,
        Bounded x.1.config ∧ Bounded (execConfig x.1 x.2).config) ∧
      Bounded (run execConfig {} boundedRun).config := by
  refine config_stays_bounded {} boundedRun rfl ?_
  simp only [boundedRun,steps_cons,steps_nil,List.forall_mem_cons]
  refine ⟨by simp [WritesInRange,maxMinSources,maxMaxHistory],trivial,trivial,?_,trivial,by simp⟩
  intro _ batch hbatch op hop
  have hproposed := boundedRun_batch.symm.trans hbatch
  rw [Option.some.injEq] at hproposed
  subst hproposed
  rw [List.mem_singleton.1 hop]
  intro setting hsetting
  obtain rfl : .minSourcesRequired (ofBeBytes [0,0,0,2]) = setting := Option.some.inj hsetting
  exact ⟨by decide,by decide⟩

/-- A batch may require zero sources, which the setter refuses. -/
def unboundedRun : List ConfigTx :=
  [⟨.concrete 100 5 [9], .call (.initializeContract 9 3 50 7 "oracle")⟩,
    ⟨.concrete 102 5 [9], .call (.proposeBatch [⟨2, [0, 0, 0, 0]⟩])⟩,
    ⟨.concrete 112 5 [9], .call (.executeBatch 1)⟩]

theorem batch_requires_no_sources : ¬Bounded (run execConfig {} unboundedRun).config := by
  intro h
  have hzero : (run execConfig {} unboundedRun).config.minSources = some 0 := by decide
  exact absurd (h.minSources 0 hzero).1 (by decide)

end PriceOracle.Configuration
