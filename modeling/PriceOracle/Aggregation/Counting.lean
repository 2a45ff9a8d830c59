import PriceOracle.Model.Aggregation
import PriceOracle.Model.Invocation

/-! # What an aggregation round counts

The loop over the sources computes `Store.gather` of the storage it starts in and the mask step
keeps the survivors. Only round records are written on the way. -/

namespace PriceOracle.Model.Store

variable (env : Env) (st : Store)

/-- One iteration of the loop over the sources, as a function of storage. -/
def collect (ctx : RoundContext) (r : Round) (source : Address) : Round :=
  if ctx.guards.anySourceExcluded = true ∧
      (st.isSourceInactive source || st.suspended env source) = true then r
  else if st.compliant env ctx.minInterval ctx.asset source then st.admit env ctx r source
  else r

def gather (ctx : RoundContext) : Round :=
  (st.selectSources (Model.roundSeed env)).foldl (st.collect env ctx) {}

/-- The policy of an asset before its tier; without a quorum setting no round runs at all. -/
def basePolicy (asset : Address) : EffectivePolicy :=
  st.layeredPolicy asset (st.config.minSources.getD 0)

def contextOf (asset : Address) : RoundContext :=
  st.roundContext env asset (st.basePolicy asset)

/-- The submissions of `asset` that its next round counts. -/
def countedRound (asset : Address) : Round := st.gather env (st.contextOf env asset)

/-- Which of `prices` survive the outlier filter and the deviation filter. -/
def survivorMask (asset : Address) (policy : EffectivePolicy) (prices : List Int) : List Bool :=
  survives (Outlier.keepMask (st.outlierConfigOf asset) prices) (policy.deviationMask prices)

/-- Enough of the counted submissions survive for the next round to decide on a price. -/
def quorate (asset : Address) : Bool :=
  let policy := (st.contextOf env asset).policy
  let counted := st.countedRound env asset
  let survivors := counted.masked (st.survivorMask asset policy counted.validPrices)
  policy.minSources ≤ survivors.contributingSources ∧ survivors.validPrices ≠ []

end PriceOracle.Model.Store

namespace PriceOracle.Aggregation

open Lib.Transaction Lib.Mask Model

/-- The two worlds differ in round records at most. -/
abbrev Quiet (w w' : World) : Prop := layout.agreeOff [.rounds] w w'

section Quiet

variable {w w' : World} (h : Quiet w w')

include h

theorem Quiet.env : w'.env = w.env := h .env (by simp)

theorem Quiet.flags : w'.store.flags = w.store.flags := h .flags (by simp)

theorem Quiet.config : w'.store.config = w.store.config := h .config (by simp)

theorem Quiet.bounds : w'.store.bounds = w.store.bounds := h .bounds (by simp)

theorem Quiet.stats : w'.store.stats = w.store.stats := h .stats (by simp)

theorem Quiet.submission : w'.store.submission = w.store.submission :=
  congrArg Prod.fst (h .submissions (by simp))

theorem Quiet.suspended : w'.store.suspended w'.env = w.store.suspended w.env :=
  h .suspension (by simp)

theorem Quiet.sources : w'.store.registry.sources = w.store.registry.sources :=
  congrArg (fun x => x.2.2.1) (h .registry (by simp))

theorem Quiet.guards : w'.store.guards = w.store.guards := by
  unfold Store.guards Store.on
  rw [h.flags,h.bounds]

theorem Quiet.applyBounds (asset : Address) :
    w'.store.applyBounds asset = w.store.applyBounds asset := by
  unfold Store.applyBounds
  rw [h.guards,h.bounds]

theorem Quiet.outlierConfigOf (asset : Address) :
    w'.store.outlierConfigOf asset = w.store.outlierConfigOf asset := by
  unfold Store.outlierConfigOf Store.on
  rw [h.flags,h.config]

end Quiet

theorem collect_quiet {w w' : World} (h : Quiet w w') (ctx : RoundContext) (r : Round)
    (source : Address) :
    w'.store.collect w'.env ctx r source = w.store.collect w.env ctx r source := by
  have hinactive : w'.store.isSourceInactive source = w.store.isSourceInactive source := by
    unfold Store.isSourceInactive Store.on
    rw [h.flags,h.config]
  have hcompliant : w'.store.compliant w'.env ctx.minInterval ctx.asset source =
      w.store.compliant w.env ctx.minInterval ctx.asset source := by
    unfold Store.compliant
    rw [h.stats,h.env]
  have hadmit : w'.store.admit w'.env ctx r source = w.store.admit w.env ctx r source := by
    unfold Store.admit Store.isCorrelationFlagged Store.onProbation Store.anyProbation Store.on
    rw [h.submission,h.stats,h.flags,h.config,h.env]
  unfold Store.collect
  rw [hinactive,h.suspended,hcompliant, hadmit]

theorem gather_quiet {w w' : World} (h : Quiet w w') (ctx : RoundContext) :
    w'.store.gather w'.env ctx = w.store.gather w.env ctx := by
  have hselect (seed : Nat) : w'.store.selectSources seed = w.store.selectSources seed := by
    unfold Store.selectSources Store.getMaxAggregationSources Store.on
    rw [h.flags,h.config,h.sources]
  have hcollect : w'.store.collect w'.env ctx = w.store.collect w.env ctx := by
    funext r source
    exact collect_quiet h ctx r source
  unfold Store.gather
  rw [hselect,hcollect,h.env]

theorem enforceInterval_sat (minInterval : Nat) (asset source : Address) (w : World) :
    Sat (enforceInterval minInterval asset source) w fun b w' =>
      b = w.store.compliant w.env minInterval asset source ∧ Quiet w w' := by
  refine Sat.and ?_ ?_
  · unfold enforceInterval
    simp only [sat_bind,sat_readStore]
    split_ifs <;> simp
  · have hframe : Frame [.rounds] (enforceInterval minInterval asset source) := by
      refine .read fun compliant => .read fun submitted => ?_
      split_ifs
      · exact (modifyRounds_frame _).bind fun _ => preserves_pure _
      · exact (preserves_pure _).bind fun _ => preserves_pure _
    exact hframe w

theorem checkExcluded_sat (guards : PublicationGuards) (source : Address) (w : World) :
    Sat (checkExcluded guards source) w fun b w' =>
      b = (guards.anySourceExcluded &&
        (w.store.isSourceInactive source || w.store.suspended w.env source)) ∧ Quiet w w' := by
  unfold checkExcluded
  split_ifs with hguard
  · rw [hguard]
    exact ((isExcluded_sat source w).and (isExcluded_frame source w)).mono fun b w' hb =>
      ⟨by simpa using hb.1,hb.2⟩
  · rw [sat_pure]
    exact ⟨by simp [hguard],Std.Refl.refl w⟩

/-- An iteration computes `Store.collect` of the storage it starts in. -/
theorem collectSource_sat (ctx : RoundContext) (r : Round) (source : Address) (w : World) :
    Sat (collectSource ctx r source) w fun r' w' =>
      r' = w.store.collect w.env ctx r source ∧ Quiet w w' := by
  unfold collectSource
  rw [sat_bind]
  refine (checkExcluded_sat ctx.guards source w).mono fun excluded v hv => ?_
  obtain ⟨hex,hwv⟩ := hv
  cases excluded with
  | true =>
    rw [if_pos rfl,sat_pure]
    refine ⟨?_,hwv⟩
    rw [Store.collect,if_pos]
    simpa using hex.symm
  | false =>
    rw [if_neg Bool.false_ne_true,sat_bind]
    refine (enforceInterval_sat ctx.minInterval ctx.asset source v).mono fun compliant u hu => ?_
    obtain ⟨hc,hvu⟩ := hu
    have hwu : Quiet w u := IsTrans.trans w v u hwv hvu
    have hpass : ¬(ctx.guards.anySourceExcluded = true ∧
        (u.store.isSourceInactive source || u.store.suspended u.env source) = true) := by
      have hin : u.store.isSourceInactive source = w.store.isSourceInactive source := by
        unfold Store.isSourceInactive Store.on
        rw [hwu.flags,hwu.config]
      rw [hin,hwu.suspended,← Bool.and_eq_true,← hex]
      simp
    have hcu : compliant = u.store.compliant u.env ctx.minInterval ctx.asset source := by
      rw [hc]
      unfold Store.compliant
      rw [hvu.stats,hvu.env]
    rw [← collect_quiet hwu ctx r source,Store.collect,← hcu]
    split_ifs with hb
    · rw [sat_readStore]
      exact ⟨rfl,hwu⟩
    · rw [sat_pure]
      exact ⟨rfl,hwu⟩

theorem collectRound_sat (ctx : RoundContext) (w : World) :
    Sat (collectRound ctx) w fun r w' => r = w.store.gather w.env ctx ∧ Quiet w w' := by
  refine sat_foldlM_eq (R := Quiet) ({} : Round) fun r source t hwt => ?_
  refine (collectSource_sat ctx r source t).mono fun r' u hu => ?_
  exact ⟨hu.1.trans (collect_quiet hwt ctx r source),hu.2⟩

section Gathered

variable (env : Env) (st : Store) (ctx : RoundContext) {entries : List (Address × PriceEntry)}
  {r : Round}

/-- The vectors of a round list the same submissions, in the same order. -/
structure Lists (asset : Address) (r : Round) (entries : List (Address × PriceEntry)) : Prop where
  prices : r.validPrices = entries.map fun x => x.2.price
  volumes : r.validVolumes.length = entries.length
  weights : r.validWeights.length = entries.length
  sources : r.validSources = entries.map Prod.fst
  subLedgers : r.validSubLedgers = entries.map fun x => x.2.lastUpdated
  count : r.contributingSources = entries.length
  stored : ∀ x ∈ entries, st.submission (asset, x.1) = some x.2

variable {st ctx} in
theorem Lists.push (h : Lists st ctx.asset r entries) {source : Address} {entry : PriceEntry}
    (hentry : st.submission (ctx.asset,source) = some entry) (weight : Nat) (probation : Bool) :
    Lists st ctx.asset (r.push source entry weight probation) (entries ++ [(source,entry)]) where
  prices := by simp [Round.push,h.prices]
  volumes := by simp [Round.push,h.volumes]
  weights := by simp [Round.push,h.weights]
  sources := by simp [Round.push,h.sources]
  subLedgers := by simp [Round.push,h.subLedgers]
  count := by simp [Round.push,h.count]
  stored := by
    intro x hx
    rcases List.mem_append.1 hx with hx | hx
    · exact h.stored x hx
    · rw [List.mem_singleton.1 hx]
      exact hentry

theorem collect_lists (h : Lists st ctx.asset r entries) (source : Address) :
    ∃ more, (more.map Prod.fst).Sublist [source] ∧
      Lists st ctx.asset (st.collect env ctx r source) (entries ++ more) := by
  have hskip : ∃ more : List (Address × PriceEntry), (more.map Prod.fst).Sublist [source] ∧
      Lists st ctx.asset r (entries ++ more) :=
    ⟨[],by simp,by simpa using h⟩
  unfold Store.collect
  split_ifs
  · exact hskip
  · unfold Store.admit
    cases hentry : st.submission (ctx.asset,source) with
    | none => exact hskip
    | some entry =>
      dsimp only
      split_ifs
      · exact hskip
      · exact hskip
      · exact ⟨[(source,entry)],by simp,h.push hentry _ _⟩
  · exact hskip

theorem foldl_collect_lists (sources : List Address) (h : Lists st ctx.asset r entries) :
    ∃ more, (more.map Prod.fst).Sublist sources ∧
      Lists st ctx.asset (sources.foldl (st.collect env ctx) r) (entries ++ more) := by
  induction sources generalizing r entries with
  | nil => exact ⟨[],by simp,by simpa using h⟩
  | cons source rest ih =>
    obtain ⟨first,hfirst,hlists⟩ := collect_lists env st ctx h source
    obtain ⟨others,hothers,hrest⟩ := ih hlists
    refine ⟨first ++ others,?_,?_⟩
    · rw [List.map_append]
      exact hfirst.append hothers
    · rw [← List.append_assoc]
      exact hrest

/-- A sample keeps the order of the sources and repeats none. -/
theorem sampleSources_sublist (seed maxAgg total : Nat) (i kept : Nat) (sources : List Address) :
    (sampleSources seed maxAgg total i kept sources).Sublist sources := by
  induction sources generalizing i kept with
  | nil => simp [sampleSources]
  | cons s ss ih =>
    unfold sampleSources
    dsimp only
    split_ifs
    · simp
    · exact (ih _ _).cons_cons s
    · exact (ih _ _).cons s

theorem selectSources_nodup (seed : Nat) : (st.selectSources seed).Nodup := by
  unfold Store.selectSources
  dsimp only
  split_ifs
  · exact (sampleSources_sublist _ _ _ _ _ _).nodup st.registry.sources_nodup
  · exact st.registry.sources_nodup

theorem gather_lists :
    ∃ entries, (entries.map Prod.fst).Nodup ∧
      Lists st ctx.asset (st.gather env ctx) entries := by
  have hnil : Lists st ctx.asset {} [] := ⟨rfl,rfl,rfl,rfl,rfl,rfl,by simp⟩
  obtain ⟨entries,hsub,hlists⟩ :=
    foldl_collect_lists env st ctx (st.selectSources (roundSeed env)) hnil
  exact ⟨entries,hsub.nodup (selectSources_nodup st _),hlists⟩

end Gathered

theorem masked_all (r : Round) : r.masked (r.validPrices.map fun _ => true) = r := by
  unfold Round.masked
  rw [retain_all r.validPrices r.validPrices rfl,if_pos rfl]

/-- The mask step applies the masks of the storage it starts in, whether or not the source takes
the branch that rebuilds the vectors. -/
theorem maskRound_sat (ctx : RoundContext) (r : Round) (w : World)
    (haligned : r.validSources.length = r.validPrices.length) :
    Sat (maskRound ctx r) w fun r' w' =>
      r' = r.masked (w.store.survivorMask ctx.asset ctx.policy r.validPrices) ∧ Quiet w w' := by
  unfold maskRound
  rw [sat_bind]
  refine (filterRound_sat r.validPrices r.validSources ctx.asset w).mono fun mask v hv => ?_
  obtain ⟨rfl,hexclusions,hquiet⟩ := hv
  rw [sat_bind,sat_readStore,hexclusions]
  split_ifs with happly
  · rw [sat_pure]
    exact ⟨rfl,hquiet⟩
  · rw [sat_pure]
    refine ⟨?_,hquiet⟩
    rw [not_or,not_not] at happly
    have hall := keepMask_of_no_exclusions _ r.validPrices r.validSources haligned happly.2
    have hnone : ctx.policy.deviationMask r.validPrices = [] := if_neg happly.1
    rw [Store.survivorMask,hnone,survives,List.isEmpty_nil,if_pos rfl,hall,masked_all]

end PriceOracle.Aggregation
