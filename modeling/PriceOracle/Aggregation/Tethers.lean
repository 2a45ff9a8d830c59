import PriceOracle.Aggregation.Writers
import PriceOracle.Lib.Run
import PriceOracle.Model.OptionalSettings
import PriceOracle.Pricing.Statistics
import Mathlib.Algebra.Order.Group.Abs

/-! # How far a round can move the aggregate

The data-quality pipeline compares every input with the last aggregate and with the drift anchor.
What a round makes of its inputs lies between two of them, so the distance of an aggregate is
bounded as that of an input is, until the soft bounds of the asset pull it elsewhere. -/

namespace PriceOracle.Aggregation

open Lib.Transaction Lib.Run Lib.MachineInt Lib.Mask Model Pricing

/-- The price is no further than `bps` basis points from the reference, in exact arithmetic. -/
def Near (bps : Nat) (reference price : Int) : Prop := |price - reference| * 10000 ≤ bps * reference

deriving instance Decidable for Near

section Distances

variable {bps : Nat} {reference price lo hi : Int}

theorem near_iff : Near bps reference price ↔
    (price - reference) * 10000 ≤ bps * reference ∧
      (reference - price) * 10000 ≤ bps * reference := by
  unfold Near
  rcases abs_cases (price - reference) with ⟨habs,_⟩ | ⟨habs,_⟩ <;> rw [habs] <;> omega

theorem Near.between (hlo : Near bps reference lo) (hhi : Near bps reference hi)
    (hlow : lo ≤ price) (hhigh : price ≤ hi) : Near bps reference price := by
  rw [near_iff] at hlo hhi ⊢
  omega

theorem near_of_not_exceeds (hprice : IsPrice price) (href : 0 < reference) (hbps : 0 < bps)
    (hfits : reference * bps < i128Max) (h : exceedsBps price reference bps = false) :
    Near bps reference price := by
  obtain ⟨hpos,hlow,hhigh⟩ := hprice
  have hreference : reference ≤ reference * bps := by
    exact le_mul_of_one_le_right href.le (by omega)
  have hmax : i128Max = 2 ^ 127 - 1 := rfl
  have hdiff : wrapSub price reference = price - reference := wrap_of_isI128 (by
    unfold IsI128 i128Min
    omega)
  have habs : saturate ((price - reference).natAbs : Int) = |price - reference| := by
    rw [Int.natCast_natAbs]
    apply saturate_of_isI128
    unfold IsI128 i128Min
    rcases abs_cases (price - reference) with ⟨habs,_⟩ | ⟨habs,_⟩ <;> rw [habs] <;> omega
  have hlimit : satMul reference bps = reference * bps := saturate_of_isI128 (by
    unfold IsI128 i128Min
    omega)
  unfold exceedsBps at h
  rw [hdiff,habs,hlimit,decide_eq_false_iff_not] at h
  unfold satMul saturate at h
  unfold Near
  rw [mul_comm (bps : Int)]
  omega

end Distances

section Screening

variable {env : Env} {st : Store} {ctx : RoundContext} {asset : Address}

/-- Every price that the round has counted is stored and has passed the screen. -/
def CountsScreened (env : Env) (st : Store) (ctx : RoundContext) (r : Round) : Prop :=
  ∀ p ∈ r.validPrices, ∃ source, ∃ entry ∈ st.submission (ctx.asset, source),
    ctx.screens env entry = true ∧ entry.price = p

theorem CountsScreened.collect {r : Round} (h : CountsScreened env st ctx r) (source : Address) :
    CountsScreened env st ctx (st.collect env ctx r source) := by
  unfold Store.collect
  split_ifs
  · exact h
  · unfold Store.admit
    cases hstored : st.submission (ctx.asset,source) with
    | none => exact h
    | some entry =>
      dsimp only
      split_ifs with hdropped
      · exact h
      · exact h
      · intro p hp
        rw [Round.push,List.mem_append,List.mem_singleton] at hp
        rcases hp with hold | rfl
        · exact h p hold
        · rw [not_or,Bool.not_eq_false] at hdropped
          exact ⟨source,entry,hstored,hdropped.2,rfl⟩
  · exact h

theorem CountsScreened.foldl {r : Round} (h : CountsScreened env st ctx r)
    (sources : List Address) :
    CountsScreened env st ctx (sources.foldl (st.collect env ctx) r) := by
  induction sources generalizing r with
  | nil => exact h
  | cons source rest ih => exact ih (h.collect source)

theorem survivors_screened (env : Env) (st : Store) (asset : Address) :
    CountsScreened env st (st.contextOf env asset) (st.survivors env asset) := by
  have hcounted : CountsScreened env st (st.contextOf env asset) (st.countedRound env asset) :=
    CountsScreened.foldl (fun _ hp => by cases hp) _
  unfold Store.survivors Round.masked
  dsimp only
  split_ifs
  · exact hcounted
  · exact fun p hp => hcounted p ((retain_sublist _ _).subset hp)

/-- The counted submissions are of different sources, each of which is registered. -/
theorem countedRound_lists (env : Env) (st : Store) (asset : Address) :
    ∃ entries, entries.length ≤ st.registry.sources.length ∧
      Lists st asset (st.countedRound env asset) entries := by
  have hempty : Lists st (st.contextOf env asset).asset {} [] :=
    ⟨rfl,rfl,rfl,rfl,rfl,rfl,by simp⟩
  obtain ⟨entries,hsub,hlists⟩ := foldl_collect_lists env st (st.contextOf env asset)
    (st.selectSources (roundSeed env)) hempty
  have hselected : (st.selectSources (roundSeed env)).length ≤ st.registry.sources.length := by
    unfold Store.selectSources
    dsimp only
    split_ifs
    · exact (sampleSources_sublist _ _ _ _ _ _).length_le
    · exact le_rfl
  have hlength := hsub.length_le
  rw [List.length_map] at hlength
  exact ⟨entries,hlength.trans hselected,hlists⟩

theorem survivors_length_le (env : Env) (st : Store) (asset : Address) :
    (st.survivors env asset).validPrices.length ≤ st.registry.sources.length := by
  obtain ⟨entries,hlength,hlists⟩ := countedRound_lists env st asset
  have hcounted : (st.countedRound env asset).validPrices.length ≤
      st.registry.sources.length := by
    rw [hlists.prices,List.length_map]
    exact hlength
  unfold Store.survivors Round.masked
  dsimp only
  split_ifs
  · exact hcounted
  · exact (retain_sublist _ _).length_le.trans hcounted

theorem survivors_aligned (env : Env) (st : Store) (asset : Address) :
    (st.survivors env asset).validVolumes.length =
      (st.survivors env asset).validPrices.length := by
  obtain ⟨entries,-,hlists⟩ := countedRound_lists env st asset
  have hcounted : (st.countedRound env asset).validVolumes.length =
      (st.countedRound env asset).validPrices.length := by
    rw [hlists.prices,hlists.volumes,List.length_map]
  unfold Store.survivors Round.masked
  dsimp only
  split_ifs
  · exact hcounted
  · exact length_retain_congr hcounted

end Screening

section Pricing

variable {env : Env} {st : Store} {asset : Address} {a b : Int}

/-- The numbers of the asset's next round fit: its sources a vector, its submissions the type of a
price, and the turnover that a volume-weighted round divides by its volume. -/
structure Sound (env : Env) (st : Store) (asset : Address) : Prop where
  count : st.registry.sources.length < 2 ^ 32
  prices : ∀ source, ∀ entry ∈ st.submission (asset, source), IsPrice entry.price
  turnover : st.readBftFaultTolerance = 0 → (st.basePolicy asset).method = 3 →
    turnover (st.survivors env asset).validPrices (st.survivors env asset).validVolumes ≤ i128Max

theorem Sound.list (h : Sound env st asset) (hquorate : st.quorate env asset = true) :
    PriceList (st.survivors env asset).validPrices where
  nonempty := (of_decide_eq_true hquorate).2
  count := (survivors_length_le env st asset).trans_lt h.count
  prices p hp := by
    obtain ⟨source,entry,hentry,-,rfl⟩ := survivors_screened env st asset p hp
    exact h.prices source entry hentry

theorem Sound.rawPrice_between (h : Sound env st asset) (hquorate : st.quorate env asset = true)
    (hb : ∀ p ∈ (st.survivors env asset).validPrices, a ≤ p ∧ p ≤ b) :
    a ≤ st.rawPrice env asset ∧ st.rawPrice env asset ≤ b := by
  have hlist := h.list hquorate
  unfold Store.rawPrice
  dsimp only
  split_ifs with hweighted
  · exact weightedAggregate_between hlist hb _
  · unfold Store.aggregatedPrice
    split_ifs with htolerance
    · exact aggregateBftPrices_between hlist hb _ _
    · rw [not_lt,Nat.le_zero] at htolerance
      by_cases hmethod : (st.basePolicy asset).method = 3
      · have hvolumes : (st.survivors env asset).validVolumes ≠ [] := by
          rw [← List.length_pos_iff,survivors_aligned]
          exact hlist.length_pos
        rw [hmethod]
        exact computeVwap_between hlist hb hvolumes (h.turnover htolerance hmethod)
      · unfold priceByMethod
        split
        · exact computeMean_between hlist hb
        · exact computeTrimmedMean_between hlist hb 10
        · contradiction
        · exact computeMedian_between hlist hb

end Pricing

/-- The test against the reference is exact, and the soft bounds leave room near it. -/
structure Comparable (st : Store) (asset : Address) (bps : Nat) (reference : Int) : Prop where
  fits : reference * bps < i128Max
  room : st.guards.anyBoundsConfigured = true → ∀ t ∈ st.bounds.tier asset,
    ∃ p, t.softMin ≤ p ∧ p ≤ t.softMax ∧ Near bps reference p

/-- The bounds that the pipeline documents, for an aggregate with the storage it is written in. -/
structure Tethered (x : AggregateWrite) : Prop where
  step : ∀ cfg ∈ x.before.dqConfigOf x.asset, 0 < cfg.maxStepBps →
    0 < x.before.lastPrice x.asset →
    Comparable x.before x.asset cfg.maxStepBps (x.before.lastPrice x.asset) →
    Near cfg.maxStepBps (x.before.lastPrice x.asset) x.value.price
  drift : ∀ cfg ∈ x.before.dqConfigOf x.asset, 0 < cfg.maxDriftBps →
    0 < x.before.lastPrice x.asset → ∀ a ∈ x.before.rounds.dqAnchor x.asset, 0 < a.price →
    Comparable x.before x.asset cfg.maxDriftBps a.price → Near cfg.maxDriftBps a.price x.value.price

section Bounding

variable {env : Env} {st : Store} {asset : Address} {bps : Nat} {reference raw price : Int}

/-- Clamping to a band that meets the neighbourhood of the reference stays in it. -/
theorem Comparable.near (h : Comparable st asset bps reference) (hraw : Near bps reference raw)
    (hprice : st.applyBounds asset raw = some price) : Near bps reference price := by
  unfold Store.applyBounds at hprice
  split_ifs at hprice with hguard
  · cases htier : st.bounds.tier asset with
    | none =>
      rw [htier] at hprice
      rwa [← Option.some_inj.1 hprice]
    | some t =>
      obtain ⟨p,hlow,hhigh,hp⟩ := h.room hguard t htier
      rw [htier] at hprice
      change t.toBoundsTierArg.evaluate raw = some price at hprice
      unfold BoundsTierArg.evaluate at hprice
      split_ifs at hprice with hrejected hbelow habove
      · rw [← Option.some_inj.1 hprice]
        exact hraw.between hp hbelow.le hlow
      · rw [← Option.some_inj.1 hprice]
        exact hp.between hraw hhigh habove.le
      · rwa [← Option.some_inj.1 hprice]
  · rwa [← Option.some_inj.1 hprice]

/-- If the screen holds every input near the reference, the aggregate is near it. -/
theorem Concluded.near {d : Decision} (hd : Concluded env st asset d) (hsound : Sound env st asset)
    (hscreen : ∀ entry, (st.contextOf env asset).screens env entry = true →
      exceedsBps entry.price reference bps = false)
    (href : 0 < reference) (hbps : 0 < bps) (hcomparable : Comparable st asset bps reference) :
    Near bps reference d.price := by
  have hlist := hsound.list hd.quorate
  have hinputs : ∀ p ∈ (st.survivors env asset).validPrices, Near bps reference p := by
    intro p hp
    obtain ⟨source,entry,hentry,hscreened,rfl⟩ := survivors_screened env st asset p hp
    exact near_of_not_exceeds (hsound.prices source entry hentry) href hbps hcomparable.fits
      (hscreen entry hscreened)
  have hbounds : ∀ p ∈ (st.survivors env asset).validPrices,
      (st.survivors env asset).validPrices.min hlist.nonempty ≤ p ∧
        p ≤ (st.survivors env asset).validPrices.max hlist.nonempty :=
    fun p hp => ⟨List.min_le_of_mem hp,List.le_max_of_mem hp⟩
  obtain ⟨hlow,hhigh⟩ := hsound.rawPrice_between hd.quorate hbounds
  have hraw : Near bps reference (st.rawPrice env asset) :=
    (hinputs _ (List.min_mem hlist.nonempty)).between (hinputs _ (List.max_mem hlist.nonempty))
      hlow hhigh
  exact hcomparable.near hraw hd.price

/-- A counted input has passed both distance tests of the pipeline. -/
theorem screens_distance {cfg : DqConfig} (hcfg : st.dqConfigOf asset = some cfg)
    {entry : PriceEntry} (h : (st.contextOf env asset).screens env entry = true) :
    (0 < cfg.maxStepBps → 0 < st.lastPrice asset →
      exceedsBps entry.price (st.lastPrice asset) cfg.maxStepBps = false) ∧
    (0 < cfg.maxDriftBps → 0 < st.lastPrice asset →
      ∀ anchor ∈ st.liveAnchor env asset cfg, 0 < anchor →
        exceedsBps entry.price anchor cfg.maxDriftBps = false) := by
  have hround : (st.contextOf env asset).dqRound = some ⟨cfg,st.lastPrice asset,
      if st.tracksDrift asset cfg then (st.liveAnchor env asset cfg).getD (st.lastPrice asset)
      else 0⟩ := by
    change st.dqRound env asset = _
    rw [Store.dqRound,hcfg]
    rfl
  unfold RoundContext.screens at h
  rw [hround,Option.all_some] at h
  simp only [DqRound.screen,decide_eq_true_eq,Bool.not_eq_true',decide_eq_false_iff_not,
    not_or,not_and] at h
  obtain ⟨-,-,-,-,-,hstep,hdrift⟩ := h
  refine ⟨fun hbps hlast => ?_,fun hbps hlast anchor hanchor hpos => ?_⟩
  · exact Bool.eq_false_iff.2 (hstep hbps hlast)
  · have htracks : st.tracksDrift asset cfg = true := decide_eq_true ⟨hbps,hlast⟩
    rw [if_pos htracks,Option.mem_def.1 hanchor] at hdrift
    exact Bool.eq_false_iff.2 (hdrift hbps hpos)

theorem Concluded.tethered {x : AggregateWrite} {d : Decision}
    (hd : Concluded env x.before x.asset d) (hprice : x.value.price = d.price)
    (hsound : Sound env x.before x.asset)
    (haccepted : ∀ cfg ∈ x.before.dqConfigOf x.asset, ¬cfg.Invalid) : Tethered x where
  step cfg hcfg hbps hlast hcomparable := by
    rw [hprice]
    exact hd.near hsound (fun entry hentry => (screens_distance hcfg hentry).1 hbps hlast) hlast
      hbps hcomparable
  drift cfg hcfg hbps hlast a ha hpos hcomparable := by
    have hwindow : 0 < cfg.driftWindowSecs := by
      have hvalid := haccepted cfg hcfg
      unfold DqConfig.Invalid at hvalid
      omega
    have hlive := hd.anchored cfg hcfg (decide_eq_true ⟨hbps,hlast⟩) hwindow
    have hanchor : a.price ∈ x.before.liveAnchor env x.asset cfg := by
      unfold Store.liveAnchor at hlive ⊢
      rw [Option.mem_def.1 ha,Option.filter_some] at hlive ⊢
      split_ifs at hlive ⊢
      · rfl
      · cases hlive
    rw [hprice]
    exact hd.near hsound (fun entry hentry =>
      (screens_distance hcfg hentry).2 hbps hlast a.price hanchor hpos) hpos hbps hcomparable

end Bounding

/-- The calls of a run: whatever can write an aggregate, and the administrator's changes of the
pipeline. -/
inductive PipelineCall
  | price (call : PriceCall)
  | setDqConfig (asset : Address) (cfg : DqConfig)
  | clearDqConfig (asset : Address)

def PipelineCall.body : PipelineCall → Contract Unit
  | price call => call.body
  | setDqConfig asset cfg => Model.setDqConfig asset cfg
  | clearDqConfig asset => Model.clearDqConfig asset

structure PipelineTx where
  env : Env
  call : PipelineCall

def execPipeline (st : Store) (t : PipelineTx) : Store := invoke t.call.body t.env st

/-- Every stored configuration is one that `set_config` accepts. -/
def ConfigsAccepted (st : Store) : Prop :=
  ∀ asset, ∀ cfg ∈ st.config.dqConfig asset, ¬cfg.Invalid

section Runs

variable {w t : World} (asset : Address) (st : Store)

theorem configsAccepted_congr {st st' : Store} (h : st'.config = st.config)
    (hst : ConfigsAccepted st) : ConfigsAccepted st' := by
  unfold ConfigsAccepted
  rwa [h]

def priced : List Region := [.aggregates, .history, .corrections] ++ unpublished

theorem respectsPrices_priced : RespectsPrices (layout.agreeOff priced) where
  env _ _ h := h .env (by decide)
  ignored _ _ h r hr := h r fun hmem => hr (List.mem_append_right _ hmem)
  commit asset decimals recompute d w _ :=
    ((commitRound_frame asset w.env.sequence decimals recompute d).mono (by decide)) w
  trigger asset := (triggerAggregation_frame asset).mono (by decide)
  correct asset newPrice reason := (correctPrice_frame asset newPrice reason).mono (by decide)
  snapshot asset price timestamp numSources w :=
    ((writePriceSnapshot_frame asset price timestamp numSources _).mono (by decide)) w
  placeholder asset := (initializeAggregate_frame asset).mono (by decide)

theorem removeDqAnchor_config (t : World) :
    Sat (removeDqAnchor asset) t fun _ u => u.store.config = t.store.config :=
  (modifyRounds_frame _ t).mono fun _ _ h => h .config (by decide)

theorem setDqConfig_accepted (cfg : DqConfig) (hw : ConfigsAccepted w.store) :
    Sat (Model.setDqConfig asset cfg) w fun _ u => ConfigsAccepted u.store := by
  have hrefl : layout.agreeOff [.auths,.flags,.suspension] w w := Std.Refl.refl w
  refine (getAdmin_frame.from hrefl).andThen fun admin t ht => ?_
  have hauth : Frame [.auths,.flags,.suspension] (requireAuth admin) :=
    (requireAuth_frame admin).mono (by decide)
  refine (hauth.from ht).andThen fun _ t ht => ?_
  refine ((checkRegisteredAsset_frame asset).from ht).andThen fun _ t ht => ?_
  rw [sat_bind,sat_ensure]
  intro hvalid
  have hset : Sat (setOptional (.dqConfig asset cfg)) t fun _ u =>
      u.store.config.dqConfig = Function.update w.store.config.dqConfig asset (some cfg) := by
    have hmark : Frame [.auths,.flags,.suspension] (mark (OptionalKey.dqConfig asset cfg).flag) :=
      (mark_frame _).mono (by decide)
    refine (hmark.from ht).andThen fun _ u hu => ?_
    have hconfig : u.store.config = w.store.config := hu .config (by decide)
    rw [sat_update,← hconfig]
    rfl
  refine hset.andThen fun _ u hu => ?_
  refine (removeDqAnchor_config asset u).mono fun _ v hv => ?_
  intro a c hc
  rw [hv,hu] at hc
  by_cases ha : a = asset
  · rw [ha,Function.update_self] at hc
    rwa [← Option.some_inj.1 hc]
  · rw [Function.update_of_ne ha] at hc
    exact hw a c hc

theorem clearDqConfig_accepted (hw : ConfigsAccepted w.store) :
    Sat (Model.clearDqConfig asset) w fun _ u => ConfigsAccepted u.store := by
  have hrefl : layout.agreeOff [.auths] w w := Std.Refl.refl w
  refine (getAdmin_frame.from hrefl).andThen fun admin t ht => ?_
  refine ((requireAuth_frame admin).from ht).andThen fun _ t ht => ?_
  have hconfig : t.store.config = w.store.config := ht .config (by decide)
  refine (removeDqAnchor_config asset _).mono fun _ v hv => ?_
  intro a c hc
  rw [hv] at hc
  change Function.update t.store.config.dqConfig asset none a = some c at hc
  by_cases ha : a = asset
  · rw [ha,Function.update_self] at hc
    cases hc
  · rw [Function.update_of_ne ha,hconfig] at hc
    exact hw a c hc

theorem execPipeline_accepted (t : PipelineTx) (hst : ConfigsAccepted st) :
    ConfigsAccepted (execPipeline st t) := by
  obtain ⟨env,call⟩ := t
  refine invoke_of_sat (P := ConfigsAccepted) hst ?_
  cases call with
  | price call =>
    exact (PriceCall.body_preserves respectsPrices_priced call (World.enter env st)).mono
      fun _ _ h => configsAccepted_congr (h .config (by decide)) hst
  | setDqConfig asset cfg => exact setDqConfig_accepted asset cfg hst
  | clearDqConfig asset => exact clearDqConfig_accepted asset hst

/-- Every aggregate that a round of the transaction publishes is bounded, if its numbers fit. -/
def RoundsTethered (st : Store) (t : PipelineTx) : Prop :=
  ∀ call, t.call = .price (.aggregate call) →
    ∀ x ∈ (effects call.body t.env st).aggregates, Sound t.env x.before x.asset → Tethered x

theorem roundsTethered_of_accepted (t : PipelineTx) (hst : ConfigsAccepted st) :
    RoundsTethered st t := by
  rintro call - x hx hsound
  obtain ⟨hconfig,d,hd,hprice⟩ := call.aggregates_concluded t.env st x hx
  refine hd.tethered hprice hsound fun cfg hcfg => ?_
  apply configsAccepted_congr hconfig hst x.asset cfg
  unfold Store.dqConfigOf at hcfg
  split_ifs at hcfg
  · exact hcfg
  · cases hcfg

/-- In every run from a storage whose configurations are accepted, rounds publish within the bounds
of the pipeline. -/
theorem rounds_stay_tethered (st : Store) (ts : List PipelineTx) (hst : ConfigsAccepted st) :
    ∀ x ∈ steps execPipeline st ts, RoundsTethered x.1 x.2 :=
  (steps_satisfy (I := ConfigsAccepted) (C := fun _ _ => True)
    (fun st t hst _ => ⟨roundsTethered_of_accepted st t hst,execPipeline_accepted st t hst⟩)
    hst fun _ _ => trivial).1

/-- Asset `10` stands at `100`, ten percent a round and twenty percent an hour are allowed, and the
only source has submitted `105`; the soft bounds end at `50` or at `150`. -/
def pipelineStore (tight : Bool) : Store where
  flags f := f = .dqPipeline ∨ f = .publicationGuards
  config := { minSources := some 1
              dqConfig := fun a => if a = 10 then some ⟨0, 0, 0, 1000, 2000, 3600⟩ else none }
  bounds := { guards := some { anyBoundsConfigured := true }
              tier := fun a =>
                if a = 10 then
                  if tight then
                    some ⟨⟨10, 50, 1, 1000⟩, by decide, by decide, by decide, by decide⟩
                  else some ⟨⟨10, 150, 1, 1000⟩, by decide, by decide, by decide, by decide⟩
                else none }
  registry := { assetIndex := fun a => if a = 10 then some true else none
                sources := [1] }
  submission := fun k => if k = (10, 1) then some ⟨105, 5, 1, 18, 1, 5, none⟩ else none
  aggregate := fun a => if a = 10 then some ⟨100, 1, 1, 18, false, 1⟩ else none

def pipelineRun : List PipelineTx :=
  [⟨.concrete 2 6 [], .price (.aggregate (.recomputeAssetPrice 10))⟩]

def pipelineWrites (tight : Bool) : List AggregateWrite :=
  (effects (AggregationCall.recomputeAssetPrice 10).body (.concrete 2 6 [])
    (pipelineStore tight)).aggregates

theorem pipelineWrites_ne : pipelineWrites false ≠ [] := by decide +kernel

theorem pipelineStore_accepted (tight : Bool) : ConfigsAccepted (pipelineStore tight) := by
  intro asset cfg hcfg
  change (if asset = 10 then some _ else none) = some cfg at hcfg
  split_ifs at hcfg
  rw [← Option.some_inj.1 hcfg]
  decide

/-- What the round publishes under the wide soft bounds. -/
def pipelineWrite : AggregateWrite := (pipelineWrites false).head pipelineWrites_ne

theorem pipelineWrite_sound : Sound (.concrete 2 6 []) pipelineWrite.before 10 where
  count := by decide +kernel
  prices source entry hentry := by
    change (if (10,source) = (10,1) then some _ else none) = some entry at hentry
    split_ifs at hentry
    rw [← Option.some_inj.1 hentry]
    decide
  turnover _ hmethod := absurd hmethod (by decide +kernel)

theorem pipelineWrite_comparable {bps : Nat} (hbps : bps ≤ 10000) :
    Comparable pipelineWrite.before 10 bps 100 where
  fits := by
    unfold i128Max
    omega
  room _ t ht := by
    rw [← Option.some_inj.1 ht]
    refine ⟨100,by decide,by decide,?_⟩
    rw [near_iff]
    omega

/-- Between `10` and `150` the round publishes `105`, within both bounds. -/
theorem wide_bounds_tethered :
    Near 1000 100 pipelineWrite.value.price ∧ Near 2000 100 pipelineWrite.value.price := by
  have hrun := rounds_stay_tethered (pipelineStore false) pipelineRun (pipelineStore_accepted false)
    (pipelineStore false,⟨.concrete 2 6 [],.price (.aggregate (.recomputeAssetPrice 10))⟩)
    (by simp [pipelineRun]) _ rfl pipelineWrite (List.head_mem _) pipelineWrite_sound
  have hcfg : (⟨0,0,0,1000,2000,3600⟩ : DqConfig) ∈ pipelineWrite.before.dqConfigOf 10 := by
    decide +kernel
  have hanchor : (⟨100,6⟩ : DqAnchor) ∈ pipelineWrite.before.rounds.dqAnchor 10 := by
    decide +kernel
  have hlast : pipelineWrite.before.lastPrice 10 = 100 := by decide +kernel
  constructor
  · have hstep := hrun.step _ hcfg (by decide)
    change 0 < pipelineWrite.before.lastPrice 10 →
      Comparable pipelineWrite.before 10 1000 (pipelineWrite.before.lastPrice 10) →
        Near 1000 (pipelineWrite.before.lastPrice 10) _ at hstep
    rw [hlast] at hstep
    exact hstep (by decide) (pipelineWrite_comparable (by decide))
  · have hdrift := hrun.drift _ hcfg (by decide)
    change 0 < pipelineWrite.before.lastPrice 10 → _ at hdrift
    rw [hlast] at hdrift
    exact hdrift (by decide) _ hanchor (by decide) (pipelineWrite_comparable (by decide))

/-- Soft bounds that end at `50` pull the input `105`, which the pipeline has let through, to `50`:
half of the last aggregate and of the anchor. -/
theorem tight_bounds_untethered :
    ConfigsAccepted (pipelineStore true) ∧
    ((pipelineWrites true).map fun x => (x.before.lastPrice 10, x.value.price)) = [(100, 50)] ∧
    (¬∀ x ∈ pipelineWrites true, ∀ cfg ∈ x.before.dqConfigOf 10, 0 < cfg.maxStepBps →
      0 < x.before.lastPrice 10 →
        Near cfg.maxStepBps (x.before.lastPrice 10) x.value.price) ∧
    ¬∀ x ∈ pipelineWrites true, ∀ cfg ∈ x.before.dqConfigOf 10, 0 < cfg.maxDriftBps →
      ∀ a ∈ x.before.rounds.dqAnchor 10, Near cfg.maxDriftBps a.price x.value.price :=
  ⟨pipelineStore_accepted true,by decide +kernel,by decide +kernel,by decide +kernel⟩

end Runs

end PriceOracle.Aggregation
