import PriceOracle.Aggregation.Completion
import PriceOracle.Aggregation.HardBand
import PriceOracle.Aggregation.Idle
import PriceOracle.Aggregation.Unfiltered

/-! # The manual trigger

`trigger_aggregation` has its own copy of the loop over the sources. It knows the interval of the
contract and the method, and nothing of what rounds have learnt since: filters, masks and gates.
Where these have nothing to say, it publishes what a round would publish. -/

namespace PriceOracle.Model.Store

variable (env : Env) (st : Store) (asset : Address)

/-- The submissions that the trigger counts, with their sources. -/
def triggered : List (Address × PriceEntry) :=
  st.storedBy asset (st.compliant env st.getMinSubmissionInterval asset) st.registry.sources

theorem triggered_entries :
    (st.triggered env asset).map Prod.snd = st.triggerEntries env asset := by
  unfold triggered storedBy
  rw [List.map_filterMap]
  congr 1
  funext src
  cases st.submission (asset,src) <;> rfl

end PriceOracle.Model.Store

namespace PriceOracle.Aggregation

open Lib.Transaction Lib.Run Model

section Agreement

variable {env : Env} {st : Store} {asset : Address}

/-- What only the rounds look at has nothing to say about the asset: every submission that the
trigger counts passes the filters and the masks, and no gate, bound or relation is in the way. -/
structure Unopposed (env : Env) (st : Store) (asset : Address) : Prop where
  unfiltered : Unfiltered env st asset (st.compliant env st.getMinSubmissionInterval asset)
  method : (st.contextOf env asset).policy.method = 4 → 0 < st.readBftFaultTolerance
  quorum : (st.contextOf env asset).policy.minSources ≤ (st.triggered env asset).length
  tiered : st.tiered asset = true
  lit : st.blackedOut env asset = false
  undeferred : st.undeferred env asset = true
  unbounded : st.guards.anyBoundsConfigured = true → st.bounds.tier asset = none
  unrelated : st.guards.anySanityRelations = true →
    (st.sanitySuspendedAt env asset = true ∨ (st.config.sanityRelations asset).getD [] = []) ∧
      ((st.rounds.sanityStatus asset).map SanityStatus.quarantined).getD false = false

theorem Unopposed.screened (h : Unopposed env st asset) (price : Int) :
    st.screened env asset price = some price := by
  have hbounds : st.applyBounds asset price = some price := by
    unfold Store.applyBounds
    split_ifs with hguard
    · rw [h.unbounded hguard]
    · rfl
  have hwithheld : st.withheld env asset price = false := by
    unfold Store.withheld
    cases hguard : st.guards.anySanityRelations with
    | false => rfl
    | true =>
      obtain ⟨hidle,hquarantined⟩ := h.unrelated hguard
      unfold Store.sanityVerdict
      rw [if_pos (by simpa using hidle)]
      exact hquarantined
  unfold Store.screened
  rw [hbounds,Option.filter_some,hwithheld]
  rfl

/-- The round decides on the price that the trigger computes, from the submissions it counts. -/
theorem Unopposed.decision (h : Unopposed env st asset) (hne : st.triggered env asset ≠ []) :
    ∃ d, st.decision env asset = some d ∧
      d.price = st.aggregatedPrice asset ((st.triggered env asset).map fun x => x.2.price)
        ((st.triggered env asset).map fun x => x.2.volume.getD 0) ∧
      d.round.contributingSources = (st.triggered env asset).length := by
  obtain ⟨hprices,hvolumes,-,hcount⟩ := h.unfiltered.leaves.vectors
  have hquorate : st.quorate env asset = true := by
    rw [h.unfiltered.leaves.quorate]
    exact decide_eq_true ⟨h.quorum,hne⟩
  have hready : st.ready env asset = true := by
    rw [Store.ready,h.tiered,h.lit,h.undeferred,hquorate]
    rfl
  have hraw : st.rawPrice env asset =
      st.aggregatedPrice asset ((st.triggered env asset).map fun x => x.2.price)
        ((st.triggered env asset).map fun x => x.2.volume.getD 0) := by
    unfold Store.rawPrice
    rw [if_neg,hprices,hvolumes]
    · rfl
    · rintro ⟨hmethod,htolerance⟩
      have hpositive := h.method hmethod
      omega
  refine ⟨⟨(st.contextOf env asset).policy,st.survivors env asset,st.rawPrice env asset⟩,
    ?_,hraw,hcount⟩
  unfold Store.decision
  rw [if_pos hready,h.screened]
  rfl

theorem recomputeAsset_writes (asset : Address) (w : World) :
    Sat (recomputeAsset asset) w fun _ w' =>
      w'.log.aggregates.map AggregateWrite.value = w.log.aggregates.map AggregateWrite.value ++
        (w.store.decision w.env asset).toList.map fun d =>
          d.aggregate (w.store.previousAggregate asset w.store.getDecimals)
            w.store.getDecimals true := by
  unfold recomputeAsset
  rw [sat_bind,sat_getSequence,sat_bind,sat_readStore]
  refine Sat.andThen ?_ fun _ t ht => (sat_readStore _ _).2 ht
  refine (decideRound_decision asset w).andThen fun d v hv => ?_
  obtain ⟨rfl,hquiet⟩ := hv
  have haggregates : (v.store.aggregate,v.log.aggregates) = (w.store.aggregate,w.log.aggregates) :=
    hquiet .aggregates (by simp)
  obtain ⟨haggregate,hlog⟩ := Prod.mk.inj haggregates
  cases w.store.decision w.env asset with
  | none =>
    refine (sat_pure _).2 ?_
    rw [hlog]
    simp
  | some d =>
    refine (commitRound_sat asset _ _ true d v).mono fun _ u hu => ?_
    obtain ⟨pub,-,-,hcommitted⟩ := hu
    rw [hcommitted.written,hlog,List.map_append]
    unfold Store.previousAggregate
    rw [haggregate]
    rfl

theorem triggerAggregation_sat (asset : Address) (w : World) :
    Sat (triggerAggregation asset) w fun _ w' => Configured w ∧
      w.store.triggerQuorate w.env asset = true ∧ ∃ timestamp,
        w'.store.aggregate asset = some ⟨w.store.aggregatedPrice asset
            ((w.store.triggerEntries w.env asset).map PriceEntry.price)
            ((w.store.triggerEntries w.env asset).map fun e => e.volume.getD 0),
          timestamp,(w.store.triggerEntries w.env asset).length,w.store.getDecimals,false,0⟩ := by
  refine (checkRegisteredAsset_indexes asset).andThen fun _ t ht => ?_
  obtain ⟨index,rfl⟩ := ht
  simp only [sat_bind,sat_getSequence,sat_readStore,sat_ensure]
  intro _
  refine ((effectivePolicy_sat asset _).and (effectivePolicy_configured asset _)).mono
    fun policy u hu => ?_
  obtain ⟨⟨rfl,rfl⟩,hconfigured⟩ := hu
  intro hquorum
  refine (aggregatePrices_sat asset _ _ _).mono fun price u hu => ?_
  obtain ⟨rfl,rfl⟩ := hu
  rw [writeAggregate,sat_update,modifyRounds,sat_update]
  exact ⟨hconfigured,decide_eq_true hquorum,_,Function.update_self _ _ _⟩

end Agreement

/-- The trigger counts the very submissions that survive a round in the same state, and stores the
price and the number of sources that a recomputation would publish there. -/
structure LikeRound (env : Env) (st : Store) (asset : Address) : Prop where
  counted : (st.survivors env asset).validSources = (st.triggered env asset).map Prod.fst ∧
    (st.survivors env asset).validPrices = (st.triggered env asset).map fun x => x.2.price
  published : ∃ stored value,
    (invoke (triggerAggregation asset) env st).aggregate asset = some stored ∧
    (effects (recomputeAsset asset) env st).aggregates.map AggregateWrite.value = [value] ∧
    stored.price = value.price ∧ stored.numSources = value.numSources

/-- If the call is a trigger and succeeds, it does what a round would do. -/
def TriggersLikeRound (st : Store) (t : PriceTx) : Prop :=
  ∀ asset, t.call = .triggerAggregation asset → failure t.call.body t.env st = none →
    LikeRound t.env st asset

/-- If the call is a trigger, only what it looks at matters for the asset. -/
def TriggersUnopposed (st : Store) (t : PriceTx) : Prop :=
  ∀ asset, t.call = .triggerAggregation asset → Unopposed t.env st asset

theorem Unopposed.likeRound {env : Env} {st : Store} {asset : Address}
    (h : Unopposed env st asset) (hsuccess : failure (triggerAggregation asset) env st = none) :
    LikeRound env st asset := by
  obtain ⟨hprices,-,hsources,-⟩ := h.unfiltered.leaves.vectors
  obtain ⟨_,w,hrun⟩ := failure_eq_none_iff.1 hsuccess
  obtain ⟨hconfigured,hquorate,timestamp,hstored⟩ := triggerAggregation_sat asset _ _ w hrun
  have hne : st.triggered env asset ≠ [] := by
    intro hnil
    have hentries := st.triggered_entries env asset
    rw [hnil] at hentries
    exact (of_decide_eq_true hquorate).2 hentries.symm
  obtain ⟨d,hd,hprice,hcount⟩ := h.decision hne
  obtain ⟨_,v,hv,-⟩ := recomputeAsset_succeeds asset (World.enter env st) hconfigured
  have hwrites := recomputeAsset_writes asset (World.enter env st) _ v hv
  have hdecision : Store.decision (World.enter env st).env (World.enter env st).store asset =
      some d := hd
  have hinvoked := congrArg (fun w : World => w.store.aggregate asset) (commit_of_ok hrun)
  have hwritten : (effects (recomputeAsset asset) env st).aggregates.map AggregateWrite.value =
      [d.aggregate (st.previousAggregate asset st.getDecimals) st.getDecimals true] := by
    unfold effects
    rw [commit_of_ok hv,hwrites,hdecision]
    rfl
  refine ⟨⟨hsources,hprices⟩,_,_,hinvoked.trans hstored,hwritten,?_,?_⟩
  · change st.aggregatedPrice asset _ _ = d.price
    rw [hprice]
    change st.aggregatedPrice asset ((st.triggerEntries env asset).map _)
      ((st.triggerEntries env asset).map _) = _
    rw [← st.triggered_entries,List.map_map,List.map_map]
    rfl
  · change (st.triggerEntries env asset).length = d.round.contributingSources
    rw [hcount,← st.triggered_entries,List.length_map]

/-- In every run whose triggers find nothing in their way, every trigger that succeeds publishes
what a round would publish. -/
theorem triggers_follow_rounds (st : Store) (ts : List PriceTx)
    (hts : ∀ x ∈ steps execPrice st ts, TriggersUnopposed x.1 x.2) :
    ∀ x ∈ steps execPrice st ts, TriggersLikeRound x.1 x.2 := by
  intro x hx asset hcall hsuccess
  rw [hcall] at hsuccess
  exact (hts x hx asset hcall).likeRound hsuccess

/-- Sources `1`, `2` and `3` have submitted `100`, `101` and `500` for asset `10`; the third has
been marked inactive or has not. -/
def quotedStore (inactive : Bool) : Store where
  flags f := f = .sourceInactive ∨ f = .publicationGuards
  config := { minSources := some 2, sourceInactive := fun a => if a = 3 then some inactive else none }
  bounds := { guards := some { anySourceExcluded := inactive } }
  registry := { assetIndex := fun a => if a = 10 then some true else none
                sources := [1, 2, 3] }
  submission := fun k =>
    if k = (10, 1) then some ⟨100, 5, 1, 18, 1, 5, none⟩
    else if k = (10, 2) then some ⟨101, 5, 2, 18, 1, 5, none⟩
    else if k = (10, 3) then some ⟨500, 5, 3, 18, 1, 5, none⟩
    else none

def manualRun : List PriceTx := [⟨.concrete 2 6 [], .triggerAggregation 10⟩]

theorem quotedStore_unfiltered : Unfiltered (.concrete 2 6 []) (quotedStore false) 10
    ((quotedStore false).compliant (.concrete 2 6 []) (quotedStore false).getMinSubmissionInterval
      10) where
  sampled := by decide +kernel
  interval := by decide +kernel
  welcome x hx := by
    have hcases : ∀ x ∈ (quotedStore false).triggered (.concrete 2 6 []) 10,
        (quotedStore false).isCorrelationFlagged 10 x.1 = false ∧
          ((quotedStore false).contextOf (.concrete 2 6 []) 10).screens (.concrete 2 6 []) x.2 =
            true := by decide +kernel
    exact ⟨fun h => (by cases h),(hcases x hx).1,(hcases x hx).2⟩
  trial := by decide +kernel
  unmasked := by
    rintro prices rfl
    decide +kernel

theorem quotedStore_unopposed : Unopposed (.concrete 2 6 []) (quotedStore false) 10 where
  unfiltered := quotedStore_unfiltered
  method := by decide +kernel
  quorum := by decide +kernel
  tiered := by decide +kernel
  lit := by decide +kernel
  undeferred := by decide +kernel
  unbounded _ := rfl
  unrelated h := (by cases h)

/-- With three active sources the trigger and the round agree on the median `101` of three. -/
theorem unopposed_run :
    (∀ x ∈ steps execPrice (quotedStore false) manualRun, TriggersLikeRound x.1 x.2) ∧
      ((run execPrice (quotedStore false) manualRun).aggregate 10).map
        (fun a => (a.price, a.numSources)) = some (101, 3) := by
  refine ⟨triggers_follow_rounds _ _ fun x hx => ?_,by decide +kernel⟩
  rw [manualRun,steps_cons,steps_nil,List.mem_singleton] at hx
  rw [hx]
  rintro asset ⟨⟩
  exact quotedStore_unopposed

/-- The trigger counts the price of an inactive source, which no round does. -/
theorem trigger_counts_inactive :
    (¬∀ x ∈ steps execPrice (quotedStore true) manualRun, TriggersLikeRound x.1 x.2) ∧
      ((run execPrice (quotedStore true) manualRun).aggregate 10).map
        (fun a => (a.price, a.numSources)) = some (101, 3) ∧
      ((invoke (recomputeAsset 10) (.concrete 2 6 []) (quotedStore true)).aggregate 10).map
        (fun a => (a.price, a.numSources)) = some (100, 2) := by
  refine ⟨fun h => ?_,by decide +kernel,by decide +kernel⟩
  have hround := h (quotedStore true,⟨.concrete 2 6 [],.triggerAggregation 10⟩)
    (by simp [manualRun]) 10 rfl (by decide +kernel)
  obtain ⟨stored,value,hstored,hvalue,hprice,-⟩ := hround.published
  have htriggered : ((invoke (triggerAggregation 10) (.concrete 2 6 []) (quotedStore true)).aggregate
      10).map AggregatePrice.price = some 101 := by decide +kernel
  have hrecomputed : ((effects (recomputeAsset 10) (.concrete 2 6 [])
      (quotedStore true)).aggregates.map AggregateWrite.value).map AggregatePrice.price =
        [100] := by decide +kernel
  rw [hstored,Option.map_some,Option.some.injEq] at htriggered
  rw [hvalue,List.map_singleton,List.singleton_inj] at hrecomputed
  omega

end PriceOracle.Aggregation
