import PriceOracle.Aggregation.Calls
import PriceOracle.Aggregation.Unfiltered
import PriceOracle.Submissions.CircuitBreaker

/-! # The candidate and the aggregate

The rate limit is tested on a candidate that has its own copy of the loop over the sources. The copy
knows the quorum and the method; sampling has another seed there, and filters, weights, masks and
bounds do not exist. Where all of these have nothing to say, the candidate is what the rounds of the
call publish. -/

namespace PriceOracle.Model.Store

variable (env : Env) (st : Store) (asset : Address)

/-- The stored submissions of the sources that a round selects. -/
def selectedEntries : List (Address × PriceEntry) :=
  st.storedBy asset (fun _ => true) (st.selectSources (Model.roundSeed env))

/-- The price of a round that counts all of them alike. -/
def plainPrice : Int :=
  st.aggregatedPrice asset ((st.selectedEntries env asset).map fun x => x.2.price)
    ((st.selectedEntries env asset).map fun x => x.2.volume.getD 0)

end PriceOracle.Model.Store

namespace PriceOracle.Submissions

open Lib.Transaction Lib.MachineInt Model Aggregation

/-- No step that only rounds make has anything to say about the asset: the sample is the one of the
candidate, every selected submission is counted and kept, and the bounds clamp nothing. -/
structure Transparent (env : Env) (st : Store) (asset : Address) : Prop where
  sampled : st.selectSources (roundSeed env) = st.selectSources (wrap32 env.sequence)
  interval : ∀ s ∈ st.selectSources (roundSeed env), (st.submission (asset, s)).isSome = true →
    st.compliant env (st.minIntervalFor asset) asset s = true
  welcome : ∀ x ∈ st.selectedEntries env asset, Welcome env st (st.contextOf env asset) x
  trial : onTrial st (st.contextOf env asset) (st.selectedEntries env asset) ≤ probationMaxCounted
  unmasked : st.survivorMask asset (st.contextOf env asset).policy
      ((st.selectedEntries env asset).map fun x => x.2.price) =
    (st.selectedEntries env asset).map fun _ => true
  unweighted : (st.contextOf env asset).policy.method = 4 → 0 < st.readBftFaultTolerance
  unclamped : ∀ p, st.applyBounds asset (st.plainPrice env asset) = some p →
    p = st.plainPrice env asset

section Rounds

variable {env : Env} {st : Store} {asset : Address}

theorem Transparent.leaves (h : Transparent env st asset) :
    Leaves env st asset (fun _ => true) (st.selectSources (roundSeed env)) where
  sampled := rfl
  interval := h.interval
  welcome := h.welcome
  trial := h.trial
  unmasked := by
    rintro _ rfl
    rw [List.map_map]
    exact h.unmasked

theorem Transparent.rawPrice (h : Transparent env st asset) :
    st.rawPrice env asset = st.plainPrice env asset := by
  obtain ⟨hprices,hvolumes,-,-⟩ := h.leaves.vectors
  unfold Store.rawPrice
  rw [if_neg,hprices,hvolumes]
  · rfl
  · rintro ⟨hmethod,htolerance⟩
    have hpositive := h.unweighted hmethod
    omega

theorem Transparent.price (h : Transparent env st asset) {d : Decision}
    (hd : Concluded env st asset d) : d.price = st.plainPrice env asset := by
  apply h.unclamped
  rw [← h.rawPrice]
  exact hd.price

theorem Transparent.quorum (h : Transparent env st asset) {d : Decision}
    (hd : Concluded env st asset d)
    (htier : (st.basePolicy asset).minSources ≤ (st.contextOf env asset).policy.minSources) :
    (st.basePolicy asset).minSources ≤ (st.selectedEntries env asset).length ∧
      st.selectedEntries env asset ≠ [] := by
  have hquorate := hd.quorate
  rw [h.leaves.quorate,decide_eq_true_iff] at hquorate
  exact ⟨htier.trans hquorate.1,hquorate.2⟩

end Rounds

section Candidate

variable {st st' : Store} {asset source : Address} {entry : PriceEntry}

theorem candidateEntries_stored
    (hsubmission : st'.submission = Function.update st.submission (asset,source) (some entry))
    (hvolume : entry.volume = none) (timestamp : Nat) (sources : List Address) :
    (st.candidateEntries asset source entry.price timestamp sources).map
        (fun x => (x.1,x.2.1)) =
      (st'.storedBy asset (fun _ => true) sources).map
        fun x => (x.2.price,x.2.volume.getD 0) := by
  unfold Store.candidateEntries Store.storedBy
  rw [List.filter_true,List.map_filterMap,List.map_filterMap,hsubmission]
  congr 1
  funext src
  by_cases hsrc : src = source
  · rw [if_pos hsrc,hsrc,Function.update_self,Option.map_some,Option.map_some,
      Option.map_some,hvolume]
    rfl
  · rw [if_neg hsrc,Function.update_of_ne fun h => hsrc (Prod.mk.inj h).2]
    cases st.submission (asset,src) <;> rfl

end Candidate

/-- What rounds and the records of a stored submission write. -/
def afterStoring : List Region := [.aggregates, .history, .provenance, .corrections] ++ bookkeeping

/-- The storage `st` once the submission is stored, up to what a submission writes besides. -/
structure Lodged (env : Env) (st : Store) (asset source : Address) (price : Int) (t : World) :
    Prop where
  env : t.env = env
  flags : t.store.flags = st.flags
  config : t.store.config = st.config
  sources : t.store.registry.sources = st.registry.sources
  submission : ∃ entry, entry.price = price ∧ entry.volume = none ∧
    t.store.submission = Function.update st.submission (asset, source) (some entry)

section Storing

variable {env : Env} {st : Store} {asset source : Address} {price : Int} {w t u : World}

theorem Lodged.after (h : Lodged env st asset source price t)
    (htu : layout.agreeOff afterStoring t u) : Lodged env st asset source price u where
  env := (htu .env (by decide)).trans h.env
  flags := (htu .flags (by decide)).trans h.flags
  config := (htu .config (by decide)).trans h.config
  sources := (congrArg (fun x => x.2.2.1) (htu .registry (by decide))).trans h.sources
  submission := by
    obtain ⟨entry,hprice,hvolume,hentry⟩ := h.submission
    have hsubmission : u.store.submission = t.store.submission :=
      congrArg Prod.fst (htu .submissions (by decide))
    exact ⟨entry,hprice,hvolume,hsubmission.trans hentry⟩

theorem storeSubmission_lodged (h : layout.agreeOff prefixRegions w t) (timestamp : Nat) :
    Sat (storeSubmission asset source price timestamp none) t fun _ u =>
      Lodged w.env w.store asset source price u ∧ u.log.aggregates = w.log.aggregates := by
  have hsubmission : t.store.submission = w.store.submission :=
    congrArg Prod.fst (h .submissions (by decide))
  unfold storeSubmission writeSubmission
  rw [sat_bind,sat_readStore,sat_update]
  refine ⟨⟨h .env (by decide),h .flags (by decide),h .config (by decide),
    congrArg (fun x => x.2.2.1) (h .registry (by decide)),
    ⟨price,timestamp,source,t.store.getDecimals,t.env.sequence,t.env.timestamp,none⟩,rfl,
    rfl,?_⟩,
    congrArg Prod.snd (h .aggregates (by decide))⟩
  rw [← hsubmission]

theorem afterDirect_publishes (asset source : Address) (price : Int) :
    Preserves (Publishes afterStoring) (do
      afterDirect asset source price
      aggregateAfterSubmission asset) := by
  have hrounds : RespectsRounds (Publishes afterStoring) := publishes_respectsRounds (by decide)
  have hdirect : Preserves (Publishes afterStoring) (afterDirect asset source price) :=
    (publishes_of_frame (recordSuccessfulSubmission_frame source) (by decide) (by decide)).bind
      fun _ => (publishes_of_frame (validateCorrelation_frame asset price source) (by decide)
        (by decide)).bind fun _ => recordSubmissionForTriggers_preserves hrounds asset price
  refine hdirect.bind fun _ =>
    (maybeAggregateAfterSubmission_preserves hrounds asset).bind fun enough => ?_
  split_ifs
  · exact doAggregate_preserves hrounds asset
  · exact preserves_pure _

/-- Every aggregate of the call is concluded in storage that holds the submission. -/
theorem submitPrice_publishes (timestamp nonce : Nat) :
    Sat (submitPrice source asset price timestamp nonce) w fun _ u =>
      ∀ x ∈ u.log.aggregates, x ∈ w.log.aggregates ∨ ∃ t, x.before = t.store ∧
        Lodged w.env w.store asset source price t ∧
          ∃ d, Concluded t.env t.store x.asset d ∧ x.value.price = d.price := by
  have hopen : Frame prefixRegions (do
      (do checkNotPaused; requireAuth source; checkSource source)
      checkDirect source asset
      acceptNonce source nonce
      checkPositive source price
      checkSubmission asset source price timestamp
      checkOrder asset source timestamp) := by
    refine (checkNotPaused_frame.bind fun _ => ((requireAuth_frame source).mono (by decide)).bind
      fun _ => checkSource_frame source).bind fun _ => ?_
    refine ((checkDirect_enforces asset source price).frame.mono (by decide)).bind fun _ => ?_
    refine ((acceptNonce_frame source nonce).mono (by decide)).bind fun _ => ?_
    refine checkPositive_frame.bind fun _ => ?_
    refine ((checkSubmission_enforces timestamp).frame.mono (by decide)).bind fun _ => ?_
    exact checkOrder_frame timestamp
  have hsplit : submitPrice source asset price timestamp nonce = (do
      (do
        (do checkNotPaused; requireAuth source; checkSource source)
        checkDirect source asset
        acceptNonce source nonce
        checkPositive source price
        checkSubmission asset source price timestamp
        checkOrder asset source timestamp)
      unlessTripped asset do
        storeSubmission asset source price timestamp none
        afterDirect asset source price
        aggregateAfterSubmission asset) := by
    simp only [submitPrice,asSource,bind_assoc]
  rw [hsplit]
  refine (hopen w).andThen fun _ t hwt => ?_
  unfold unlessTripped
  rw [sat_bind,sat_readStore]
  split_ifs
  · have hlog : t.log.aggregates = w.log.aggregates :=
      congrArg Prod.snd (hwt .aggregates (by decide))
    rw [sat_pure,hlog]
    exact fun _ hx => Or.inl hx
  · refine (storeSubmission_lodged hwt timestamp).andThen fun _ u hu => ?_
    obtain ⟨hstored,hlog⟩ := hu
    refine (afterDirect_publishes asset source price u).mono fun _ v huv x hx => ?_
    rcases huv.concluded x hx with hold | ⟨s,hbefore,hus,hd⟩
    · rw [hlog] at hold
      exact Or.inl hold
    · exact Or.inr ⟨s,hbefore,hstored.after hus,hd⟩

/-- With the sample of the round, the candidate is the plain price of the storage it leads to. -/
theorem candidatePrice_stored (h : Lodged env st asset source price t)
    (hsampled : t.store.selectSources (roundSeed env) =
      t.store.selectSources (wrap32 env.sequence)) (timestamp : Nat) :
    st.candidatePrice env asset source price timestamp =
      if t.store.config.minSources.isSome = true ∧
          (t.store.basePolicy asset).minSources ≤ (t.store.selectedEntries env asset).length ∧
          t.store.selectedEntries env asset ≠ [] then
        some (t.store.plainPrice env asset)
      else none := by
  obtain ⟨entry,rfl,hvolume,hsubmission⟩ := h.submission
  have hselect (seed : Nat) : st.selectSources seed = t.store.selectSources seed := by
    unfold Store.selectSources Store.getMaxAggregationSources Store.on
    rw [h.flags,h.config,h.sources]
  have hbase : st.basePolicy asset = t.store.basePolicy asset := by
    unfold Store.basePolicy Store.layeredPolicy Store.classPolicy Store.getAssetClass
      Store.getAssetPolicy Store.getAggregationMethod Store.on
    rw [h.flags,h.config]
  have hentries := candidateEntries_stored hsubmission hvolume timestamp
    (t.store.selectSources (wrap32 env.sequence))
  rw [← hsampled] at hentries
  change _ = (t.store.selectedEntries env asset).map _ at hentries
  have hprices : (st.candidateEntries asset source entry.price timestamp
      (t.store.selectSources (roundSeed env))).map Prod.fst =
        (t.store.selectedEntries env asset).map fun x => x.2.price := by
    have hfirst := congrArg (List.map Prod.fst) hentries
    rwa [List.map_map,List.map_map] at hfirst
  have hvolumes : (st.candidateEntries asset source entry.price timestamp
      (t.store.selectSources (roundSeed env))).map (fun x => x.2.1) =
        (t.store.selectedEntries env asset).map fun x => x.2.volume.getD 0 := by
    have hsecond := congrArg (List.map Prod.snd) hentries
    rwa [List.map_map,List.map_map] at hsecond
  have hlength := congrArg List.length hentries
  rw [List.length_map,List.length_map] at hlength
  have hnil : st.candidateEntries asset source entry.price timestamp
      (t.store.selectSources (roundSeed env)) ≠ [] ↔ t.store.selectedEntries env asset ≠ [] := by
    rw [← List.length_pos_iff,← List.length_pos_iff,hlength]
  unfold Store.candidatePrice
  dsimp only
  rw [hselect,← hsampled,hbase,hlength,← h.config,
    ← aggregatedPrice_congr h.flags h.config asset,hprices,hvolumes]
  simp only [hnil]
  rfl

end Storing

/-- The candidate of the rate limit is what the round of `x` has published; there is one, unless the
risk tier asks the round for a smaller quorum. -/
structure Previewed (env : Env) (st : Store) (asset source : Address) (price : Int)
    (timestamp : Nat) (x : AggregateWrite) : Prop where
  agrees : ∀ c ∈ st.candidatePrice env asset source price timestamp, c = x.value.price
  exists_of_quorum : (x.before.basePolicy asset).minSources ≤
      (x.before.contextOf env asset).policy.minSources →
    (st.candidatePrice env asset source price timestamp).isSome = true

/-- Every aggregate of the asset that `submit_price` publishes where rounds have nothing to add is
the candidate that the rate limit was tested on. -/
theorem published_as_previewed (env : Env) (st : Store) (source asset : Address) (price : Int)
    (timestamp nonce : Nat) (x : AggregateWrite)
    (hx : x ∈ (effects (submitPrice source asset price timestamp nonce) env st).aggregates)
    (hasset : x.asset = asset) (h : Transparent env x.before asset) :
    Previewed env st asset source price timestamp x := by
  have hcommit := commit_of_sat (P := fun u : World => ∀ y ∈ u.log.aggregates,
      ∃ t : World, y.before = t.store ∧ Lodged env st asset source price t ∧
        ∃ d, Concluded t.env t.store y.asset d ∧ y.value.price = d.price)
    (s := World.enter env st) (m := submitPrice source asset price timestamp nonce)
    (fun _ hy => by cases hy)
    ((submitPrice_publishes timestamp nonce).mono fun _ u hu y hy =>
      (hu y hy).resolve_left fun hold => by cases hold)
  obtain ⟨t,hbefore,hstored,d,hd,hprice⟩ := hcommit x hx
  rw [hbefore] at h
  rw [hstored.env,hasset] at hd
  have hplain := h.price hd
  have hcandidate := candidatePrice_stored hstored h.sampled timestamp
  refine ⟨fun c hc => ?_,fun htier => ?_⟩
  · rw [hcandidate,Option.mem_def] at hc
    split_ifs at hc
    rw [← Option.some_inj.1 hc,hprice,hplain]
  · rw [hbefore] at htier
    rw [hcandidate,if_pos ⟨hd.configured,h.quorum hd htier⟩]
    rfl

/-- Asset `10` stands at `100` with a limit of ten percent per ledger, and a policy that drops
prices ten percent from the median. Sources `2` and `3` have submitted `100` and `third`. -/
def previewStore (third : Int) : Store where
  flags f := f = .assetPolicy
  config := { minSources := some 2
              assetPolicy := fun a => if a = 10 then some ⟨none, none, none, some 1000⟩ else none }
  gates := { priceBounds := fun a => if a = 10 then some ⟨0, 1000000, 1000⟩ else none }
  registry := { assetIndex := fun a => if a = 10 then some true else none
                sources := [1, 2, 3]
                srcActive := fun a => if a = 1 ∨ a = 2 ∨ a = 3 then some true else none }
  submission := fun k =>
    if k = (10, 2) then some ⟨100, 5, 2, 18, 1, 5, none⟩
    else if k = (10, 3) then some ⟨third, 5, 3, 18, 1, 5, none⟩
    else none
  aggregate := fun a => if a = 10 then some ⟨100, 1, 1, 18, false, 1⟩ else none

def previewWrites (third : Int) : List AggregateWrite :=
  (effects (submitPrice 1 10 102 6 1) (.concrete 2 6 [1]) (previewStore third)).aggregates

theorem previewWrites_ne : previewWrites 101 ≠ [] := by decide +kernel

theorem previewStore_transparent :
    Transparent (.concrete 2 6 [1]) ((previewWrites 101).head previewWrites_ne).before 10 where
  sampled := by decide +kernel
  interval := by decide +kernel
  welcome x hx := by
    have hcases : ∀ x ∈ ((previewWrites 101).head previewWrites_ne).before.selectedEntries
        (.concrete 2 6 [1]) 10,
        ((previewWrites 101).head previewWrites_ne).before.isCorrelationFlagged 10 x.1 = false ∧
          (((previewWrites 101).head previewWrites_ne).before.contextOf (.concrete 2 6 [1])
            10).screens (.concrete 2 6 [1]) x.2 = true := by decide +kernel
    refine ⟨fun h => ?_,(hcases x hx).1,(hcases x hx).2⟩
    cases h
  trial := by decide +kernel
  unmasked := by decide +kernel
  unweighted := by decide +kernel
  unclamped p hp := by
    have hplain : ((previewWrites 101).head previewWrites_ne).before.applyBounds 10
        (((previewWrites 101).head previewWrites_ne).before.plainPrice (.concrete 2 6 [1]) 10) =
          some (((previewWrites 101).head previewWrites_ne).before.plainPrice
            (.concrete 2 6 [1]) 10) := by decide +kernel
    exact Option.some_inj.1 (hp.symm.trans hplain)

/-- With `101` as the third price nothing is dropped, and the candidate is published. -/
theorem close_prices_previewed :
    Previewed (.concrete 2 6 [1]) (previewStore 101) 10 1 102 6
      ((previewWrites 101).head previewWrites_ne) :=
  published_as_previewed _ _ 1 10 102 6 1 _ (List.head_mem _) (by decide +kernel)
    previewStore_transparent

/-- The third price `500` enters the candidate `102` that the limit is tested on; the round drops it
and publishes `101`. -/
theorem deviating_price_not_previewed :
    failure (submitPrice 1 10 102 6 1) (.concrete 2 6 [1]) (previewStore 500) = none ∧
    0 < ((previewStore 500).priceBoundsOf 10).maxChangeBpsPerLedger ∧
    (previewStore 500).lastPrice 10 = 100 ∧
    (previewStore 500).candidatePrice (.concrete 2 6 [1]) 10 1 102 6 = some 102 ∧
    (previewWrites 500).map (fun x => (x.asset, x.value.price)) = [(10, 101)] ∧
    ¬∀ x ∈ previewWrites 500,
      Previewed (.concrete 2 6 [1]) (previewStore 500) 10 1 102 6 x := by
  have hcandidate : (previewStore 500).candidatePrice (.concrete 2 6 [1]) 10 1 102 6 =
      some 102 := by decide +kernel
  have hwrites : (previewWrites 500).map (fun x => (x.asset,x.value.price)) = [(10,101)] := by
    decide +kernel
  refine ⟨by decide +kernel,by decide +kernel,by decide +kernel,hcandidate,hwrites,fun hall => ?_⟩
  have hwritten : ((10 : Address),(101 : Int)) ∈
      (previewWrites 500).map fun x => (x.asset,x.value.price) := by
    rw [hwrites]
    exact List.mem_singleton_self _
  obtain ⟨x,hx,hvalue⟩ := List.mem_map.1 hwritten
  have hagrees := (hall x hx).agrees 102 hcandidate
  rw [(Prod.mk.inj hvalue).2] at hagrees
  cases hagrees

end PriceOracle.Submissions
