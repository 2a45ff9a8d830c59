import PriceOracle.Submissions.Paths

/-! # The circuit breaker and the panic

A candidate aggregate beyond the rate limit trips the breaker and panics in the same call. The
panic discards the trip: such a call never succeeds, whatever else it checks, and the breaker
stands afterwards as it stood before. -/

namespace PriceOracle.Model.Store

open Lib.MachineInt

variable (env : Env) (st : Store) (asset : Address)

/-- The price of the candidate aggregate, if the call gets as far as building one. -/
def candidatePrice (source : Address) (price : Int) (timestamp : Nat) : Option Int :=
  let entries := st.candidateEntries asset source price timestamp
    (st.selectSources (wrap32 env.sequence))
  if st.config.minSources.isSome = true ∧ (st.basePolicy asset).minSources ≤ entries.length ∧
      entries ≠ [] then
    some (st.aggregatedPrice asset (entries.map Prod.fst) (entries.map fun x => x.2.1))
  else none

/-- The candidate moves a positive stored price by more than the configured limit. -/
def ExceedsLimit (source : Address) (price : Int) (timestamp : Nat) : Prop :=
  0 < (st.priceBoundsOf asset).maxChangeBpsPerLedger ∧ 0 < st.lastPrice asset ∧
    ∃ c ∈ st.candidatePrice env asset source price timestamp,
      ((st.priceBoundsOf asset).maxChangeBpsPerLedger : Int) < changeBps (st.lastPrice asset) c

end PriceOracle.Model.Store

namespace PriceOracle.Submissions

open Lib.Transaction Lib.MachineInt Model Aggregation

/-- What the checks before the rate limit may have written. -/
def prefixRegions : List Region := .auths :: bookkeeping

section Candidate

variable {w t : World} (h : layout.agreeOff prefixRegions w t)

include h

theorem basePolicy_congr (asset : Address) : t.store.basePolicy asset = w.store.basePolicy asset := by
  have hflags : t.store.flags = w.store.flags := h .flags (by decide)
  have hconfig : t.store.config = w.store.config := h .config (by decide)
  unfold Store.basePolicy Store.layeredPolicy Store.classPolicy Store.getAssetClass
    Store.getAssetPolicy Store.getAggregationMethod Store.on
  rw [hflags,hconfig]

theorem candidatePrice_congr (asset source : Address) (price : Int) (timestamp : Nat) :
    t.store.candidatePrice t.env asset source price timestamp =
      w.store.candidatePrice w.env asset source price timestamp := by
  have hflags : t.store.flags = w.store.flags := h .flags (by decide)
  have hconfig : t.store.config = w.store.config := h .config (by decide)
  have henv : t.env = w.env := h .env (by decide)
  have hsubmission : t.store.submission = w.store.submission :=
    congrArg Prod.fst (h .submissions (by decide))
  have hsources : t.store.registry.sources = w.store.registry.sources :=
    congrArg (fun x => x.2.2.1) (h .registry (by decide))
  have hprice : t.store.aggregatedPrice asset = w.store.aggregatedPrice asset :=
    aggregatedPrice_congr hflags hconfig asset
  unfold Store.candidatePrice Store.candidateEntries Store.selectSources
    Store.getMaxAggregationSources Store.on
  rw [hflags,hconfig,henv,hsubmission,hsources,hprice,basePolicy_congr h]

/-- The rate limit is exceeded or not before the checks as after them. -/
theorem exceedsLimit_congr {asset source : Address} {price : Int} {timestamp : Nat}
    (hexceeds : w.store.ExceedsLimit w.env asset source price timestamp) :
    t.store.ExceedsLimit t.env asset source price timestamp := by
  have hgates : t.store.gates = w.store.gates := h .gates (by decide)
  have haggregate : t.store.aggregate = w.store.aggregate :=
    congrArg Prod.fst (h .aggregates (by decide))
  have hbounds : t.store.priceBoundsOf asset = w.store.priceBoundsOf asset := by
    rw [Store.priceBoundsOf,Store.priceBoundsOf,hgates]
  have hlast : t.store.lastPrice asset = w.store.lastPrice asset := by
    rw [Store.lastPrice,Store.lastPrice,haggregate]
  unfold Store.ExceedsLimit at hexceeds ⊢
  rw [hbounds,hlast,candidatePrice_congr h]
  exact hexceeds

end Candidate

section Never

variable {asset source : Address} {price : Int} {timestamp : Nat} {w : World}

theorem buildCandidateAggregate_sat (decimals : Nat) :
    Sat (buildCandidateAggregate asset source price timestamp decimals) w fun c _ =>
      c.map AggregatePrice.price = w.store.candidatePrice w.env asset source price timestamp := by
  unfold buildCandidateAggregate Store.candidatePrice
  rw [sat_bind]
  refine ((effectivePolicy_sat asset w).and (effectivePolicy_configured asset w)).mono fun policy v hv => ?_
  obtain ⟨⟨rfl,rfl⟩,hsome⟩ := hv
  rw [sat_bind,sat_readStore]
  simp only [hsome,true_and]
  split_ifs
  · rw [sat_bind]
    refine (aggregatePrices_sat asset _ _ v).mono fun p _ hp => ?_
    rw [sat_pure,hp.1]
    rfl
  · rw [sat_pure]
    rfl

theorem checkChange_never
    (hexceeds : w.store.ExceedsLimit w.env asset source price timestamp) (decimals : Nat) :
    Sat (checkChange asset source price timestamp decimals
      (w.store.priceBoundsOf asset).maxChangeBpsPerLedger) w fun _ _ => False := by
  obtain ⟨-,hlast,c,hc,hlimit⟩ := hexceeds
  unfold checkChange
  rw [sat_bind,sat_readStore,if_pos hlast,sat_bind]
  refine (buildCandidateAggregate_sat decimals).mono fun candidate _ hcandidate => ?_
  rw [hc,Option.map_eq_some_iff] at hcandidate
  obtain ⟨a,rfl,rfl⟩ := hcandidate
  dsimp only
  rw [if_pos hlimit,sat_bind]
  intro _ _ _
  exact sat_abort _

theorem validatePriceSubmission_never
    (hexceeds : w.store.ExceedsLimit w.env asset source price timestamp) (decimals : Nat) :
    Sat (validatePriceSubmission asset source price timestamp decimals) w fun _ _ => False := by
  unfold validatePriceSubmission
  rw [sat_bind]
  refine ((getPriceBounds_sat w).and
    (getPriceBounds_frame (T := prefixRegions) asset w)).mono fun bounds t ht => ?_
  obtain ⟨rfl,hwt⟩ := ht
  simp only [sat_bind,sat_ensure,sat_readStore]
  intro _ _
  have hgates : t.store.gates = w.store.gates := hwt .gates (by decide)
  have hbounds : w.store.priceBoundsOf asset = t.store.priceBoundsOf asset := by
    rw [Store.priceBoundsOf,Store.priceBoundsOf,hgates]
  rw [if_pos hexceeds.1,hbounds]
  exact checkChange_never (exceedsLimit_congr hwt hexceeds) decimals

theorem checkSubmission_never
    (hexceeds : w.store.ExceedsLimit w.env asset source price timestamp) :
    Sat (checkSubmission asset source price timestamp) w fun _ _ => False := by
  unfold checkSubmission
  rw [sat_bind,sat_readStore,sat_bind]
  exact (validatePriceSubmission_never hexceeds _).mono fun _ _ hfalse => hfalse.elim

theorem asSource_never {body : Contract Unit}
    (hbody : ∀ t, layout.agreeOff prefixRegions w t → Sat body t fun _ _ => False) :
    Sat (asSource source body) w fun _ _ => False := by
  have hopen : Frame prefixRegions (do checkNotPaused; requireAuth source; checkSource source) :=
    checkNotPaused_frame.bind fun _ => ((requireAuth_frame source).mono (by decide)).bind fun _ =>
      checkSource_frame source
  have hsplit : asSource source body =
      (do checkNotPaused; requireAuth source; checkSource source) >>= fun _ => body := by
    simp only [asSource,bind_assoc]
  rw [hsplit]
  exact (hopen w).andThen fun _ t ht => hbody t ht

theorem submitPrice_never (nonce : Nat)
    (hexceeds : w.store.ExceedsLimit w.env asset source price timestamp) :
    Sat (submitPrice source asset price timestamp nonce) w fun _ _ => False := by
  apply asSource_never
  intro t ht
  have hdirect : Frame prefixRegions (checkDirect source asset) :=
    (checkDirect_enforces asset source price).frame.mono (by decide)
  refine (hdirect.from ht).andThen fun _ t ht => ?_
  have hnonce : Frame prefixRegions (acceptNonce source nonce) :=
    (acceptNonce_frame source nonce).mono (by decide)
  refine (hnonce.from ht).andThen fun _ t ht => ?_
  refine (checkPositive_frame.from ht).andThen fun _ t ht => ?_
  exact (checkSubmission_never (exceedsLimit_congr ht hexceeds)).andThen fun _ _ h => h.elim

theorem submitPriceWithVolume_never (volume : Option Int)
    (hexceeds : w.store.ExceedsLimit w.env asset source price timestamp) :
    Sat (submitPriceWithVolume source asset price timestamp volume) w fun _ _ => False := by
  apply asSource_never
  intro t ht
  have hdirect : Frame prefixRegions (checkDirect source asset) :=
    (checkDirect_enforces asset source price).frame.mono (by decide)
  refine (hdirect.from ht).andThen fun _ t ht => ?_
  split_ifs
  · exact rejectInvalid_sat source _ t _
  · exact (checkSubmission_never (exceedsLimit_congr ht hexceeds)).andThen fun _ _ h => h.elim

theorem checkBatchEntry_never (x : BatchEntry)
    (hexceeds : w.store.ExceedsLimit w.env x.1 source x.2.1 x.2.2) :
    Sat (checkBatchEntry source x) w fun _ _ => False := by
  have hw : layout.agreeOff prefixRegions w w := Std.Refl.refl w
  refine ((checkRegisteredAsset_frame x.1).from hw).andThen fun _ t ht => ?_
  refine ((checkNotFrozen_frame x.1).from ht).andThen fun _ t ht => ?_
  refine ((checkSourceAsset_frame source x.1).from ht).andThen fun _ t ht => ?_
  refine (checkPositive_frame.from ht).andThen fun _ t ht => ?_
  exact checkSubmission_never (exceedsLimit_congr ht hexceeds)

theorem submitPrices_never {xs : List BatchEntry} {x : BatchEntry} (hx : x ∈ xs)
    (hexceeds : w.store.ExceedsLimit w.env x.1 source x.2.1 x.2.2) :
    Sat (submitPrices source xs) w fun _ _ => False := by
  unfold submitPrices
  rw [sat_bind,sat_ensure]
  intro _
  apply asSource_never
  intro t ht
  refine (enforceCommitRevealForBft_frame.from ht).andThen fun _ t ht => ?_
  have hsuspended : Frame prefixRegions (checkNotSuspended source .sourceSuspended) :=
    (checkNotSuspended_enforces 0 source 0 _).frame.mono (by decide)
  refine (hsuspended.from ht).andThen fun _ t ht => ?_
  refine Sat.andThen (sat_forM_all (I := layout.agreeOff prefixRegions w) (P := fun y => y ≠ x)
    (fun y _ t ht => ?_) ht) fun _ _ hall => absurd rfl (hall.2 x hx)
  by_cases hyx : y = x
  · subst hyx
    exact (checkBatchEntry_never y (exceedsLimit_congr ht hexceeds)).mono fun _ _ h => h.elim
  · have hframe : Frame prefixRegions (checkBatchEntry source y) :=
      (checkBatchEntry_enforces y).frame.mono (by decide)
    exact (hframe.from ht).mono fun _ _ hu => ⟨hu,hyx⟩

end Never

/-- The call carries a price of `asset` whose candidate exceeds the limit; only three of the signed
paths have a rate limit. -/
def SourceCall.Exceeds (env : Env) (st : Store) (source asset : Address) : SourceCall → Prop
  | .submitPrice a price timestamp _ =>
    a = asset ∧ st.ExceedsLimit env asset source price timestamp
  | .submitPrices assetPrices =>
    ∃ x ∈ assetPrices, x.1 = asset ∧ st.ExceedsLimit env asset source x.2.1 x.2.2
  | .submitPriceWithVolume a price timestamp _ =>
    a = asset ∧ st.ExceedsLimit env asset source price timestamp
  | _ => False

theorem SourceCall.body_never {w : World} {source asset : Address} {call : SourceCall}
    (h : call.Exceeds w.env w.store source asset) :
    Sat (call.body source) w fun _ _ => False := by
  cases call with
  | submitPrice a price timestamp nonce =>
    obtain ⟨rfl,hexceeds⟩ := h
    exact submitPrice_never nonce hexceeds
  | submitPrices assetPrices =>
    obtain ⟨x,hx,rfl,hexceeds⟩ := h
    exact submitPrices_never hx hexceeds
  | submitPriceWithVolume a price timestamp volume =>
    obtain ⟨rfl,hexceeds⟩ := h
    exact submitPriceWithVolume_never volume hexceeds
  | revealPrice => exact h.elim
  | revealPricesBatch => exact h.elim
  | submitPriceMerkle => exact h.elim

/-- The breaker of `asset` is tripped and the asset is paused. -/
def Halted (st : Store) (asset : Address) : Prop :=
  st.isCircuitBreakerTripped asset = true ∧ st.isAssetPaused asset = true

deriving instance Decidable for Halted

/-- After a call beyond the rate limit the asset is halted exactly when it was halted before. -/
theorem halted_after_excess_iff (env : Env) (st : Store) (source asset : Address)
    (call : SourceCall) (hexceeds : call.Exceeds env st source asset) :
    Halted (invoke (call.body source) env st) asset ↔ Halted st asset := by
  have hnever : Sat (call.body source) (World.enter env st) fun _ _ => False :=
    SourceCall.body_never hexceeds
  have hsame : invoke (call.body source) env st = st :=
    invoke_of_sat (P := fun st' => st' = st) rfl (hnever.mono fun _ _ h => h.elim)
  rw [hsame]

/-- Asset `10` stands at `100` with a limit of ten percent per ledger; source `1` is its quorum. -/
def limitedStore (halted : Bool) : Store where
  config := { minSources := some 1 }
  gates := { priceBounds := fun a => if a = 10 then some ⟨0, 1000000, 1000⟩ else none
             assetPauseFlag := fun a => if a = 10 then some halted else none
             circuitBreakerTripped := fun a => if a = 10 then some halted else none }
  registry := { assetIndex := fun a => if a = 10 then some true else none
                sources := [1]
                srcActive := fun a => if a = 1 then some true else none }
  aggregate := fun a => if a = 10 then some ⟨100, 1, 1, 18, false, 1⟩ else none

theorem doubled_price_exceeds (halted : Bool) :
    SourceCall.Exceeds (.concrete 1 5 [1]) (limitedStore halted) 1 10
      (.submitPrice 10 200 5 1) := by
  cases halted with
  | false => exact ⟨rfl,by decide,by decide,200,by decide,by decide⟩
  | true => exact ⟨rfl,by decide,by decide,200,by decide,by decide⟩

/-- An asset that was halted before the call is halted after it. -/
theorem halted_asset_stays_halted :
    Halted (invoke (SourceCall.body 1 (.submitPrice 10 200 5 1)) (.concrete 1 5 [1])
      (limitedStore true)) 10 := by
  rw [halted_after_excess_iff _ _ _ _ _ (doubled_price_exceeds true)]
  decide

/-- The trip of the breaker is rolled back with the call that made it. -/
theorem tripped_breaker_rolled_back :
    ¬∀ (env : Env) (st : Store) (source asset : Address) (call : SourceCall),
      call.Exceeds env st source asset → Halted (invoke (call.body source) env st) asset := by
  intro hall
  have hhalted := hall (.concrete 1 5 [1]) (limitedStore false) 1 10 (.submitPrice 10 200 5 1)
    (doubled_price_exceeds false)
  revert hhalted
  decide

end PriceOracle.Submissions
