import PriceOracle.Defaults.Agreement
import PriceOracle.Submissions.Paths

/-! # Submissions and removals by the book

The two calls that refresh prices. A submission that is accepted is recorded and its asset's price
refreshed; a removal refreshes the prices that are served and that the source has contributed to. -/

namespace PriceOracle.Defaults

open Lib.Transaction Lib.MachineInt Lib.OrderStatistic Model Aggregation Submissions

section Submission

variable {w : World} {st : Store} {b : Book} {source asset : Address} {price : Int}

theorem storeSubmission_agrees (h : Agrees w.store b) (hasset : asset ∈ b.assets)
    (hsource : source ∈ b.sources) (hprice : 0 < price ∧ IsI128 price) (timestamp : Nat)
    (volume : Option Int) :
    Sat (storeSubmission asset source price timestamp volume) w fun _ w' =>
      Agrees w'.store (b.record source asset price) := by
  simp only [storeSubmission,writeSubmission,sat_bind,sat_readStore,sat_update]
  refine ⟨⟨⟨h.default.flags,h.default.method,h.default.resolution,h.default.bounds,
    h.default.breaker,h.default.whitelists,h.default.overrides⟩,h.registered,h.assets,
    h.sources,h.active,h.bonds,h.quorum,h.paused,fun a s hs => ?_,fun s hs a => ?_,
    h.patient⟩,⟨h.sound.quorum,h.sound.known,fun a s p hp => ?_,h.sound.cached⟩,h.cached⟩
  · have hkept := h.accepted a s hs
    by_cases ha : a = asset
    · by_cases hself : s = source
      · simp [Book.record,ha,hself]
      · simpa [Book.record,ha,hself] using h.accepted asset s hs
    · simpa [Book.record,ha] using hkept
  · have hne : (a,s) ≠ (asset,source) := by
      rintro ⟨⟩
      exact hs (h.sound.known hsource)
    exact (Function.update_of_ne hne _ _).trans (h.fresh s hs a)
  · by_cases ha : a = asset
    · by_cases hself : s = source
      · have hp : price = p := by simpa [Book.record,ha,hself] using hp
        rw [ha,hself,← hp]
        exact ⟨hprice,hasset,hsource⟩
      · exact h.sound.accepted a s p (by simpa [Book.record,ha,hself] using hp)
    · exact h.sound.accepted a s p (by simpa [Book.record,ha] using hp)

theorem Book.refresh_of_few (hfew : ¬b.quorum ≤ (b.contributions asset).length) :
    b.refresh asset = b := by
  unfold Book.refresh Book.refreshed
  rw [if_neg hfew,Function.update_eq_self]

/-- The submissions that are counted are the prices of the book. -/
theorem Agrees.countContributingSources (h : Agrees st b) (env : Env) :
    st.countContributingSources env asset = (b.contributions asset).length := by
  unfold Store.countContributingSources
  rw [h.default.selectSources,← h.contributions,entries,Store.storedBy,List.filter_true,
    List.length_map]
  have hplain (s : Address) : st.isCorrelationFlagged asset s = false := by
    rw [Store.isCorrelationFlagged,h.default.flags .correlation (by decide)]
    rfl
  induction st.registry.sources with
  | nil => rfl
  | cons s rest ih =>
    rw [List.filter_cons,List.filterMap_cons,h.default.compliant,hplain]
    cases hstored : st.submission (asset,s) <;> simpa using ih

theorem doAggregate_agrees (h : Agrees w.store b) (asset : Address) :
    Sat (doAggregate asset) w fun _ w' => Agrees w'.store (b.refresh asset) := by
  unfold doAggregate
  simp only [sat_bind,sat_readStore,sat_getSequence]
  exact round_agrees h asset _ false

theorem aggregateAfterSubmission_agrees (h : Agrees w.store b) (asset : Address) :
    Sat (aggregateAfterSubmission asset) w fun _ w' => Agrees w'.store (b.refresh asset) := by
  unfold aggregateAfterSubmission maybeAggregateAfterSubmission effectivePolicy
    getMinSourcesRequired
  simp only [sat_bind,sat_readStore,sat_pure,sat_consult]
  intro minSources hmin
  rw [h.quorum] at hmin
  cases hmin
  have hpolicy : (w.store.layeredPolicy asset b.quorum).minSources = b.quorum := by
    have hbase := h.default.basePolicy asset
    rw [Store.basePolicy,h.quorum,Option.getD_some] at hbase
    rw [hbase]
  rw [hpolicy,h.countContributingSources]
  refine sat_ite _ (fun _ => doAggregate_agrees h asset) fun hfew => (sat_pure _).2 ?_
  rw [Book.refresh_of_few (by simpa using hfew)]
  exact h

theorem afterDirect_agrees (h : Agrees w.store b) :
    Sat (afterDirect asset source price) w fun _ w' => Agrees w'.store b := by
  refine (h.of_frame (recordSuccessfulSubmission_frame source) (by decide)).andThen
    fun _ t ht => ?_
  refine (ht.of_frame (validateCorrelation_frame asset price source) (by decide)).andThen
    fun _ u hu => ?_
  have hthreshold : u.store.submissionThresholdTrigger asset = 0 := by
    rw [Store.submissionThresholdTrigger,hu.default.flags .triggers (by decide)]
    rfl
  have hdeviation : u.store.deviates asset price = false := by
    rw [Store.deviates,Store.deviationTrigger,hu.default.flags .triggers (by decide)]
    rfl
  simp only [recordSubmissionForTriggers,sat_bind,sat_readStore,hthreshold,hdeviation]
  exact (sat_pure _).2 hu

theorem checkDirect_agrees (h : Agrees w.store b) :
    Sat (checkDirect source asset) w fun _ w' => Agrees w'.store b ∧ asset ∈ b.assets := by
  refine (h.of_frame (checkDirect_enforces asset source 0).frame (by decide)).and ?_
  refine (checkRegisteredAsset_sat asset w).andThen fun _ t ht => ?_
  exact fun _ _ _ => (h.registered asset).1 ht.1

/-- An accepted submission is one of a registered asset while the contract is not paused. -/
theorem submitPrice_agrees (h : Agrees w.store b) (hprice : IsI128 price) (timestamp nonce : Nat) :
    Sat (submitPrice source asset price timestamp nonce) w fun _ w' =>
      Agrees w'.store (b.submit source asset price) ∧ b.paused = false ∧ asset ∈ b.assets := by
  unfold submitPrice asSource
  simp only [checkNotPaused,sat_bind,sat_readStore,sat_ensure]
  intro hpaused
  rw [h.paused] at hpaused
  refine (h.of_frame (requireAuth_frame source) (by decide)).mono fun _ t ht => ?_
  simp only [checkSource,sat_bind,sat_readStore,sat_ensure]
  intro hactive _
  have hsource : source ∈ b.sources := by
    by_contra hout
    rw [ht.active,if_neg hout] at hactive
    cases hactive
  refine (checkDirect_agrees ht).mono fun _ u hu => ?_
  obtain ⟨hu,hasset⟩ := hu
  refine (hu.of_frame (acceptNonce_frame source nonce) (by decide)).mono fun _ v hv => ?_
  refine ((hv.of_frame (checkPositive_frame (T := [])) (by decide)).and
    (checkPositive_sat v)).mono fun _ v₁ hv₁ => ?_
  obtain ⟨hv₁,hpos⟩ := hv₁
  refine (hv₁.of_frame (checkSubmission_enforces timestamp).frame (by decide)).mono
    fun _ v₂ hv₂ => ?_
  refine (hv₂.of_frame (checkOrder_frame (T := []) timestamp) (by decide)).mono
    fun _ v₃ hv₃ => ?_
  simp only [unlessTripped,sat_bind,sat_readStore,hv₃.default.breaker asset]
  refine (storeSubmission_agrees hv₃ hasset hsource ⟨hpos,hprice⟩ timestamp none).andThen
    fun _ v₄ hv₄ => ?_
  refine (afterDirect_agrees hv₄).andThen fun _ v₅ hv₅ => ?_
  exact (aggregateAfterSubmission_agrees hv₅ asset).mono fun _ _ h => ⟨h,hpaused,hasset⟩

end Submission

section Removal

variable {w : World} {st : Store} {b : Book} {source : Address} {assets : List Address}

/-- The book after a recomputation of the prices served for some assets. -/
def Book.refreshServed (b : Book) (assets : List Address) : Book :=
  { b with cached := fun a =>
      if a ∈ assets ∧ (b.cached a).isSome = true then b.refreshed a else b.cached a }

theorem Book.refreshed_refresh (asset a : Address) :
    (b.refresh asset).refreshed a = if a = asset then b.refreshed asset else b.refreshed a := by
  change (if b.quorum ≤ (b.contributions a).length then some (median (b.contributions a))
    else (b.refresh asset).cached a) = _
  rw [Book.refresh_cached]
  by_cases ha : a = asset
  · rw [if_pos ha,if_pos ha,ha]
    unfold Book.refreshed
    split_ifs <;> rfl
  · rw [if_neg ha,if_neg ha]
    rfl

theorem Book.refreshed_isSome {asset : Address} (h : (b.cached asset).isSome = true) :
    (b.refreshed asset).isSome = true := by
  unfold Book.refreshed
  split_ifs
  · rfl
  · exact h

theorem recomputeLoop_agrees {left : Nat} (h : Agrees w.store b) (hleft : assets.length ≤ left) :
    Sat (recomputeLoop left assets) w fun _ w' => Agrees w'.store (b.refreshServed assets) := by
  induction assets generalizing left w b with
  | nil =>
    cases left <;> exact (sat_pure _).2 h
  | cons a rest ih =>
    cases left with
    | zero => simp at hleft
    | succ left =>
      rw [List.length_cons,Nat.add_le_add_iff_right] at hleft
      have hpublished : (w.store.aggregate a).isSome = (b.cached a).isSome := by
        rw [← h.cached,Option.isSome_map]
      simp only [recomputeLoop,sat_bind,sat_readStore,hpublished]
      refine sat_ite _ (fun hserved => ?_) fun hunserved => ?_
      · refine Sat.andThen (Q := fun _ t => Agrees t.store (b.refresh a)) ?_ fun _ t ht => ?_
        · unfold recomputeAsset
          simp only [sat_bind,sat_readStore,sat_getSequence]
          exact round_agrees h a _ true
        · have hsame : (b.refresh a).refreshServed rest = b.refreshServed (a :: rest) := by
            unfold Book.refreshServed
            congr 1
            funext x
            rw [Book.refreshed_refresh,Book.refresh_cached]
            by_cases hx : x = a
            · simp [hx,hserved,Book.refreshed_isSome hserved]
            · simp [hx]
          rw [← hsame]
          exact ih ht hleft
      · have hsame : b.refreshServed rest = b.refreshServed (a :: rest) := by
          unfold Book.refreshServed
          congr 1
          funext x
          by_cases hx : x = a
          · simp [hx,hunserved]
          · simp [hx]
        rw [← hsame]
        exact ih h (hleft.trans (Nat.le_succ left))

theorem recomputeBounded_agrees (h : Agrees w.store b) (hassets : assets.length ≤ 2) :
    Sat (recomputeBounded assets) w fun _ w' => Agrees w'.store (b.refreshServed assets) := by
  unfold recomputeBounded
  simp only [sat_bind,sat_getSequence]
  refine (h.of_frame (modifyRounds_frame _) (by decide)).mono fun _ t ht => ?_
  exact recomputeLoop_agrees ht hassets

/-- As long as the limit of assets is not reached, every asset with a submission of the source is
listed. -/
theorem foldl_affected (p : Address → Bool) (assets out : List Address)
    (hlimit : out.length + assets.length ≤ 64) :
    (assets.foldl (fun out a => if 64 ≤ out.length ∨ out.contains a = true then out
      else if p a then out ++ [a] else out) out).length ≤ out.length + assets.length ∧
    ∀ a, a ∈ assets.foldl (fun out a => if 64 ≤ out.length ∨ out.contains a = true then out
      else if p a then out ++ [a] else out) out ↔ a ∈ out ∨ a ∈ assets ∧ p a = true := by
  induction assets generalizing out with
  | nil => simp
  | cons x rest ih =>
    rw [List.foldl_cons,List.length_cons]
    by_cases hin : x ∈ out
    · grind
    · by_cases hx : p x = true
      · grind
      · grind

theorem Agrees.affectedAssets (h : Agrees st b) (hassets : b.assets.length ≤ 2)
    (source : Address) : (st.affectedAssets source).length ≤ 2 ∧ ∀ a,
      a ∈ st.affectedAssets source ↔ a ∈ b.assets ∧ (st.submission (a,source)).isSome = true := by
  unfold Store.affectedAssets
  rw [h.default.whitelists,h.assets]
  obtain ⟨hlength,hmem⟩ := foldl_affected (fun a => (st.submission (a,source)).isSome) b.assets []
    (by simp; omega)
  refine ⟨hlength.trans (by simpa using hassets),fun a => (hmem a).trans ?_⟩
  simp

theorem isSourceInactive_patient (h : Agrees w.store b) (hsource : source ∈ b.sources) :
    Sat (isSourceInactive source) w fun inactive w' => inactive = false ∧ ∃ missed,
      w' = { w with store := { w.store with heartbeats := { w.store.heartbeats with
        missedHeartbeats :=
          Function.update w.store.heartbeats.missedHeartbeats source missed } } } := by
  have hunmarked : w.store.isSourceInactive source = false := by
    rw [Store.isSourceInactive,h.default.flags .sourceInactive (by decide)]
    rfl
  have hpatient := h.patient source (.inl hsource)
  have hfirst : satAdd32 (w.store.getMissedHeartbeats source) 1 = 1 := by
    rw [Store.getMissedHeartbeats,hpatient]
    rfl
  simp only [isSourceInactive,sat_bind,sat_readStore,hunmarked]
  refine sat_ite _ (fun habsurd => absurd habsurd (by decide)) fun _ => ?_
  refine sat_ite _ (fun _ => ?_) fun _ => (sat_pure _).2 ⟨rfl,none,?_⟩
  · simp only [incrementMissedHeartbeats,modifyHeartbeats,sat_bind,sat_readStore,sat_update,
      sat_pure,hfirst]
    exact (sat_pure _).2 ⟨rfl,some 1,rfl⟩
  · rw [← hpatient,Function.update_eq_self]

/-- The removed source leaves nothing behind that counts; its submissions stay stored. -/
theorem removeSourceInner_agrees (h : Agrees w.store b) (source : Address) :
    Sat (removeSourceInner source) w fun _ w' => Agrees w'.store (b.withdraw source) ∧
      ∀ a, (w'.store.submission (a,source)).map PriceEntry.price = b.accepted a source := by
  refine asAdmin_agrees h fun t ht => ?_
  simp only [sat_bind,sat_readStore,sat_ensure]
  intro hknown
  have hsource : source ∈ b.sources := by
    by_contra hout
    rw [ht.active,if_neg hout] at hknown
    cases hknown
  refine (isSourceInactive_patient ht hsource).mono fun _ u hu => ?_
  obtain ⟨_,missed,hu⟩ := hu
  have hbond : u.store.getSourceDepositedBond source = 0 := by
    rw [hu,Store.getSourceDepositedBond]
    rw [ht.bonds]
    rfl
  rw [hbond,if_neg (by decide),hu]
  simp only [deregisterSource,unlistSource,modifyStats,modifySources,removeOptional,
    RemovedKey.write,sat_bind,sat_update]
  refine ⟨⟨⟨⟨ht.default.flags,ht.default.method,ht.default.resolution,
    ht.default.bounds,ht.default.breaker,fun s => ?_,ht.default.overrides⟩,ht.registered,
    ht.assets,?_,fun s => ?_,ht.bonds,ht.quorum,ht.paused,fun a s hs => ?_,ht.fresh,
    fun s hs => ?_⟩,⟨ht.sound.quorum,fun s hs => ?_,fun a s p hp => ?_,ht.sound.cached⟩,
    ht.cached⟩,fun a => ht.accepted a source hsource⟩
  · have hopen := ht.default.whitelists s
    by_cases hs : s = source
    · simp [hs]
    · simpa [hs] using hopen
  · change t.store.registry.sources.filter _ = b.sources.filter _
    rw [ht.sources]
  · have hactive := ht.active s
    by_cases hs : s = source
    · simp [Book.withdraw,hs]
    · simpa [Book.withdraw,hs] using hactive
  · have hs' := List.mem_filter.1 hs
    have hne : s ≠ source := by simpa using hs'.2
    refine (ht.accepted a s hs'.1).trans ?_
    exact (Function.update_of_ne hne none (b.accepted a)).symm
  · have hne : s ≠ source := by
      rintro rfl
      rcases hs with hs | hs
      · simp [Book.withdraw] at hs
      · exact hs (ht.sound.known hsource)
    have hlisted : s ∈ b.sources ∨ s ∉ b.known :=
      hs.imp_left fun hs => (List.mem_filter.1 hs).1
    exact (Function.update_of_ne hne _ _).trans (ht.patient s hlisted)
  · exact ht.sound.known (List.mem_filter.1 hs).1
  · have hne : s ≠ source := by
      rintro rfl
      simp [Book.withdraw] at hp
    have hp' : b.accepted a s = some p := by simpa [Book.withdraw,hne] using hp
    obtain ⟨hprice,hasset,hin⟩ := ht.sound.accepted a s p hp'
    exact ⟨hprice,hasset,List.mem_filter.2 ⟨hin,by simpa using hne⟩⟩

theorem Book.remove_contributed (hassets : ∀ a, a ∈ assets ↔ (b.accepted a source).isSome = true) :
    (b.withdraw source).refreshServed assets = b.remove contributed source := by
  unfold Book.refreshServed Book.remove
  congr 1
  funext a
  by_cases haccepted : (b.accepted a source).isSome = true
  · simp [contributed,hassets,haccepted,Book.withdraw]
  · simp [contributed,hassets,haccepted,Book.withdraw]

theorem Book.remove_unlisted (h : b.Sound) (hout : source ∉ b.sources) :
    b.remove contributed source = b := by
  have hnone (a : Address) : b.accepted a source = none := by
    cases haccepted : b.accepted a source with
    | none => rfl
    | some p => exact absurd (h.accepted a source p haccepted).2.2 hout
  have hlisted : (b.sources.filter fun s => s ≠ source) = b.sources := by
    refine List.filter_eq_self.2 fun s hs => ?_
    rw [decide_eq_true_eq]
    rintro rfl
    exact hout hs
  have haccepted : (fun a => Function.update (b.accepted a) source none) = b.accepted := by
    funext a
    rw [← hnone a,Function.update_eq_self]
  unfold Book.remove Book.withdraw contributed
  rw [hlisted,haccepted]
  simp only [hnone]
  rfl

theorem removeSource_agrees (h : Agrees w.store b) (hassets : b.assets.length ≤ 2)
    (source : Address) :
    Sat (removeSource source) w fun _ w' => Agrees w'.store (b.remove contributed source) := by
  refine asAdmin_agrees h fun t ht => ?_
  simp only [sat_bind,sat_readStore]
  refine (ht.of_frame (modifySources_frame _) (by decide)).mono fun _ u hu => ?_
  refine sat_ite _ (fun hunknown => (sat_pure _).2 ?_) fun _ => ?_
  · have hout : source ∉ b.sources := by
      intro hin
      rw [ht.active,if_pos hin] at hunknown
      cases hunknown.2
    rw [Book.remove_unlisted hu.sound hout]
    exact hu
  refine (removeSourceInner_agrees hu source).andThen fun _ v hv => ?_
  obtain ⟨hv,hstored⟩ := hv
  have hkept : (b.withdraw source).assets.length ≤ 2 := hassets
  obtain ⟨hlength,hmem⟩ := hv.affectedAssets hkept source
  have haffected (a : Address) :
      a ∈ v.store.affectedAssets source ↔ (b.accepted a source).isSome = true := by
    rw [hmem,← hstored,Option.isSome_map,and_iff_right_iff_imp,← Option.isSome_map,
      hstored,Option.isSome_iff_exists]
    rintro ⟨p,hp⟩
    exact (ht.sound.accepted a source p hp).2.1
  unfold recomputeSourceChange
  rw [sat_bind,sat_readStore,← Book.remove_contributed haffected]
  exact recomputeBounded_agrees hv hlength

end Removal

end PriceOracle.Defaults

/-! ## The contract serves the book

Along every run of the calls the prices served are those of the book, whoever asks and whenever. -/

namespace PriceOracle.Defaults

open Lib.Transaction Lib.MachineInt Lib.Run Model Aggregation

section Serving

variable {w : World} {st : Store} {b : Book} {asset : Address}

/-- Without an age limit nothing that is published is withheld. -/
theorem Agrees.livePrice (h : Agrees st b) (env : Env) :
    st.livePrice env asset 0 = st.aggregate asset := by
  rw [Store.livePrice,h.default.breaker,if_neg (by decide),Store.freshAggregate]
  have hcached := h.cached asset
  cases ha : st.aggregate asset with
  | none => rfl
  | some a =>
    rw [ha,Option.map_some] at hcached
    have hpositive : 0 < a.price := (h.sound.cached asset a.price hcached.symm).1
    simp [AggregatePrice.stale,h.default.resolution asset,hpositive]

theorem getUnfrozenPrice_agrees (h : Agrees w.store b) :
    Sat (getUnfrozenPrice asset 0) w fun price _ =>
      price.map AggregatePrice.price = b.cached asset := by
  simp only [getUnfrozenPrice,activeOverride,sat_bind,sat_getSequence,sat_readStore,
    h.default.overrides asset,sat_pure,h.livePrice]
  exact h.cached asset

theorem Agrees.unfrozen (h : Agrees st b) :
    st.isAssetDisabled asset = false ∧ st.getFrozenPrice asset = none := by
  constructor
  · rw [Store.isAssetDisabled,h.default.flags .assetDisabled (by decide)]
    rfl
  · rw [Store.getFrozenPrice,h.default.flags .freeze (by decide)]
    rfl

theorem getPrice_agrees (h : Agrees w.store b) :
    Sat (getPrice asset 0) w fun price _ => price.map AggregatePrice.price = b.cached asset := by
  refine (h.of_frame (checkRegisteredAsset_frame (T := []) asset) (by decide)).andThen
    fun _ t ht => ?_
  have hdisabled : Frame [] (checkNotDisabled asset) :=
    .read fun _ => preserves_ensure _ _
  refine (ht.of_frame hdisabled (by decide)).andThen fun _ u hu => ?_
  refine (hu.of_frame (effectivePolicy_frame (T := []) asset) (by decide)).andThen
    fun _ v hv => ?_
  simp only [sat_bind,sat_readStore,hv.unfrozen.2]
  exact getUnfrozenPrice_agrees hv

theorem getPrice_fails (h : Agrees w.store b) :
    Fails (getPrice asset 0) w fun _ _ => asset ∉ b.assets := by
  unfold getPrice
  rw [fails_bind]
  refine ⟨?_,?_⟩
  · unfold checkRegisteredAsset indexAsset
    simp only [readStore,fails_bind,fails_inspect,sat_inspect,fails_ensure,fails_update]
    refine ⟨trivial,fun hout hin => hout ((h.registered asset).2 hin),?_⟩
    exact fun _ _ _ => trivial
  · refine (h.of_frame (checkRegisteredAsset_frame (T := []) asset) (by decide)).mono
      fun _ t ht => Succeeds.fails (I := fun t : World => Agrees t.store b) ?_ ht _
    refine Succeeds.bind ?_ fun _ => Succeeds.bind ?_ fun _ => ?_
    · refine succeeds_read false (fun u hu => hu.unfrozen.1) (succeeds_ensure _ rfl)
    · refine (effectivePolicy_succeeds asset).within (fun u hu => ?_) fun u hu =>
        hu.of_frame (effectivePolicy_frame (T := []) asset) (by decide)
      rw [Configured,hu.quorum]
      rfl
    · refine succeeds_read none (fun u hu => hu.unfrozen.2) (Succeeds.bind ?_ fun o => ?_)
      · refine .read fun sequence => ?_
        exact succeeds_read none (fun u hu => hu.default.overrides asset) (succeeds_pure none)
      · cases o with
        | none => exact succeeds_inspect _
        | some o => exact succeeds_inspect _

theorem Agrees.served (h : Agrees st b) (env : Env) (asset : Address) :
    served env st asset = b.cached asset := by
  unfold Defaults.served
  cases hrun : getPrice asset 0 (World.enter env st) with
  | ok price w => exact getPrice_agrees (w := World.enter env st) h price w hrun
  | error e w =>
    have hout := getPrice_fails (w := World.enter env st) h e w hrun
    cases hcached : b.cached asset with
    | none => rfl
    | some p => exact absurd (h.sound.cached asset p hcached).2 hout

end Serving

section Calls

variable {w : World} {b : Book} {t : BookTx} {x : Store × Book}

theorem addSource_unlisted (h : Agrees w.store b) (source : Address) (name : Text) :
    Sat (addSource source name) w fun _ _ => source ∉ b.sources := by
  refine asAdmin_agrees h fun t ht => ?_
  simp only [registerSourceInternal,checkNotRevoked,checkSourceName,sat_bind,sat_readStore,
    sat_ensure]
  intro _ _ _ _ hnew
  have hout : source ∉ b.sources := by
    intro hin
    rw [ht.active,if_pos hin] at hnew
    cases hnew
  intro _ _ _ _ _ _ _
  exact hout

/-- A price is one of its type, and a source that has been removed is not registered again. -/
def BookCall.Regular (b : Book) : BookCall → Prop
  | .addSource source _ => source ∈ b.known → source ∈ b.sources
  | .submitPrice _ _ price _ _ => IsI128 price
  | _ => True

def BookTx.Regular (b : Book) (t : BookTx) : Prop := b.assets.length ≤ 2 ∧ t.call.Regular b

instance (b : Book) (t : BookTx) : Decidable (t.Regular b) :=
  match t with
  | ⟨_, .addSource source _⟩ =>
    inferInstanceAs (Decidable (_ ∧ (source ∈ b.known → source ∈ b.sources)))
  | ⟨_, .submitPrice _ _ price _ _⟩ =>
    inferInstanceAs (Decidable (_ ∧ i128Min ≤ price ∧ price ≤ i128Max))
  | ⟨_, .registerAsset _⟩ | ⟨_, .removeSource _⟩ | ⟨_, .setMinSourcesRequired _⟩ | ⟨_, .pause⟩
  | ⟨_, .unpause⟩ => inferInstanceAs (Decidable (_ ∧ True))

/-- A submission that is accepted is one of a registered asset, and the contract is not paused. -/
def BookTx.Sanctioned (x : Store × Book) (t : BookTx) : Prop :=
  ∀ source asset price timestamp nonce,
    t.call = .submitPrice source asset price timestamp nonce →
      failure t.call.body t.env x.1 = none → x.2.paused = false ∧ asset ∈ x.2.assets

theorem body_agrees (h : Agrees w.store b) (ht : t.Regular b) :
    Sat t.call.body w fun _ w' => Agrees w'.store (b.apply contributed t.call) := by
  obtain ⟨env,call⟩ := t
  cases call with
  | registerAsset asset => exact registerAsset_agrees h asset
  | addSource source name =>
    by_cases hknown : source ∈ b.known
    · refine (addSource_unlisted h source name).mono fun _ _ hout => ?_
      exact absurd (ht.2 hknown) hout
    · exact addSource_agrees h hknown name
  | removeSource source => exact removeSource_agrees h ht.1 source
  | setMinSourcesRequired newMin => exact setMinSourcesRequired_agrees h newMin
  | submitPrice source asset price timestamp nonce =>
    exact (submitPrice_agrees h ht.2 timestamp nonce).mono fun _ _ h' => h'.1
  | pause => exact pause_agrees h
  | unpause => exact unpause_agrees h

theorem follow_agrees (h : Agrees x.1 x.2) (ht : t.Regular x.2) :
    Agrees (follow contributed x t).1 (follow contributed x t).2 := by
  unfold follow
  split_ifs with hsuccess
  · exact invoke_of_success (Q := fun st => Agrees st (x.2.apply contributed t.call)) hsuccess
      (body_agrees (w := World.enter t.env x.1) h ht)
  · obtain ⟨e,he⟩ := Option.ne_none_iff_exists'.1 hsuccess
    rw [invoke_of_failure he]
    exact h

theorem sanctioned_of_agrees (h : Agrees x.1 x.2) (ht : t.Regular x.2) : t.Sanctioned x := by
  intro source asset price timestamp nonce hcall hsuccess
  have hprice : IsI128 price := by
    have hregular := ht.2
    rwa [hcall] at hregular
  rw [hcall] at hsuccess
  obtain ⟨_,w,hrun⟩ := failure_eq_none_iff.1 hsuccess
  exact (submitPrice_agrees (w := World.enter t.env x.1) h hprice timestamp nonce _ w hrun).2

end Calls

section Runs

variable {x : Store × Book} {ts : List BookTx}

/-- From any contract that agrees with its book, the prices served are those of the book after every
part of a run, and only submissions that may be accepted are. -/
theorem book_served (hx : Agrees x.1 x.2)
    (hts : ∀ y ∈ steps (follow contributed) x ts, y.2.Regular y.1.2) :
    (∀ pre, pre <+: ts → Serves (run (follow contributed) x pre)) ∧
      ∀ y ∈ steps (follow contributed) x ts, y.2.Sanctioned y.1 := by
  have hstep (y : Store × Book) (t : BookTx) (hy : Agrees y.1 y.2) (ht : t.Regular y.2) :
      t.Sanctioned y ∧ Agrees (follow contributed y t).1 (follow contributed y t).2 :=
    ⟨sanctioned_of_agrees hy ht,follow_agrees hy ht⟩
  refine ⟨?_,(steps_satisfy (I := fun y : Store × Book => Agrees y.1 y.2) hstep hx hts).1⟩
  rintro pre ⟨post,rfl⟩
  rw [steps_append,List.forall_mem_append] at hts
  have hpre := (steps_satisfy (I := fun y : Store × Book => Agrees y.1 y.2) hstep hx hts.1).2
  exact fun env asset => hpre.served env asset

/-- A contract and its book when it has just been set up. -/
def opened (env : Env) (admin : Address) (minSourcesRequired maxHistoryLength decimals : Nat)
    (description : String) : Store × Book :=
  (invoke (initializeContract admin minSourcesRequired maxHistoryLength decimals description) env {},
    { quorum := if 0 < minSourcesRequired then minSourcesRequired else 1 })

theorem opened_agrees {env : Env} {admin : Address}
    {minSourcesRequired maxHistoryLength decimals : Nat} {description : String}
    (h : failure (initializeContract admin minSourcesRequired maxHistoryLength decimals description)
      env {} = none) :
    Agrees (opened env admin minSourcesRequired maxHistoryLength decimals description).1
      (opened env admin minSourcesRequired maxHistoryLength decimals description).2 := by
  unfold opened
  refine invoke_of_success (Q := fun st => Agrees st _) h ?_
  simp only [initializeContract,requireAuth,modifyConfig,sat_bind,sat_readStore,sat_ensure,
    sat_update]
  intro _ _ _ _
  refine ⟨⟨⟨fun _ _ => rfl,rfl,fun _ => rfl,fun _ => rfl,fun _ => rfl,fun _ => rfl,
    fun _ => rfl⟩,?_,rfl,rfl,fun _ => rfl,fun _ => rfl,rfl,rfl,?_,fun _ _ _ => rfl,
    fun _ _ => rfl⟩,⟨?_,?_,?_,?_⟩,fun _ => rfl⟩
  · intro a
    exact iff_of_false Bool.false_ne_true List.not_mem_nil
  · simp
  · split_ifs with hpos
    · exact hpos
    · exact Nat.le_refl 1
  · simp
  · simp
  · simp

def paired : Store × Book := opened (.concrete 1 1000 [9]) 9 2 100 7 "oracle"

theorem paired_agrees : Agrees paired.1 paired.2 := opened_agrees (by decide +kernel)

/-- Both sources submit, one is removed under the same quorum and again with a lower one. -/
def thinning : List BookTx :=
  [⟨.concrete 2 1005 [9], .registerAsset 7⟩,
    ⟨.concrete 2 1005 [9], .addSource 1 [65]⟩,
    ⟨.concrete 2 1005 [9], .addSource 2 [66]⟩,
    ⟨.concrete 3 1010 [1], .submitPrice 1 7 100 1010 1⟩,
    ⟨.concrete 4 1015 [2], .submitPrice 2 7 200 1015 1⟩,
    ⟨.concrete 5 1020 [9], .setMinSourcesRequired 1⟩,
    ⟨.concrete 6 1025 [9], .pause⟩,
    ⟨.concrete 7 1030 [1], .submitPrice 1 7 300 1030 2⟩,
    ⟨.concrete 8 1035 [9], .removeSource 2⟩]

/-- The median of both, then the price of the one that is left; the pause keeps the new price out. -/
theorem thinning_served :
    (∀ pre, pre <+: thinning → Serves (run (follow contributed) paired pre)) ∧
      (∀ y ∈ steps (follow contributed) paired thinning, y.2.Sanctioned y.1) ∧
      (run (follow contributed) paired (thinning.take 5)).2.cached 7 = some 150 ∧
      (run (follow contributed) paired thinning).2.cached 7 = some 100 := by
  have hregular : ∀ y ∈ steps (follow contributed) paired thinning, y.2.Regular y.1.2 := by
    decide +kernel
  exact ⟨(book_served paired_agrees hregular).1,(book_served paired_agrees hregular).2,
    by decide +kernel,by decide +kernel⟩

/-- One source submits, and the other, which has not, is removed when one is enough. -/
def idleRemoval : List BookTx :=
  [⟨.concrete 2 1005 [9], .registerAsset 7⟩,
    ⟨.concrete 2 1005 [9], .addSource 1 [65]⟩,
    ⟨.concrete 2 1005 [9], .addSource 2 [66]⟩,
    ⟨.concrete 3 1010 [1], .submitPrice 1 7 100 1010 1⟩,
    ⟨.concrete 4 1015 [9], .setMinSourcesRequired 1⟩,
    ⟨.concrete 5 1020 [9], .removeSource 2⟩]

/-- The third source, which has not submitted, is removed after a submission under a higher quorum. -/
def publishedRemoval : List BookTx :=
  [⟨.concrete 2 1005 [9], .registerAsset 7⟩,
    ⟨.concrete 2 1005 [9], .addSource 1 [65]⟩,
    ⟨.concrete 2 1005 [9], .addSource 2 [66]⟩,
    ⟨.concrete 2 1005 [9], .addSource 3 [67]⟩,
    ⟨.concrete 3 1010 [1], .submitPrice 1 7 100 1010 1⟩,
    ⟨.concrete 4 1015 [2], .submitPrice 2 7 200 1015 1⟩,
    ⟨.concrete 5 1020 [9], .setMinSourcesRequired 3⟩,
    ⟨.concrete 6 1025 [1], .submitPrice 1 7 300 1025 2⟩,
    ⟨.concrete 7 1030 [9], .setMinSourcesRequired 2⟩,
    ⟨.concrete 8 1035 [9], .removeSource 3⟩]

/-- Enough sources contribute at the removal, and still no price is served after it, or the one that
had been published before. -/
theorem idle_removal_unserved : Agrees paired.1 paired.2 ∧
    ((∀ y ∈ steps (follow everywhere) paired idleRemoval, y.2.Regular y.1.2) ∧
      (run (follow everywhere) paired idleRemoval).2.cached 7 = some 100 ∧
      served (.concrete 6 1025 []) (run (follow everywhere) paired idleRemoval).1 7 = none ∧
      ¬Serves (run (follow everywhere) paired idleRemoval)) ∧
    (∀ y ∈ steps (follow everywhere) paired publishedRemoval, y.2.Regular y.1.2) ∧
      (run (follow everywhere) paired publishedRemoval).2.cached 7 = some 250 ∧
      served (.concrete 9 1040 []) (run (follow everywhere) paired publishedRemoval).1 7 =
        some 150 ∧
      ¬Serves (run (follow everywhere) paired publishedRemoval) := by
  have hbook : (run (follow everywhere) paired idleRemoval).2.cached 7 = some 100 := by
    decide +kernel
  have hcontract : served (.concrete 6 1025 []) (run (follow everywhere) paired idleRemoval).1 7 =
      none := by
    decide +kernel
  have hbook' : (run (follow everywhere) paired publishedRemoval).2.cached 7 = some 250 := by
    decide +kernel
  have hcontract' : served (.concrete 9 1040 [])
      (run (follow everywhere) paired publishedRemoval).1 7 = some 150 := by
    decide +kernel
  refine ⟨paired_agrees,⟨by decide +kernel,hbook,hcontract,fun hserves => ?_⟩,
    by decide +kernel,hbook',hcontract',fun hserves => ?_⟩
  · have hsame := hserves (.concrete 6 1025 []) 7
    rw [hbook,hcontract] at hsame
    cases hsame
  · have hsame := hserves (.concrete 9 1040 []) 7
    rw [hbook',hcontract'] at hsame
    cases hsame

end Runs

end PriceOracle.Defaults
