import PriceOracle.Aggregation.Completion
import PriceOracle.Configuration.Calls
import PriceOracle.Defaults.Book
import PriceOracle.Submissions.Gates

/-! # Agreement of contract and book

The contract agrees with a book when it is at its defaults and holds what the book holds. What
leaves the regions of the book alone keeps the agreement, and a round refreshes the price of its
asset in both. -/

namespace PriceOracle.Defaults

open Lib.Transaction Lib.MachineInt Model Aggregation

/-- Accepted prices are prices of registered sources and assets; what is served is a price. -/
structure Book.Sound (b : Book) : Prop where
  quorum : 1 ≤ b.quorum
  known : b.sources ⊆ b.known
  accepted : ∀ asset source price, b.accepted asset source = some price →
    (0 < price ∧ IsI128 price) ∧ asset ∈ b.assets ∧ source ∈ b.sources
  cached : ∀ asset price, b.cached asset = some price → 0 < price ∧ asset ∈ b.assets

/-- The contract is at its defaults and holds what the book holds, but for the prices served. -/
structure Mirrors (st : Store) (b : Book) : Prop where
  default : Default st
  registered : ∀ asset, st.isRegisteredAsset asset = true ↔ asset ∈ b.assets
  assets : st.registry.assets = b.assets
  sources : st.registry.sources = b.sources
  active : ∀ source, st.registry.srcActive source = if source ∈ b.sources then some true else none
  bonds : ∀ source, st.registry.sourceBond source = none
  quorum : st.config.minSources = some b.quorum
  paused : st.isPaused = b.paused
  accepted : ∀ asset, ∀ source ∈ b.sources,
    (st.submission (asset, source)).map PriceEntry.price = b.accepted asset source
  fresh : ∀ source ∉ b.known, ∀ asset, st.submission (asset, source) = none
  patient : ∀ source, source ∈ b.sources ∨ source ∉ b.known →
    st.heartbeats.missedHeartbeats source = none

/-- The contract is at its defaults and holds what the book holds. -/
structure Agrees (st : Store) (b : Book) : Prop extends Mirrors st b where
  sound : b.Sound
  cached : ∀ asset, (st.aggregate asset).map AggregatePrice.price = b.cached asset

/-- The regions a book is about, but for the aggregates. -/
def bookRegions : List Region :=
  [.flags, .config, .gates, .registry, .heartbeats, .submissions, .overrides]

section Frames

variable {w w' : World} {b : Book} {T : List Region}

theorem default_of_agreeOff (h : Default w.store) (hframe : layout.agreeOff T w w')
    (hT : ∀ r ∈ [Region.flags,.config,.gates,.overrides], r ∉ T) : Default w'.store := by
  have hflags : w'.store.flags = w.store.flags := hframe .flags (hT _ (by simp))
  have hconfig : w'.store.config = w.store.config := hframe .config (hT _ (by simp))
  have hgates : w'.store.gates = w.store.gates := hframe .gates (hT _ (by simp))
  have hoverrides : w'.store.overrides = w.store.overrides := hframe .overrides (hT _ (by simp))
  refine ⟨fun f hf => ?_,?_,fun a => ?_,fun a => ?_,fun a => ?_,fun a => ?_,fun a => ?_⟩
  · rw [Store.on,hflags]
    exact h.flags f hf
  · rw [Store.getAggregationMethod,hconfig]
    exact h.method
  · rw [Store.getAssetResolution,Store.getResolution,hconfig]
    exact h.resolution a
  · rw [Store.priceBoundsOf,hgates]
    exact h.bounds a
  · rw [Store.isCircuitBreakerTripped,hgates]
    exact h.breaker a
  · rw [hgates]
    exact h.whitelists a
  · rw [hoverrides]
    exact h.overrides a

/-- Without the regions of the book nothing of it changes. -/
theorem Mirrors.of_agreeOff (h : Mirrors w.store b) (hframe : layout.agreeOff T w w')
    (hT : ∀ r ∈ bookRegions, r ∉ T) : Mirrors w'.store b := by
  have hregistry := hframe .registry (hT _ (by simp [bookRegions]))
  have hregistered : w'.store.isRegisteredAsset = w.store.isRegisteredAsset :=
    congrArg Prod.fst hregistry
  have hassets : w'.store.registry.assets = w.store.registry.assets :=
    congrArg (fun x => x.2.1) hregistry
  have hsources : w'.store.registry.sources = w.store.registry.sources :=
    congrArg (fun x => x.2.2.1) hregistry
  have hactive : w'.store.registry.srcActive = w.store.registry.srcActive :=
    congrArg (fun x => x.2.2.2.1) hregistry
  have hbonds : w'.store.registry.sourceBond = w.store.registry.sourceBond :=
    congrArg (fun x => x.2.2.2.2) hregistry
  have hconfig : w'.store.config = w.store.config := hframe .config (hT _ (by simp [bookRegions]))
  have hgates : w'.store.gates = w.store.gates := hframe .gates (hT _ (by simp [bookRegions]))
  have hflags : w'.store.flags = w.store.flags := hframe .flags (hT _ (by simp [bookRegions]))
  have hsubmission : w'.store.submission = w.store.submission :=
    congrArg Prod.fst (hframe .submissions (hT _ (by simp [bookRegions])))
  have hheartbeats : w'.store.heartbeats = w.store.heartbeats :=
    hframe .heartbeats (hT _ (by simp [bookRegions]))
  refine ⟨default_of_agreeOff h.default hframe fun r hr => hT r ?_,?_,?_,?_,?_,?_,?_,?_,?_,?_,?_⟩
  · revert hr
    simp only [bookRegions,List.mem_cons]
    tauto
  · rw [hregistered]
    exact h.registered
  · rw [hassets]
    exact h.assets
  · rw [hsources]
    exact h.sources
  · rw [hactive]
    exact h.active
  · rw [hbonds]
    exact h.bonds
  · rw [hconfig]
    exact h.quorum
  · rw [Store.isPaused,Store.on,hflags,hgates]
    exact h.paused
  · rw [hsubmission]
    exact h.accepted
  · rw [hsubmission]
    exact h.fresh
  · rw [hheartbeats]
    exact h.patient

theorem Agrees.of_agreeOff (h : Agrees w.store b) (hframe : layout.agreeOff T w w')
    (hT : ∀ r ∈ .aggregates :: bookRegions, r ∉ T) : Agrees w'.store b := by
  have haggregate : w'.store.aggregate = w.store.aggregate :=
    congrArg Prod.fst (hframe .aggregates (hT _ (by simp)))
  refine ⟨h.toMirrors.of_agreeOff hframe fun r hr => hT r (List.mem_cons_of_mem _ hr),h.sound,?_⟩
  rw [haggregate]
  exact h.cached

theorem Agrees.of_frame {α : Type} {m : Contract α} (h : Agrees w.store b) (hm : Frame T m)
    (hT : ∀ r ∈ .aggregates :: bookRegions, r ∉ T) : Sat m w fun _ w' => Agrees w'.store b :=
  (hm w).mono fun _ _ hframe => h.of_agreeOff hframe hT

end Frames

section Rounds

variable {w : World} {st : Store} {b : Book}

theorem Mirrors.contributions (h : Mirrors st b) (asset : Address) :
    (entries st asset).map (fun x => x.2.price) = b.contributions asset := by
  unfold entries Store.storedBy Book.contributions
  rw [List.filter_true,List.map_filterMap,h.sources]
  refine List.filterMap_congr fun source hsource => ?_
  rw [← h.accepted asset source hsource]
  cases st.submission (asset,source) <;> rfl

theorem Book.Sound.contributions (h : b.Sound) {asset : Address} :
    ∀ p ∈ b.contributions asset, 0 < p ∧ IsI128 p := by
  intro p hp
  obtain ⟨source,-,hprice⟩ := List.mem_filterMap.1 hp
  exact (h.accepted asset source p hprice).1

/-- What the next round decides is what the book would be refreshed to. -/
theorem Agrees.decision (h : Agrees st b) (env : Env) (asset : Address) :
    ((st.decision env asset).map Decision.price).or (b.cached asset) = b.refreshed asset := by
  have hcontributions := h.contributions asset
  have hlength : (entries st asset).length = (b.contributions asset).length := by
    rw [← hcontributions,List.length_map]
  have hempty : entries st asset ≠ [] ↔ (b.contributions asset).length ≠ 0 := by
    rw [← hlength,ne_eq,ne_eq,List.length_eq_zero_iff]
  have hquorum := h.sound.quorum
  rw [h.default.decision,h.quorum,hcontributions,
    Pricing.computeMedian_eq h.sound.contributions,Option.getD_some]
  simp only [hempty,hlength]
  unfold Book.refreshed
  split_ifs with hboth henough henough
  · rfl
  · exact absurd hboth.1 henough
  · exact absurd ⟨henough,by omega⟩ hboth
  · rfl

theorem Mirrors.recache (h : Mirrors st b) (cached : Address → Option Int) :
    Mirrors st { b with cached := cached } :=
  ⟨h.default,h.registered,h.assets,h.sources,h.active,h.bonds,h.quorum,h.paused,h.accepted,
    h.fresh,h.patient⟩

/-- A refreshed price is the median of prices, or it was served before. -/
theorem Book.Sound.refreshed (h : b.Sound) (asset : Address) {price : Int}
    (hprice : b.refreshed asset = some price) : 0 < price ∧ asset ∈ b.assets := by
  unfold Book.refreshed at hprice
  split_ifs at hprice with henough
  · have hne : b.contributions asset ≠ [] := by
      intro hnil
      rw [hnil] at henough
      exact absurd (h.quorum.trans henough) (by simp)
    obtain ⟨p,hp⟩ := List.exists_mem_of_ne_nil _ hne
    obtain ⟨source,-,haccepted⟩ := List.mem_filterMap.1 hp
    cases hprice
    exact ⟨(Pricing.median_price hne h.contributions).1,(h.accepted asset source p haccepted).2.1⟩
  · exact h.cached asset price hprice

theorem Book.Sound.refresh (h : b.Sound) (asset : Address) : (b.refresh asset).Sound where
  quorum := h.quorum
  known := h.known
  accepted := h.accepted
  cached a price hprice := by
    rw [Book.refresh_cached] at hprice
    split_ifs at hprice with ha
    · rw [ha]
      exact h.refreshed asset hprice
    · exact h.cached a price hprice

/-- A round refreshes the price of its asset. -/
theorem round_agrees (h : Agrees w.store b) (asset : Address) (decimals : Nat)
    (recompute : Bool) : Sat (aggregateAssetMode asset w.env.sequence decimals recompute) w
      fun _ w' => Agrees w'.store (b.refresh asset) := by
  have hdecision := h.decision w.env asset
  refine (decideRound_decision asset w).andThen fun d v hv => ?_
  obtain ⟨rfl,hquiet⟩ := hv
  have hv : Agrees v.store b := h.of_agreeOff hquiet (by decide)
  cases hd : w.store.decision w.env asset with
  | none =>
    rw [hd] at hdecision
    have hsame : b.refresh asset = b := by
      rw [Book.refresh,← hdecision]
      change { b with cached := Function.update b.cached asset (b.cached asset) } = b
      rw [Function.update_eq_self]
    rw [hsame]
    exact (sat_pure _).2 hv
  | some d =>
    rw [hd] at hdecision
    refine ((commitRound_sat asset _ decimals recompute d v).and
      (commitRound_frame asset _ decimals recompute d v)).mono fun _ u hu => ?_
    obtain ⟨⟨pub,-,-,hcommitted⟩,hframe⟩ := hu
    refine ⟨(hv.toMirrors.of_agreeOff hframe (by decide)).recache _,h.sound.refresh asset,
      fun a => ?_⟩
    rw [hcommitted.aggregate,Book.refresh_cached,← hdecision]
    split_ifs with ha
    · rw [ha,Function.update_self]
      rfl
    · rw [Function.update_of_ne ha]
      exact hv.cached a

end Rounds

end PriceOracle.Defaults

/-! ## The administrator's calls

Registration of assets and sources, the quorum and the pause, each with what it does to the book. -/

namespace PriceOracle.Defaults

open Lib.Transaction Lib.MachineInt Model Aggregation

section Steps

variable {w : World} {b : Book}

theorem asAdmin_agrees {α : Type} {body : Contract α} {Q : α → World → Prop} (h : Agrees w.store b)
    (hbody : ∀ t : World, Agrees t.store b → Sat body t Q) : Sat (asAdmin body) w Q := by
  refine (sat_asAdmin Q).2 fun admin _ _ => hbody _ (h.of_agreeOff (T := [.auths]) ?_ (by decide))
  intro r hr
  cases r <;> first | rfl | simp at hr

theorem registerAsset_agrees (h : Agrees w.store b) (asset : Address) :
    Sat (registerAsset asset) w fun _ w' => Agrees w'.store (b.register asset) := by
  refine asAdmin_agrees h fun t ht => ?_
  simp only [initializeAssetPriceBounds,modifyGates,sat_bind,sat_readStore,sat_ensure,sat_update]
  intro _ _
  have hindex (a : Address) :
      Store.isRegisteredAsset { t.store with registry := t.store.registry.register asset } a =
        (decide (a = asset) || t.store.isRegisteredAsset a) := by
    unfold Store.isRegisteredAsset Registry.register
    by_cases ha : a = asset
    · simp [ha]
    · simp [ha]
  refine ⟨⟨⟨ht.default.flags,ht.default.method,ht.default.resolution,fun a => ?_,fun a => ?_,
    ht.default.whitelists,ht.default.overrides⟩,fun a => ?_,?_,ht.sources,ht.active,ht.bonds,
    ht.quorum,ht.paused,ht.accepted,ht.fresh,ht.patient⟩,⟨ht.sound.quorum,ht.sound.known,
    fun a s p hp => ?_,fun a p hp => ?_⟩,ht.cached⟩
  · have hbounds := ht.default.bounds a
    unfold Store.priceBoundsOf at hbounds ⊢
    dsimp only
    rw [Function.update_apply]
    split_ifs
    · rfl
    · exact hbounds
  · have hbreaker := ht.default.breaker a
    unfold Store.isCircuitBreakerTripped at hbreaker ⊢
    dsimp only
    rw [Function.update_apply]
    split_ifs
    · rfl
    · exact hbreaker
  · change Store.isRegisteredAsset { t.store with registry := t.store.registry.register asset } a =
      true ↔ a ∈ b.assets ++ [asset]
    rw [hindex,Bool.or_eq_true,decide_eq_true_eq,ht.registered,List.mem_append,
      List.mem_singleton,or_comm]
  · change t.store.registry.assets ++ [asset] = b.assets ++ [asset]
    rw [ht.assets]
  · obtain ⟨hprice,hasset,hsource⟩ := ht.sound.accepted a s p hp
    exact ⟨hprice,List.mem_append_left _ hasset,hsource⟩
  · exact ⟨(ht.sound.cached a p hp).1,List.mem_append_left _ (ht.sound.cached a p hp).2⟩

/-- A source that is new to the contract has nothing stored. -/
theorem addSource_agrees (h : Agrees w.store b) {source : Address} (hnew : source ∉ b.known)
    (name : Text) :
    Sat (addSource source name) w fun _ w' => Agrees w'.store (b.enroll source) := by
  have hout : source ∉ b.sources := fun hin => hnew (h.sound.known hin)
  refine asAdmin_agrees h fun t ht => ?_
  simp only [registerSourceInternal,checkNotRevoked,checkSourceName,modifyRegistry,
    modifySources,sat_bind,sat_readStore,sat_ensure,sat_update]
  intro _ _ _ _ _ _
  have hunlisted : source ∉ t.store.registry.sources := by rwa [ht.sources]
  have hunstored (asset : Address) : b.accepted asset source = none := by
    cases haccepted : b.accepted asset source with
    | none => rfl
    | some p => exact absurd (ht.sound.accepted asset source p haccepted).2.2 hout
  have hkept : (t.store.registry.addSource source).sources =
        t.store.registry.sources ++ [source] ∧
      (t.store.registry.addSource source).srcActive =
        Function.update t.store.registry.srcActive source (some true) ∧
      (t.store.registry.addSource source).assets = t.store.registry.assets ∧
      (t.store.registry.addSource source).sourceBond = t.store.registry.sourceBond ∧
      (t.store.registry.addSource source).assetIndex = t.store.registry.assetIndex ∧
      (t.store.registry.addSource source).assetRegistered =
        t.store.registry.assetRegistered := by
    unfold Registry.addSource
    rw [dif_neg hunlisted]
    exact ⟨rfl,rfl,rfl,rfl,rfl,rfl⟩
  obtain ⟨hlisted,hactive,hassets,hbonds,hindex,hregistered⟩ := hkept
  rw [ht.sources] at hlisted
  refine ⟨⟨⟨ht.default.flags,ht.default.method,ht.default.resolution,ht.default.bounds,
    ht.default.breaker,ht.default.whitelists,ht.default.overrides⟩,fun a => ?_,?_,hlisted,
    fun s => ?_,?_,ht.quorum,ht.paused,fun a s hs => ?_,fun s hs => ?_,fun s hs => ?_⟩,
    ⟨ht.sound.quorum,?_,fun a s p hp => ?_,ht.sound.cached⟩,ht.cached⟩
  · have hcode := ht.registered a
    unfold Store.isRegisteredAsset at hcode ⊢
    rw [hindex,hregistered]
    exact hcode
  · exact hassets.trans ht.assets
  · rw [hactive,Function.update_apply,ht.active]
    unfold Book.enroll
    by_cases hs : s = source
    · simp [hs]
    · simp [hs]
  · rw [hbonds]
    exact ht.bonds
  · rcases List.mem_append.1 hs with hs | hs
    · exact ht.accepted a s hs
    · rw [List.mem_singleton.1 hs]
      change Option.map PriceEntry.price (t.store.submission (a,source)) = b.accepted a source
      rw [hunstored a,ht.fresh source hnew a]
      rfl
  · exact ht.fresh s fun hin => hs (List.mem_append_left _ hin)
  · rcases hs with hs | hs
    · rcases List.mem_append.1 hs with hs | hs
      · exact ht.patient s (.inl hs)
      · rw [List.mem_singleton.1 hs]
        exact ht.patient source (.inr hnew)
    · exact ht.patient s (.inr fun hin => hs (List.mem_append_left _ hin))
  · intro s hs
    rcases List.mem_append.1 hs with hs | hs
    · exact List.mem_append_left _ (ht.sound.known hs)
    · exact List.mem_append_right _ hs
  · obtain ⟨hprice,hasset,hsource⟩ := ht.sound.accepted a s p hp
    exact ⟨hprice,hasset,List.mem_append_left _ hsource⟩

/-- A snapshot of the configuration leaves its settings alone. -/
theorem snapshotBeforeChange_agrees (h : Agrees w.store b) :
    Sat snapshotBeforeChange w fun _ w' => Agrees w'.store b := by
  unfold snapshotBeforeChange captureCurrent modifyConfig
  simp only [sat_bind,sat_readStore]
  refine (getMinSourcesRequired_frame (T := []) w).mono fun minSources t hwt => ?_
  have ht : Agrees t.store b := h.of_agreeOff hwt (by decide)
  simp only [sat_update]
  obtain ⟨index,snapshot,heq,-⟩ := Configuration.storeSnapshot_eq t.store.config
    (t.store.capture t.env w.store.config.nextVersion minSources)
  rw [heq]
  exact ⟨⟨⟨ht.default.flags,ht.default.method,ht.default.resolution,ht.default.bounds,
    ht.default.breaker,ht.default.whitelists,ht.default.overrides⟩,ht.registered,ht.assets,
    ht.sources,ht.active,ht.bonds,ht.quorum,ht.paused,ht.accepted,ht.fresh,ht.patient⟩,
    ht.sound,ht.cached⟩

theorem setMinSourcesRequired_agrees (h : Agrees w.store b) (newMin : Nat) :
    Sat (setMinSourcesRequired newMin) w fun _ w' =>
      Agrees w'.store { b with quorum := newMin } := by
  refine asAdmin_agrees h fun t ht => ?_
  simp only [configure,sat_bind,sat_ensure,sat_readStore]
  intro hnew _
  refine (snapshotBeforeChange_agrees ht).mono fun _ u hu => ?_
  simp only [List.forM_nil,sat_pure,modifyConfig,sat_update]
  exact ⟨⟨⟨hu.default.flags,hu.default.method,hu.default.resolution,hu.default.bounds,
    hu.default.breaker,hu.default.whitelists,hu.default.overrides⟩,hu.registered,hu.assets,
    hu.sources,hu.active,hu.bonds,rfl,hu.paused,hu.accepted,hu.fresh,hu.patient⟩,
    ⟨Nat.pos_of_ne_zero hnew.1,hu.sound.known,hu.sound.accepted,hu.sound.cached⟩,hu.cached⟩

/-- The pause is the one feature whose flag may go up. -/
theorem Agrees.setPause {st : Store} (h : Agrees st b) {flags : FeatureFlag → Bool}
    (hflags : ∀ f, f ≠ .pause → flags f = false) {paused : Bool}
    (hon : paused = true → flags .pause = true) :
    Agrees { st with flags := flags, gates := { st.gates with pauseFlag := some paused } }
      { b with paused := paused } := by
  refine ⟨⟨⟨hflags,h.default.method,h.default.resolution,h.default.bounds,h.default.breaker,
    h.default.whitelists,h.default.overrides⟩,h.registered,h.assets,h.sources,h.active,
    h.bonds,h.quorum,?_,h.accepted,h.fresh,h.patient⟩,
    ⟨h.sound.quorum,h.sound.known,h.sound.accepted,h.sound.cached⟩,h.cached⟩
  change (flags .pause && paused) = paused
  cases paused with
  | false => rw [Bool.and_false]
  | true => rw [hon rfl,Bool.and_true]

theorem pause_agrees (h : Agrees w.store b) :
    Sat pause w fun _ w' => Agrees w'.store { b with paused := true } := by
  refine asAdmin_agrees h fun t ht => ?_
  refine (snapshotBeforeChange_agrees ht).andThen fun _ u hu => ?_
  simp only [mark,modifyGates,sat_bind,sat_update]
  split_ifs with hon
  · exact hu.setPause hu.default.flags fun _ => hon
  · have hflags (f : FeatureFlag) (hf : f ≠ .pause) :
        Function.update u.store.flags .pause true f = false := by
      rw [Function.update_of_ne hf]
      exact hu.default.flags f hf
    exact hu.setPause hflags fun _ => Function.update_self .pause true u.store.flags

theorem unpause_agrees (h : Agrees w.store b) :
    Sat unpause w fun _ w' => Agrees w'.store { b with paused := false } := by
  refine asAdmin_agrees h fun t ht => ?_
  refine (snapshotBeforeChange_agrees ht).andThen fun _ u hu => ?_
  simp only [modifyGates,sat_update]
  exact hu.setPause hu.default.flags (by simp)

end Steps

end PriceOracle.Defaults
