import PriceOracle.Sources.Holdings

/-! # The ways out of the registry

A source can leave by five ways. Each should settle its bond once and leave nothing behind that
counts if the address comes back; what each of them does, and when that is enough. -/

namespace PriceOracle.Sources

open Lib.Transaction Model Aggregation

section Loops

variable {w u : World} {sources : List Address}

theorem Polled.judged {asked settled : List Address} {source : Address} (hflagged : Flagged w.store)
    (h : Polled asked settled w u) (hsource : source ∉ asked) :
    judged u.env u.store source = judged w.env w.store source := by
  have hwatch : Sources.watch u.store source = Sources.watch w.store source := h.of_not_mem hsource
  have hmissed : u.store.getMissedHeartbeats source = w.store.getMissedHeartbeats source :=
    congrArg Watch.missed hwatch
  unfold Sources.judged
  rw [hwatch,hmissed,counts_congr hflagged h.flagged h.env h.interval h.window hwatch]

theorem removeAll_holdings (hflagged : Flagged w.store) (hnodup : sources.Nodup) :
    Sat (forM sources removeSourceInner) w fun _ w' =>
      holdings w'.store =
          (holdings w.store).removeAll w.env.host (judged w.env w.store) sources ∧
        Polled sources sources w w' := by
  induction sources generalizing w with
  | nil =>
    have hrefl : Settled [] w w := Std.Refl.refl w
    exact (sat_pure _).2 ⟨rfl,hrefl.polled hflagged⟩
  | cons source rest ih =>
    rw [List.nodup_cons] at hnodup
    rw [List.forM_cons,sat_bind]
    refine ((removeSourceInner_holdings hflagged source).and
      (removeSourceInner_sat hflagged source)).mono ?_
    rintro _ u ⟨hheld,_,hu⟩
    refine (ih hu.flagged hnodup.2).mono ?_
    rintro _ w' ⟨hrest,hw'⟩
    refine ⟨?_,?_⟩
    · rw [hrest,hheld,hu.env,Holdings.removeAll,Holdings.removeAll,List.foldl_cons]
      refine List.foldl_ext _ _ _ fun h a ha => ?_
      have hother : a ∉ [source] := by
        rw [List.mem_singleton]
        rintro rfl
        exact hnodup.1 ha
      have hverdict := hu.judged hflagged hother
      rw [hu.env] at hverdict
      unfold Holdings.remove
      rw [h.settle_congr hverdict]
    · refine hu.trans hflagged hw' fun a ha => ?_
      rw [List.mem_singleton.1 ha]
      exact hnodup.1

theorem removeAll_completes (hconfigured : Configured w)
    (hsigned : w.store.adminSigns w.env = true) (hflagged : Flagged w.store)
    (hnodup : sources.Nodup) (hknown : ∀ source ∈ sources,
      (w.store.registry.srcActive source).isSome = true) :
    Fails (forM sources removeSourceInner) w fun _ _ => False := by
  induction sources generalizing w with
  | nil => exact fails_pure _
  | cons source rest ih =>
    rw [List.nodup_cons] at hnodup
    rw [List.forall_mem_cons] at hknown
    rw [List.forM_cons,fails_bind]
    refine ⟨removeSourceInner_completes source hconfigured hsigned hknown.1,?_⟩
    refine ((removeSourceInner_holdings hflagged source).and
      (removeSourceInner_sat hflagged source)).mono ?_
    rintro _ u ⟨hheld,_,hu⟩
    have hadmin : u.store.config.admin = w.store.config.admin := congrArg Holdings.admin hheld
    have hmin : u.store.config.minSources = w.store.config.minSources :=
      congrArg Holdings.minSources hheld
    have hactive : u.store.registry.srcActive =
        Function.update w.store.registry.srcActive source none := congrArg Holdings.active hheld
    refine ih ?_ ?_ hu.flagged hnodup.2 fun a ha => ?_
    · rw [Configured,hmin]
      exact hconfigured
    · rw [Store.adminSigns,hadmin,hu.env]
      exact hsigned
    · rw [hactive,Function.update_of_ne]
      · exact hknown.2 a ha
      · rintro rfl
        exact hnodup.1 ha

end Loops

section Paths

variable {w : World} {source : Address} {sources : List Address}

theorem Settled.judged {settled : List Address} {u : World}
    (hflagged : Flagged w.store) (h : Settled settled w u) :
    judged u.env u.store source = judged w.env w.store source :=
  (h.polled hflagged).judged hflagged List.not_mem_nil

theorem removeSource_holdings (hflagged : Flagged w.store)
    (hknown : (w.store.registry.srcActive source).isSome = true) :
    Sat (removeSource source) w fun _ w' => holdings w'.store =
      (holdings w.store).removeAll w.env.host (judged w.env w.store) [source] := by
  refine (sat_asAdmin _).2 fun admin _ _ => ?_
  simp only [sat_bind,sat_readStore,authorizedBy_store,modifySources,sat_update]
  refine sat_ite _ (fun hunknown => ?_) fun _ => ?_
  · rw [hknown] at hunknown
    cases hunknown.2
  rw [sat_bind]
  refine (removeSourceInner_holdings ?_ source).mono fun _ u hu => ?_
  · exact hflagged
  · exact (recomputeSourceChange_holdings source u).mono fun _ w' hw' => Eq.trans hw' hu

theorem removeSource_completes (hconfigured : Configured w)
    (hsigned : w.store.adminSigns w.env = true) (hflagged : Flagged w.store)
    (hknown : (w.store.registry.srcActive source).isSome = true) :
    Fails (removeSource source) w fun _ _ => False := by
  refine completes_asAdmin hsigned fun admin => ?_
  refine fails_ite _ (fun _ => fails_pure _) fun _ => (fails_bind _).2 ?_
  refine ⟨removeSourceInner_completes source hconfigured hsigned hknown,?_⟩
  refine Sat.mono (Q := fun _ u => Configured u) ?_ fun _ u hu =>
    (recomputeSourceChange_succeeds source).fails hu _
  refine (removeSourceInner_holdings ?_ source).mono fun _ u hu => ?_
  · exact hflagged
  · have hmin : u.store.config.minSources = w.store.config.minSources :=
      congrArg Holdings.minSources hu
    rw [Configured,hmin]
    exact hconfigured

theorem removeSources_holdings (hflagged : Flagged w.store) (hnodup : sources.Nodup) :
    Sat (removeSources sources) w fun _ w' => holdings w'.store =
      (holdings w.store).removeAll w.env.host (judged w.env w.store) sources ∧
        Flagged w'.store := by
  refine (sat_asAdmin _).2 fun admin _ _ => ?_
  simp only [sat_bind,sat_ensure]
  intro _
  refine (removeAll_holdings (w := w.authorizedBy admin) hflagged hnodup).mono ?_
  rintro _ u ⟨hheld,hu⟩
  have hrest : Preserves (Settled []) recomputeAll := recomputeAll_settled
  refine ((recomputeAll_holdings u).and (hrest u)).mono ?_
  rintro _ w' ⟨hw',hsettled⟩
  refine ⟨?_,?_⟩
  · exact Eq.trans hw' hheld
  · exact (hsettled.polled hu.flagged).flagged

theorem removeSources_completes (hconfigured : Configured w)
    (hsigned : w.store.adminSigns w.env = true) (hflagged : Flagged w.store)
    (hnodup : sources.Nodup) (hne : sources ≠ []) (hknown : ∀ source ∈ sources,
      (w.store.registry.srcActive source).isSome = true) :
    Fails (removeSources sources) w fun _ _ => False := by
  refine completes_asAdmin hsigned fun admin => ?_
  rw [fails_bind,fails_ensure,sat_ensure]
  refine ⟨fun h => h hne,fun _ => (fails_bind _).2 ⟨?_,?_⟩⟩
  · exact removeAll_completes (w := w.authorizedBy admin) hconfigured hsigned hflagged hnodup hknown
  · refine (removeAll_holdings (w := w.authorizedBy admin) hflagged hnodup).mono ?_
    rintro _ u ⟨hheld,-⟩
    refine recomputeAll_succeeds.fails ?_ _
    have hmin : u.store.config.minSources = w.store.config.minSources := by
      have hheld' := congrArg Holdings.minSources hheld
      rwa [(Holdings.removeAll_kept ..).2.2.2.2.2.2] at hheld'
    rw [Configured,hmin]
    exact hconfigured

theorem markSourceForRemoval_fails (hlegacy : w.store.sources.legacySource source = false) :
    Sat (markSourceForRemoval source) w fun _ _ => False := by
  refine (sat_asAdmin _).2 fun admin _ _ => ?_
  rw [sat_bind,sat_readStore,sat_bind,sat_ensure]
  intro hknown
  have hstored : w.store.sources.legacySource source = true := hknown
  rw [hlegacy] at hstored
  cases hstored

/-- What the automatic removal does with a source; the marks of the others stay. -/
theorem removeSourceInternal_sat (hflagged : Flagged w.store) (source : Address) :
    Sat (removeSourceInternal source) w fun _ w' =>
      holdings w'.store = (holdings w.store).prune source ∧ Flagged w'.store ∧
        ∀ a, a ≠ source → w'.store.isSourceInactive a = w.store.isSourceInactive a := by
  simp only [removeSourceInternal,unlistSource,modifyRegistry,modifySources,modifyStats,
    removeOptional,sat_bind,sat_update,modifyHeartbeats]
  refine ⟨rfl,fun a ha => ?_,fun a ha => ?_⟩
  · by_cases hself : a = source
    · rw [hself] at ha
      simp [watch,RemovedKey.write] at ha
    · refine hflagged a ?_
      simpa [watch,RemovedKey.write,hself] using ha
  · simp [Store.isSourceInactive,Store.on,RemovedKey.write,ha]

theorem activeCount_filter {st st' : Store}
    (hsources : st'.registry.sources = st.registry.sources.filter fun a => a ≠ source)
    (hinactive : st.isSourceInactive source = true)
    (hothers : ∀ a, a ≠ source → st'.isSourceInactive a = st.isSourceInactive a) :
    st'.activeCount = st.activeCount := by
  unfold Store.activeCount
  rw [hsources,List.filter_filter]
  congr 1
  refine List.filter_congr fun a _ => ?_
  by_cases ha : a = source
  · simp [ha,hinactive]
  · simp [ha,hothers a ha]

theorem pruneCandidates_sat {minRequired : Nat} (count : Nat)
    (hflagged : Flagged w.store) (hnodup : sources.Nodup)
    (hinactive : ∀ source ∈ sources, w.store.isSourceInactive source = true)
    (henough : minRequired ≤ w.store.activeCount) :
    Sat (pruneCandidates minRequired sources count) w fun _ w' =>
      holdings w'.store = sources.foldl Holdings.prune (holdings w.store) ∧ Flagged w'.store := by
  induction sources generalizing w count with
  | nil => exact (sat_pure _).2 ⟨rfl,hflagged⟩
  | cons source rest ih =>
    rw [List.nodup_cons] at hnodup
    rw [List.forall_mem_cons] at hinactive
    rw [pruneCandidates,sat_bind,sat_readStore]
    refine sat_ite _ (fun hfew => absurd hfew (by omega)) fun _ => ?_
    refine (removeSourceInternal_sat hflagged source).andThen ?_
    rintro _ u ⟨hheld,hu,hothers⟩
    have hcount : u.store.activeCount = w.store.activeCount :=
      activeCount_filter (congrArg Holdings.listed hheld) hinactive.1 hothers
    refine (ih _ hu hnodup.2 (fun a ha => ?_) (by omega)).mono ?_
    · rw [hothers a fun hself => hnodup.1 (hself ▸ ha)]
      exact hinactive.2 a ha
    · rintro _ w' ⟨hrest,hw'⟩
      refine ⟨?_,hw'⟩
      rw [hrest,hheld,List.foldl_cons]

theorem pruneCandidates_succeeds (minRequired count : Nat) (sources : List Address) :
    Succeeds Configured (pruneCandidates minRequired sources count) := by
  induction sources generalizing count with
  | nil => exact succeeds_pure _
  | cons source rest ih =>
    refine .read fun active => succeeds_ite _ (succeeds_pure _) ?_
    have hunlist : Succeeds Configured (unlistSource source) :=
      Succeeds.bind (succeeds_update fun _ hw => hw) fun _ => succeeds_update fun _ hw => hw
    refine Succeeds.bind ?_ fun _ => ih (count+1)
    exact Succeeds.bind (succeeds_update fun _ hw => hw) fun _ => hunlist.bind fun _ =>
      Succeeds.bind (succeeds_update fun _ hw => hw) fun _ =>
      Succeeds.bind (succeeds_update fun _ hw => hw) fun _ => succeeds_update fun _ hw => hw

theorem prunable_inactive {env : Env} {st : Store}
    (h : source ∈ st.prunable env) : st.isSourceInactive source = true := by
  rw [Store.prunable,List.mem_filter,Bool.and_eq_true] at h
  exact h.2.1

/-- With enough active sources, every source that has been inactive for too long goes. -/
theorem checkAndPrune_sat (hflagged : Flagged w.store) (henough : ∀ minRequired,
      w.store.config.minSources = some minRequired → minRequired ≤ w.store.activeCount) :
    Sat checkAndPruneInactiveSources w fun _ w' =>
      holdings w'.store = (w.store.prunable w.env).foldl Holdings.prune (holdings w.store) ∧
        Flagged w'.store := by
  have hmin : Sat getMinSourcesRequired w fun minRequired w' =>
      w.store.config.minSources = some minRequired ∧ w' = w :=
    sat_lookup (by cases w.store.config.minSources <;> rfl)
  refine hmin.andThen ?_
  rintro minRequired t ⟨hstored,ht⟩
  rw [ht,sat_bind,sat_readStore]
  exact pruneCandidates_sat 0 hflagged (w.store.registry.sources_nodup.filter _)
    (fun _ => prunable_inactive) (henough minRequired hstored)

theorem checkAndPrune_completes (hconfigured : Configured w) :
    Fails checkAndPruneInactiveSources w fun _ _ => False := by
  refine Succeeds.fails (I := Configured) ?_ hconfigured _
  refine Succeeds.bind (succeeds_consult fun w hw => ?_) fun minRequired => .read fun candidates =>
    pruneCandidates_succeeds minRequired 0 candidates
  obtain ⟨n,hn⟩ := Option.isSome_iff_exists.1 hw
  exact ⟨n,by rw [hn]⟩

end Paths

section Offboarding

variable {w u : World} {source : Address} {assets : List Address} {next : Contract Unit}

/-- Nothing that a settlement or a verdict depends on changes. -/
structure Undisturbed (w u : World) : Prop where
  env : u.env = w.env
  ledger : ledger u.store = ledger w.store
  listed : u.store.registry.sources = w.store.registry.sources
  active : u.store.registry.srcActive = w.store.registry.srcActive
  legacySource : u.store.sources.legacySource = w.store.sources.legacySource
  pendingRemoval : u.store.sources.pendingRemoval = w.store.sources.pendingRemoval
  admin : u.store.config.admin = w.store.config.admin
  minSources : u.store.config.minSources = w.store.config.minSources
  marks : u.store.config.sourceInactive = w.store.config.sourceInactive
  flag : u.store.on .sourceInactive = w.store.on .sourceInactive
  interval : u.store.getHeartbeatInterval = w.store.getHeartbeatInterval
  window : u.store.getHeartbeatWindow = w.store.getHeartbeatWindow
  heartbeats : u.store.heartbeats = w.store.heartbeats

instance : Std.Refl Undisturbed :=
  ⟨fun _ => ⟨rfl, rfl, rfl, rfl, rfl, rfl, rfl, rfl, rfl, rfl, rfl, rfl, rfl⟩⟩

instance : IsTrans World Undisturbed :=
  ⟨fun _ _ _ h h' => ⟨h'.env.trans h.env, h'.ledger.trans h.ledger, h'.listed.trans h.listed,
    h'.active.trans h.active,
    h'.legacySource.trans h.legacySource, h'.pendingRemoval.trans h.pendingRemoval,
    h'.admin.trans h.admin, h'.minSources.trans h.minSources, h'.marks.trans h.marks,
    h'.flag.trans h.flag, h'.interval.trans h.interval, h'.window.trans h.window,
    h'.heartbeats.trans h.heartbeats⟩⟩

theorem Undisturbed.watch (h : Undisturbed w u) (source : Address) :
    Sources.watch u.store source = Sources.watch w.store source := by
  simp only [Sources.watch,Store.getMissedHeartbeats,h.marks,h.heartbeats]

theorem Undisturbed.flagged (h : Undisturbed w u) (hflagged : Flagged w.store) :
    Flagged u.store := by
  intro a ha
  rw [h.watch] at ha
  rw [h.flag]
  exact hflagged a ha

theorem Undisturbed.judged (h : Undisturbed w u) (hflagged : Flagged w.store) (source : Address) :
    judged u.env u.store source = judged w.env w.store source := by
  unfold Sources.judged
  rw [h.watch,Store.getMissedHeartbeats,h.heartbeats,← Store.getMissedHeartbeats,
    counts_congr hflagged (h.flagged hflagged) h.env h.interval h.window (h.watch source)]

theorem revokeDerived_undisturbed (source asset : Address) :
    Preserves Undisturbed (revokeDerived source asset) := by
  intro w
  simp only [revokeDerived,modifySources,modifyStats,modifyRounds,sat_bind,sat_update]
  exact ⟨rfl,rfl,rfl,rfl,rfl,rfl,rfl,rfl,rfl,rfl,rfl,rfl,rfl⟩

theorem tombstone_undisturbed (source : Address) :
    Sat (tombstone source) w fun _ u =>
      Undisturbed w u ∧ u.store.sources.revokedAddress source = true := by
  simp only [tombstone,writeRecord,modifyConfig,modifySources,sat_bind,sat_readStore,sat_update]
  cases w.store.getRecord source with
  | none =>
    refine (sat_pure _).2 ⟨⟨rfl,rfl,rfl,rfl,rfl,rfl,rfl,rfl,rfl,rfl,rfl,rfl,rfl⟩,?_⟩
    exact Function.update_self ..
  | some record =>
    refine (sat_update _ _).2 ⟨⟨rfl,rfl,rfl,rfl,rfl,rfl,rfl,rfl,rfl,rfl,rfl,rfl,rfl⟩,?_⟩
    exact Function.update_self ..

/-- What the contract takes as evidence against a source. -/
def Incriminates (st : Store) (source asset : Address) : Prop :=
  ∃ entry aggregate, st.submission (asset, source) = some entry ∧
    st.aggregate asset = some aggregate ∧ 0 < aggregate.price ∧
    (st.getLifecycleConfig.slashDeviationBps : Int) <
      lifecycleDeviationBps entry.price aggregate.price

theorem slashOnEvidence_sat (host : Host) (source asset : Address) :
    Sat (slashOnEvidence source asset) w fun _ u =>
      holdings u.store = (holdings w.store).settle host (fun _ => true) source ∧
        Settled [source] w u := by
  simp only [slashOnEvidence,requireStored,sat_bind,sat_consult,sat_readStore,sat_ensure]
  intro entry _ aggregate _ _ _
  exact (forfeitSourceBondInternal_holdings host source).and
    (forfeitSourceBondInternal_settled source w)

theorem slashOnEvidence_completes {source asset : Address} (hconfigured : Configured w)
    (h : Incriminates w.store source asset) :
    Fails (slashOnEvidence source asset) w fun _ _ => False := by
  obtain ⟨entry,aggregate,hentry,haggregate,hprice,hdeviation⟩ := h
  have hbond := (forfeitSourceBondInternal_succeeds source).fails hconfigured fun _ _ => False
  simp only [slashOnEvidence,requireStored,fails_bind,fails_consult,sat_consult,
    fails_readStore,sat_readStore,fails_ensure,sat_ensure,hentry,haggregate]
  simp [hprice,hdeviation,hbond]

theorem clearance_sat {Q : Unit → World → Prop} (hnext : ∀ u, Undisturbed w u →
      u.store.sources.revokedAddress source = true → Sat next u Q) : Sat (do
      forM assets (revokeDerived source)
      modifyCustody fun c => { c with reputation := Function.update c.reputation source (some 0) }
      tombstone source
      next) w Q := by
  have hreputation : Preserves Undisturbed (modifyCustody fun c => { c with
      reputation := Function.update c.reputation source (some 0) }) :=
    preserves_update fun _ => ⟨rfl,rfl,rfl,rfl,rfl,rfl,rfl,rfl,rfl,rfl,rfl,rfl,rfl⟩
  have hassets : Preserves Undisturbed (forM assets (revokeDerived source)) :=
    preserves_forM fun asset _ => revokeDerived_undisturbed source asset
  refine (hassets w).andThen fun _ t ht => (hreputation.from ht).andThen fun _ u hu => ?_
  refine (tombstone_undisturbed source).andThen ?_
  rintro _ v ⟨hv,hrevoked⟩
  exact hnext v (IsTrans.trans w u v hu hv) hrevoked

theorem clearance_fails
    {E : ErrorCode → World → Prop} (hnext : ∀ u, Undisturbed w u → Fails next u E) : Fails (do
      forM assets (revokeDerived source)
      modifyCustody fun c => { c with reputation := Function.update c.reputation source (some 0) }
      tombstone source
      next) w E := by
  have hupdate (f : World → World) : Succeeds (fun _ => True) (update f : Contract Unit) :=
    succeeds_update fun _ _ => trivial
  have hassets : Succeeds (fun _ => True) (forM assets (revokeDerived source)) :=
    succeeds_forM fun asset _ => (hupdate _).bind fun _ => (hupdate _).bind fun _ =>
      (hupdate _).bind fun _ => hupdate _
  have htombstone : Succeeds (fun _ => True) (tombstone source) := by
    refine .read fun record => (hupdate _).bind fun _ => (hupdate _).bind fun _ => ?_
    cases record with
    | none => exact succeeds_pure ()
    | some record => exact hupdate _
  have hreputation : Preserves Undisturbed (modifyCustody fun c => { c with
      reputation := Function.update c.reputation source (some 0) }) :=
    preserves_update fun _ => ⟨rfl,rfl,rfl,rfl,rfl,rfl,rfl,rfl,rfl,rfl,rfl,rfl,rfl⟩
  have hderived : Preserves Undisturbed (forM assets (revokeDerived source)) :=
    preserves_forM fun asset _ => revokeDerived_undisturbed source asset
  refine (fails_bind _).2 ⟨hassets.fails trivial E,(hderived w).mono fun _ t ht => ?_⟩
  refine (fails_bind _).2 ⟨(hupdate _).fails trivial E,(hreputation.from ht).mono fun _ u hu => ?_⟩
  refine (fails_bind _).2 ⟨htombstone.fails trivial E,?_⟩
  refine (tombstone_undisturbed source).mono ?_
  rintro _ v ⟨hv,_⟩
  exact hnext v (IsTrans.trans w u v hu hv)

/-- What an offboarding leaves of a source: its bond is settled, and the address is spent. -/
structure Offboarded (forfeits : Address → Bool) (source : Address) (w u : World) : Prop where
  struck : (holdings u.store).Struck source
  revoked : u.store.sources.revokedAddress source = true
  ledger : ledger u.store = (ledger w.store).settle w.env.host forfeits source
  listed : u.store.registry.sources = w.store.registry.sources.filter fun a => a ≠ source
  active : u.store.registry.srcActive = Function.update w.store.registry.srcActive source none
  legacySource : u.store.sources.legacySource = w.store.sources.legacySource
  pendingRemoval : u.store.sources.pendingRemoval = w.store.sources.pendingRemoval
  minSources : u.store.config.minSources = w.store.config.minSources
  flagged : Flagged u.store

/-- What follows the slash, if there was one: the removal settles what is left of the bond. -/
theorem offboard_rest {forfeits : Address → Bool} {v : World}
    (hflagged : Flagged w.store) (hv : Settled [source] w v)
    (hheld : holdings v.store = { holdings w.store with ledger := ledger v.store })
    (hledger : (ledger v.store).settle w.env.host (judged w.env w.store) source =
      (ledger w.store).settle w.env.host forfeits source) (assets : List Address) :
    Sat (do
      forM assets (revokeDerived source)
      modifyCustody fun c => { c with reputation := Function.update c.reputation source (some 0) }
      tombstone source
      removeSourceInner source
      recomputeAll) v fun _ u => Offboarded forfeits source w u := by
  have hflagged' : Flagged v.store := (hv.polled hflagged).flagged
  refine clearance_sat fun u hu hrevoked => ?_
  refine ((removeSourceInner_holdings (hu.flagged hflagged') source).and
    (removeSourceInner_sat (hu.flagged hflagged') source)).andThen ?_
  rintro _ t ⟨ht,_,hpolled⟩
  have hrest : Preserves (Settled []) recomputeAll := recomputeAll_settled
  refine ((recomputeAll_holdings t).and (hrest t)).mono ?_
  rintro _ x ⟨hx,hsettled⟩
  have hfinal : holdings x.store =
      (holdings u.store).remove w.env.host (judged u.env u.store) source := by
    rw [← hv.env,← hu.env,← ht]
    exact hx
  have hverdict : judged u.env u.store source = judged w.env w.store source :=
    (hu.judged hflagged' source).trans (hv.judged hflagged)
  refine
    { struck := hfinal ▸ Holdings.remove_struck_self _ _ _ source
      revoked := (congrFun (congrArg Holdings.revoked hfinal) source).trans hrevoked
      ledger := (congrArg Holdings.ledger hfinal).trans ?_
      listed := (congrArg Holdings.listed hfinal).trans ?_
      active := (congrArg Holdings.active hfinal).trans ?_
      legacySource := (congrArg Holdings.legacySource hfinal).trans
        (hu.legacySource.trans (congrArg Holdings.legacySource hheld))
      pendingRemoval := (congrArg Holdings.pendingRemoval hfinal).trans
        (hu.pendingRemoval.trans (congrArg Holdings.pendingRemoval hheld))
      minSources := (congrArg Holdings.minSources hfinal).trans
        (hu.minSources.trans (congrArg Holdings.minSources hheld))
      flagged := (hsettled.polled hpolled.flagged).flagged }
  · rw [← hledger,← hu.ledger]
    exact Ledger.settle_congr _ hverdict
  · exact congrArg (List.filter fun a => a ≠ source)
      (hu.listed.trans (congrArg Holdings.listed hheld))
  · exact congrArg (fun active => Function.update active source none)
      (hu.active.trans (congrArg Holdings.active hheld))

/-- The bond is forfeited by the evidence, if there is some, or settled by the removal. -/
theorem offboard_sat (hflagged : Flagged w.store) (source : Address)
    (evidenceAsset : Option Address) :
    Sat (offboard source evidenceAsset) w fun _ u =>
      Offboarded (fun a => evidenceAsset.isSome || judged w.env w.store a) source w u := by
  refine (sat_asAdmin _).2 fun admin _ _ => ?_
  have hchecked : Sat (checkIsSource source) (w.authorizedBy admin) fun _ t =>
      t = w.authorizedBy admin := by
    rw [checkIsSource,sat_bind,sat_readStore,sat_ensure]
    exact fun _ => rfl
  refine hchecked.andThen fun _ t ht => ?_
  rw [ht]
  have hsigned : Settled [source] w (w.authorizedBy admin) := ⟨rfl,rfl,rfl,rfl,fun _ _ => rfl⟩
  cases evidenceAsset with
  | none =>
    exact offboard_rest hflagged hsigned rfl (Ledger.settle_congr _ (by simp)) _
  | some asset =>
    refine (slashOnEvidence_sat w.env.host source asset).andThen ?_
    rintro _ v ⟨hheld,hv⟩
    have hsettled : ledger v.store = (ledger w.store).settle w.env.host (fun _ => true) source :=
      congrArg Holdings.ledger hheld
    refine offboard_rest hflagged (IsTrans.trans w _ v hsigned hv) ?_ ?_ _
    · rw [hheld,hsettled]
      rfl
    · rw [hsettled,Ledger.settle_of_le]
      · exact Ledger.settle_congr _ (by simp)
      · rw [Ledger.settle_deposit,if_pos rfl]
        omega

theorem offboard_rest_completes (hconfigured : Configured w)
    (hsigned : w.store.adminSigns w.env = true) (hflagged : Flagged w.store)
    (hknown : (w.store.registry.srcActive source).isSome = true) (assets : List Address) : Fails (do
      forM assets (revokeDerived source)
      modifyCustody fun c => { c with reputation := Function.update c.reputation source (some 0) }
      tombstone source
      removeSourceInner source
      recomputeAll) w fun _ _ => False := by
  refine clearance_fails fun u hu => (fails_bind _).2 ⟨removeSourceInner_completes source ?_ ?_ ?_,?_⟩
  · rw [Configured,hu.minSources]
    exact hconfigured
  · rw [Store.adminSigns,hu.admin,hu.env]
    exact hsigned
  · rwa [hu.active]
  · refine (removeSourceInner_holdings (hu.flagged hflagged) source).mono fun _ v hv => ?_
    have hmin : v.store.config.minSources = u.store.config.minSources :=
      congrArg Holdings.minSources hv
    refine recomputeAll_succeeds.fails ?_ _
    rw [Configured,hmin,hu.minSources]
    exact hconfigured

theorem offboard_completes {evidenceAsset : Option Address}
    (hconfigured : Configured w) (hsigned : w.store.adminSigns w.env = true)
    (hflagged : Flagged w.store) (hsource : w.store.isSource source = true)
    (hevidence : ∀ asset ∈ evidenceAsset, Incriminates w.store source asset) :
    Fails (offboard source evidenceAsset) w fun _ _ => False := by
  have hknown : (w.store.registry.srcActive source).isSome = true := by
    unfold Store.isSource at hsource
    cases hactive : w.store.registry.srcActive source with
    | none => simp [hactive] at hsource
    | some _ => rfl
  refine completes_asAdmin hsigned fun admin => ?_
  refine (fails_bind _).2 ⟨?_,?_⟩
  · rw [checkIsSource,fails_bind]
    exact ⟨fails_inspect _,(sat_inspect _).2 ((fails_ensure _ _).2 fun h => h hsource)⟩
  refine Sat.mono (Q := fun _ t => t = w.authorizedBy admin) ?_ fun _ t ht => ?_
  · rw [checkIsSource,sat_bind,sat_readStore,sat_ensure]
    exact fun _ => rfl
  rw [ht]
  cases evidenceAsset with
  | none =>
    exact offboard_rest_completes (w := w.authorizedBy admin) hconfigured hsigned hflagged hknown _
  | some asset =>
    refine (fails_bind _).2 ⟨slashOnEvidence_completes hconfigured (hevidence asset rfl),?_⟩
    refine (slashOnEvidence_sat w.env.host source asset).mono ?_
    rintro _ v ⟨hheld,hv⟩
    have hmin : v.store.config.minSources = w.store.config.minSources :=
      congrArg Holdings.minSources hheld
    have hadmin : v.store.config.admin = w.store.config.admin := congrArg Holdings.admin hheld
    have hactive : v.store.registry.srcActive = w.store.registry.srcActive :=
      congrArg Holdings.active hheld
    have hsettled : Settled [source] w v := ⟨hv.env,hv.config,hv.flags,hv.heartbeats,hv.bond⟩
    refine offboard_rest_completes ?_ ?_ (hsettled.polled hflagged).flagged ?_ _
    · rw [Configured,hmin]
      exact hconfigured
    · rw [Store.adminSigns,hadmin,hv.env]
      exact hsigned
    · rwa [hactive]

end Offboarding

end PriceOracle.Sources
