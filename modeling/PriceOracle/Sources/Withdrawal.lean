import PriceOracle.Sources.Removals

/-! # When a removal withdraws a source

Among the calls that register, bond and remove sources, the removals that leave nothing behind. Two
of the ways out never do: one cannot be begun, and one settles no bond. -/

namespace PriceOracle.Sources

open Lib.Transaction Lib.Run Model Aggregation Submissions

inductive RemovalCall
  | removeSource (source : Address)
  | removeSources (sources : List Address)
  | markSourceForRemoval (source : Address)
  | finalizeSourceRemoval (source : Address)
  | checkAndPruneInactiveSources
  | offboard (source : Address) (evidenceAsset : Option Address)
  | addSource (source : Address) (name : Text)
  | addSourceWithAssets (source : Address) (name : Text) (assets : List Address)
  | depositSourceBond (source : Address)
  | submitHeartbeat (source : Address)
  | isSourceInactive (source : Address)
  | submit (call : SubmissionCall)

def RemovalCall.body : RemovalCall → Contract Unit
  | removeSource source => Model.removeSource source
  | removeSources sources => Model.removeSources sources
  | markSourceForRemoval source => Model.markSourceForRemoval source
  | finalizeSourceRemoval source => Model.finalizeSourceRemoval source
  | checkAndPruneInactiveSources => do
    let _ ← Model.checkAndPruneInactiveSources
    pure ()
  | offboard source evidenceAsset => Model.offboard source evidenceAsset
  | addSource source name => Model.addSource source name
  | addSourceWithAssets source name assets => Model.addSourceWithAssets source name assets
  | depositSourceBond source => Model.depositSourceBond source
  | submitHeartbeat source => Model.submitHeartbeat source
  | isSourceInactive source => do
    let _ ← Model.isSourceInactive source
    pure ()
  | submit call => call.body

structure RemovalTx where
  env : Env
  call : RemovalCall

def execRemoval (st : Store) (t : RemovalTx) : Store := invoke t.call.body t.env st

/-- The quorum is configured, a mark is read where it is kept, whoever is listed is active, and the
records of the scheduled removal are empty: no function fills them. -/
structure Sound (st : Store) : Prop where
  configured : st.config.minSources.isSome = true
  flagged : Flagged st
  listed : ∀ source ∈ st.registry.sources, st.registry.srcActive source = some true
  legacySource : ∀ source, st.sources.legacySource source = false
  pendingRemoval : ∀ source, st.sources.pendingRemoval source = none

/-- The sources that the call takes out of the registry. -/
def RemovalTx.removed (st : Store) (t : RemovalTx) : List Address :=
  match t.call with
  | .removeSource source => [source]
  | .removeSources sources => sources
  | .finalizeSourceRemoval source => [source]
  | .checkAndPruneInactiveSources => st.prunable t.env
  | .offboard source _ => [source]
  | _ => []

/-- The call is a removal that the contract is asked for as it should be. -/
def RemovalTx.Due (st : Store) (t : RemovalTx) : Prop :=
  match t.call with
  | .removeSource source =>
    st.adminSigns t.env = true ∧ (st.registry.srcActive source).isSome = true
  | .removeSources sources => st.adminSigns t.env = true ∧ sources ≠ [] ∧ sources.Nodup ∧
      ∀ source ∈ sources, (st.registry.srcActive source).isSome = true
  | .markSourceForRemoval source =>
    st.adminSigns t.env = true ∧ (st.registry.srcActive source).isSome = true
  | .finalizeSourceRemoval source => st.adminSigns t.env = true ∧
      ∃ eligibleAt ∈ st.sources.pendingRemoval source, eligibleAt ≤ t.env.sequence
  | .checkAndPruneInactiveSources =>
    ∀ minRequired ∈ st.config.minSources, minRequired ≤ st.activeCount
  | .offboard source evidenceAsset => st.adminSigns t.env = true ∧ st.isSource source = true ∧
      ∀ asset ∈ evidenceAsset, Incriminates st source asset
  | _ => False

/-- The bonds that a removal takes: of the inactive sources, and of one that evidence is against. -/
def RemovalTx.forfeits (st : Store) (t : RemovalTx) (source : Address) : Bool :=
  match t.call with
  | .offboard _ evidenceAsset => evidenceAsset.isSome || judged t.env st source
  | _ => judged t.env st source

/-- The bonds of the sources in turn, each settled once. -/
def RemovalTx.paid (st : Store) (t : RemovalTx) (sources : List Address) : Option Ledger :=
  sources.foldlM (fun (l : Ledger) source => l.pay t.env.host (t.forfeits st) source) (ledger st)

/-- The removal completes, leaves its sources withdrawn and settles each bond once. -/
structure Withdrawal (st : Store) (t : RemovalTx) : Prop where
  completes : failure t.call.body t.env st = none
  withdrawn : ∀ source ∈ t.removed st, (holdings (execRemoval st t)).Withdrawn source
  settled : t.paid st (t.removed st) = some (ledger (execRemoval st t))

def Withdraws (st : Store) (t : RemovalTx) : Prop := t.Due st → Withdrawal st t

/-- No submission of the source is stored, unless its address is spent. -/
def Silenced (st : Store) (source : Address) : Prop :=
  st.sources.revokedAddress source = false → ∀ asset, st.submission (asset, source) = none

/-- The removal finds every refund payable and nothing that it would leave behind. -/
def Clean (st : Store) (t : RemovalTx) : Prop :=
  t.Due st → match t.call with
    | .removeSource source =>
      Silenced st source ∧ (t.paid st [source]).isSome = true
    | .removeSources sources =>
      (∀ source ∈ sources, Silenced st source) ∧ (t.paid st sources).isSome = true
    | .markSourceForRemoval _ => False
    | .checkAndPruneInactiveSources => ∀ source ∈ st.prunable t.env,
        st.getSourceDepositedBond source ≤ 0 ∧
          (st.sources.revokedAddress source = false → (holdings st).Bare source)
    | .offboard source _ => (t.paid st [source]).isSome = true
    | _ => True

def KeepsSound (w w' : World) : Prop := Sound w.store → Sound w'.store

instance : Std.Refl KeepsSound := ⟨fun _ h => h⟩

instance : IsTrans World KeepsSound := ⟨fun _ _ _ h h' hw => h' (h hw)⟩

section Keeping

variable {w w' : World} (source : Address) (name : Text)

/-- What soundness asks beside the marks is part of the holdings. -/
theorem Sound.of_holdings {st st' : Store} {held : Holdings} (h : Sound st)
    (hflagged : Flagged st') (hheld : holdings st' = held)
    (hlisted : ∀ source ∈ held.listed, held.active source = some true)
    (hmin : held.minSources = (holdings st).minSources)
    (hlegacy : held.legacySource = (holdings st).legacySource)
    (hpending : held.pendingRemoval = (holdings st).pendingRemoval) : Sound st' where
  configured := (congrArg (fun h => h.minSources.isSome) hheld).trans
    ((congrArg Option.isSome hmin).trans h.configured)
  flagged := hflagged
  listed := by rw [← hheld] at hlisted; exact hlisted
  legacySource a := (congrArg (fun h => h.legacySource a) hheld).trans
    ((congrFun hlegacy a).trans (h.legacySource a))
  pendingRemoval a := (congrArg (fun h => h.pendingRemoval a) hheld).trans
    ((congrFun hpending a).trans (h.pendingRemoval a))

theorem delisted {listed : List Address} {active : Map Address Bool} {source : Address}
    (h : ∀ a ∈ listed, active a = some true) :
    ∀ a ∈ listed.filter fun a => a ≠ source, Function.update active source none a = some true := by
  intro a ha
  rw [List.mem_filter,decide_eq_true_eq] at ha
  rw [Function.update_of_ne ha.2]
  exact h a ha.1

theorem update_sound {f : World → World} (h : ∀ w, Sound w.store → Sound (f w).store) :
    Preserves KeepsSound (update f : Contract Unit) :=
  preserves_update h

theorem mark_sound (f : FeatureFlag) : Preserves KeepsSound (mark f) := by
  refine preserves_update fun w hw => ?_
  split_ifs with hon
  · exact hw
  · refine ⟨hw.configured,fun a ha => ?_,hw.listed,hw.legacySource,hw.pendingRemoval⟩
    have hmarked := hw.flagged a ha
    by_cases hf : FeatureFlag.sourceInactive = f
    · exact absurd (hf ▸ hmarked) hon
    · exact (Function.update_of_ne hf _ _).trans hmarked

theorem requireAuth_sound (a : Address) : Preserves KeepsSound (requireAuth a) := by
  intro w
  rw [sat_requireAuth]
  exact fun _ h => h

theorem asAdmin_sound {body : Contract Unit} (h : Preserves KeepsSound body) :
    Preserves KeepsSound (asAdmin body) :=
  .lookup fun admin => (requireAuth_sound admin).bind fun _ => h

theorem recomputeBounded_sound (assets : List Address) :
    Preserves KeepsSound (recomputeBounded assets) := by
  intro w
  have hrest : Preserves (Settled []) (recomputeBounded assets) := recomputeBounded_settled assets
  exact ((recomputeBounded_holdings assets w).and (hrest w)).mono fun _ w' ⟨hheld,hw'⟩ hw =>
    hw.of_holdings (hw'.polled hw.flagged).flagged hheld hw.listed rfl rfl rfl

theorem removeSourceInner_sound : Preserves KeepsSound (removeSourceInner source) := by
  intro w a w' hrun hw
  have hheld := removeSourceInner_holdings hw.flagged source a w' hrun
  have hpolled := (removeSourceInner_sat hw.flagged source a w' hrun).2
  exact hw.of_holdings hpolled.flagged hheld (delisted hw.listed) rfl rfl rfl

theorem isSourceInactive_sound : Preserves KeepsSound (isSourceInactive source) := by
  intro w inactive w' hrun hw
  have hflagged := (isSourceInactive_sat hw.flagged source inactive w' hrun).flagged
  rcases (isSourceInactive_holdings w.env.host hw.flagged source inactive w' hrun).2 with
    hsame | ⟨_,hheld⟩
  · exact hw.of_holdings hflagged hsame hw.listed rfl rfl rfl
  · exact hw.of_holdings hflagged hheld hw.listed rfl rfl rfl

theorem removeSource_sound : Preserves KeepsSound (removeSource source) := by
  refine asAdmin_sound ?_
  refine .read fun _ => .read fun _ =>
    Preserves.bind (update_sound fun _ h => ?_) fun _ => preserves_ite _ (preserves_pure _) ?_
  · exact ⟨h.configured,h.flagged,h.listed,h.legacySource,h.pendingRemoval⟩
  · exact (removeSourceInner_sound source).bind fun _ => .read fun _ =>
      recomputeBounded_sound _

theorem removeSources_sound (sources : List Address) :
    Preserves KeepsSound (removeSources sources) :=
  asAdmin_sound <| .check fun _ => (preserves_forM fun source _ =>
    removeSourceInner_sound source).bind fun _ =>
    .read fun _ => recomputeBounded_sound _

theorem pruneCandidates_sound (minRequired count : Nat) (sources : List Address) :
    Preserves KeepsSound (pruneCandidates minRequired sources count) := by
  induction sources generalizing count with
  | nil => exact preserves_pure _
  | cons source rest ih =>
    refine .read fun active => preserves_ite _ (preserves_pure _) ?_
    refine Preserves.bind (fun w a w' hrun hw => ?_) fun _ => ih (count+1)
    obtain ⟨hheld,hflagged,-⟩ := removeSourceInternal_sat hw.flagged source a w' hrun
    exact hw.of_holdings hflagged hheld (delisted hw.listed) rfl rfl rfl

theorem offboard_sound (evidenceAsset : Option Address) :
    Preserves KeepsSound (offboard source evidenceAsset) := by
  intro w a w' hrun hw
  have h := offboard_sat hw.flagged source evidenceAsset a w' hrun
  refine hw.of_holdings h.flagged rfl ?_ h.minSources h.legacySource h.pendingRemoval
  change ∀ a ∈ w'.store.registry.sources, w'.store.registry.srcActive a = some true
  rw [h.listed,h.active]
  exact delisted hw.listed

theorem addSource_listed {r : Registry} (h : ∀ a ∈ r.sources, r.srcActive a = some true) :
    ∀ a ∈ (r.addSource source).sources, (r.addSource source).srcActive a = some true := by
  have hactive : (r.addSource source).srcActive =
      Function.update r.srcActive source (some true) := by
    unfold Registry.addSource
    split_ifs <;> rfl
  have hlisted : ∀ a ∈ (r.addSource source).sources, a = source ∨ a ∈ r.sources := by
    unfold Registry.addSource
    split_ifs
    · exact fun a ha => .inr ha
    · intro a ha
      exact (List.mem_append.1 ha).symm.imp_left List.mem_singleton.1
  intro a ha
  rw [hactive,Function.update_apply]
  split_ifs with hself
  · rfl
  · exact h a ((hlisted a ha).resolve_left hself)

theorem registerSourceInternal_sound :
    Preserves KeepsSound (registerSourceInternal source name) := by
  have hrevoked : Preserves KeepsSound (checkNotRevoked source) :=
    .read fun _ => preserves_ensure _ _
  have hname : Preserves KeepsSound (checkSourceName name) :=
    .check fun _ => preserves_ensure _ _
  have hlist : Preserves KeepsSound (modifyRegistry fun r => r.addSource source) :=
    update_sound fun _ h => ⟨h.configured,h.flagged,addSource_listed source h.listed,
      h.legacySource,h.pendingRemoval⟩
  have hnamed : Preserves KeepsSound (modifySources fun r => { r with
      metadata := Function.update r.metadata source (some name) }) :=
    update_sound fun _ h => ⟨h.configured,h.flagged,h.listed,h.legacySource,h.pendingRemoval⟩
  exact hrevoked.bind fun _ => hname.bind fun _ => .read fun _ => .check fun _ => .read fun _ =>
    .check fun _ => hlist.bind fun _ => hnamed

theorem addSource_sound : Preserves KeepsSound (addSource source name) :=
  asAdmin_sound <| .read fun _ => .check fun _ =>
    registerSourceInternal_sound source name

theorem addSourceWithAssets_sound (assets : List Address) :
    Preserves KeepsSound (addSourceWithAssets source name assets) := by
  have hcheck (asset : Address) : Preserves KeepsSound (checkRegisteredAsset asset) := by
    refine .read fun _ => .check fun _ =>
      update_sound fun w h => ?_
    split_ifs
    · exact h
    · exact ⟨h.configured,h.flagged,h.listed,h.legacySource,h.pendingRemoval⟩
  have hassign : Preserves KeepsSound (setOptional (.sourceAssets source assets)) :=
    (mark_sound _).bind fun _ => update_sound fun _ h =>
      ⟨h.configured,h.flagged,h.listed,h.legacySource,h.pendingRemoval⟩
  exact asAdmin_sound <| (preserves_forM fun asset _ => hcheck asset).bind fun _ =>
    (registerSourceInternal_sound source name).bind fun _ => hassign

theorem markSourceActive_sound : Preserves KeepsSound (markSourceActive source) := by
  refine .read fun _ => preserves_ite _ ?_ (preserves_pure _)
  refine update_sound fun w h => ⟨h.configured,fun a ha => h.flagged a ?_,h.listed,
    h.legacySource,h.pendingRemoval⟩
  by_cases hself : a = source
  · rw [hself] at ha
    simp [watch,RemovedKey.write] at ha
  · simpa [watch,RemovedKey.write,hself] using ha

theorem depositSourceBond_sound : Preserves KeepsSound (depositSourceBond source) := by
  have htransfer (token sender recipient : Address) (amount : Int) :
      Preserves KeepsSound (transferToken token sender recipient amount) :=
    .lookup fun _ => update_sound fun _ h =>
      ⟨h.configured,h.flagged,h.listed,h.legacySource,h.pendingRemoval⟩
  have hbond (bond : Int) : Preserves KeepsSound (writeSourceBond source bond) :=
    update_sound fun _ h => ⟨h.configured,h.flagged,h.listed,h.legacySource,h.pendingRemoval⟩
  refine (requireAuth_sound source).bind fun _ => .read fun _ => .check fun _ =>
    .read fun required =>
    .read fun deposited => preserves_ite _ (preserves_pure _) ?_
  exact .lookup fun token => .read fun this => (htransfer token source this _).bind fun _ =>
    (hbond required).bind fun _ =>
    .read fun _ =>
    preserves_ite _ (markSourceActive_sound source) (preserves_pure _)

theorem submitHeartbeat_sound : Preserves KeepsSound (submitHeartbeat source) := by
  have hbeat (f : Heartbeats → Heartbeats) : Preserves KeepsSound (modifyHeartbeats f) :=
    update_sound fun _ h => ⟨h.configured,h.flagged,h.listed,h.legacySource,h.pendingRemoval⟩
  have hstats (f : SourceStats → SourceStats) : Preserves KeepsSound (modifyStats f) :=
    update_sound fun _ h => ⟨h.configured,h.flagged,h.listed,h.legacySource,h.pendingRemoval⟩
  have hreset : Preserves KeepsSound (resetMissedHeartbeats source) := hbeat _
  have hsource : Preserves KeepsSound (checkIsSource source) :=
    .read fun _ => preserves_ensure _ _
  have hreactivate : Preserves KeepsSound (reactivate source) := by
    refine .read fun _ => preserves_ite _ ?_ (preserves_pure _)
    exact (markSourceActive_sound source).bind fun _ => hreset.bind fun _ =>
      (hstats _).bind fun _ => hbeat _
  refine (requireAuth_sound source).bind fun _ => hsource.bind fun _ => .read fun _ =>
    .read fun _ =>
    (hbeat _).bind fun _ => .read fun _ => ?_
  exact preserves_ite _ (hreactivate.bind fun _ => hstats _) (hreset.bind fun _ => hstats _)

theorem finalizeSourceRemoval_fails (hw : Sound w.store) :
    Sat (finalizeSourceRemoval source) w fun _ _ => False := by
  refine (sat_asAdmin _).2 fun admin _ _ => ?_
  rw [sat_bind,sat_consult]
  intro eligibleAt hpending
  simp only [authorizedBy_store] at hpending
  rw [hw.pendingRemoval] at hpending
  cases hpending

theorem removalCall_sound (call : RemovalCall) : Preserves KeepsSound call.body := by
  cases call with
  | removeSource source => exact removeSource_sound source
  | removeSources sources => exact removeSources_sound sources
  | markSourceForRemoval source =>
    intro w a w' hrun hw
    exact (markSourceForRemoval_fails (hw.legacySource source) a w' hrun).elim
  | finalizeSourceRemoval source =>
    intro w a w' hrun hw
    exact (finalizeSourceRemoval_fails source hw a w' hrun).elim
  | checkAndPruneInactiveSources =>
    refine Preserves.bind ?_ fun _ => preserves_pure _
    exact .lookup fun minRequired => .read fun _ =>
      pruneCandidates_sound minRequired 0 _
  | offboard source evidenceAsset => exact offboard_sound source evidenceAsset
  | addSource source name => exact addSource_sound source name
  | addSourceWithAssets source name assets => exact addSourceWithAssets_sound source name assets
  | depositSourceBond source => exact depositSourceBond_sound source
  | submitHeartbeat source => exact submitHeartbeat_sound source
  | isSourceInactive source => exact (isSourceInactive_sound source).bind fun _ => preserves_pure _
  | submit call =>
    intro w
    refine (call.body_frame w).mono fun _ w' hframe hw => ?_
    have hsettled : Settled [] w w' :=
      settled_of_frame (by decide) (by decide) (by decide) (by decide) (by decide) hframe
    have hsources : w'.store.sources = w.store.sources := hframe .sources (by decide)
    have hlisted : w'.store.registry.sources = w.store.registry.sources :=
      congrArg (fun v => v.2.2.1) (hframe .registry (by decide))
    have hactive : w'.store.registry.srcActive = w.store.registry.srcActive :=
      congrArg (fun v => v.2.2.2.1) (hframe .registry (by decide))
    exact
      { configured := by rw [hsettled.config]; exact hw.configured
        flagged := (hsettled.polled hw.flagged).flagged
        listed := by rw [hlisted,hactive]; exact hw.listed
        legacySource := fun a => by rw [hsources]; exact hw.legacySource a
        pendingRemoval := fun a => by rw [hsources]; exact hw.pendingRemoval a }

theorem execRemoval_sound {st : Store} (t : RemovalTx) (h : Sound st) : Sound (execRemoval st t) :=
  invoke_of_sat h ((removalCall_sound t.call (World.enter t.env st)).mono fun _ _ hw => hw h)

end Keeping

section Steps

variable {st : Store} {env : Env} {sources : List Address} {source : Address}

/-- What remains of the removal of a list of sources, once its records are gone. -/
theorem removed_iff {st' : Store} (host : Host) (forfeits : Address → Bool)
    (hheld : holdings st' = (holdings st).removeAll host forfeits sources) :
    ((∀ source ∈ sources, (holdings st').Withdrawn source) ∧
      sources.foldlM (fun (l : Ledger) source => l.pay host forfeits source) (ledger st) =
        some (ledger st')) ↔ (∀ source ∈ sources, Silenced st source) ∧
        (sources.foldlM (fun (l : Ledger) source => l.pay host forfeits source) (ledger st)).isSome = true := by
  obtain ⟨hledger,hsubmission,hrevoked,-⟩ := (holdings st).removeAll_kept host forfeits sources
  have hpaid : ledger st' =
      sources.foldl (fun l source => l.settle host forfeits source) (ledger st) :=
    (congrArg Holdings.ledger hheld).trans hledger
  refine and_congr (forall₂_congr fun source hsource => ?_) ?_
  · have hstruck : (holdings st').Struck source := by
      rw [hheld]
      exact (holdings st).removeAll_struck host forfeits sources (.inl hsource)
    rw [hstruck.withdrawn_iff,hheld,hsubmission,hrevoked]
    rfl
  · rw [hpaid]
    exact foldlM_eq_some_iff _ _ _ _

theorem prune_kept (h : Holdings) (sources : List Address) :
    let h' := sources.foldl Holdings.prune h
    (∀ source, source ∈ sources ∨ source ∉ h.listed ∧ h.active source = none →
        source ∉ h'.listed ∧ h'.active source = none) ∧
      h'.ledger = h.ledger ∧ h'.revoked = h.revoked ∧ ∀ source, h'.Bare source ↔ h.Bare source := by
  induction sources generalizing h with
  | nil => exact ⟨fun source hs => by simpa using hs,rfl,rfl,fun _ => Iff.rfl⟩
  | cons a rest ih =>
    obtain ⟨hgone,hledger,hrevoked,hbare⟩ := ih (h.prune a)
    refine ⟨fun source hs => hgone source ?_,hledger,hrevoked,fun source => ?_⟩
    · by_cases ha : source = a
      · exact .inr (by simp [Holdings.prune,ha])
      · refine hs.imp (fun hmem => ?_) fun hout => ?_
        · exact (List.mem_cons.1 hmem).resolve_left ha
        · simpa [Holdings.prune,ha] using hout
    · refine (hbare source).trans ⟨fun hb => ?_,fun hb => ?_⟩
      · exact ⟨hb.submission,hb.sourceAssets,hb.submissionKey,hb.verification,hb.verificationKey⟩
      · exact ⟨hb.submission,hb.sourceAssets,hb.submissionKey,hb.verification,hb.verificationKey⟩

theorem pay_nothing {l : Ledger} (host : Host)
    (forfeits : Address → Bool) (hzero : ∀ source ∈ sources, l.deposit source ≤ 0) :
    sources.foldlM (fun (l : Ledger) source => l.pay host forfeits source) l = some l := by
  induction sources with
  | nil => rfl
  | cons a rest ih =>
    rw [List.forall_mem_cons] at hzero
    have hpaid : l.pay host forfeits a = some l := by
      unfold Ledger.pay
      rw [if_neg (by omega)]
    rw [List.foldlM_cons,hpaid]
    exact ih hzero.2

theorem withdrawal_iff {t : RemovalTx} (hsuccess : failure t.call.body t.env st = none) :
    Withdrawal st t ↔
      (∀ source ∈ t.removed st, (holdings (execRemoval st t)).Withdrawn source) ∧
        t.paid st (t.removed st) = some (ledger (execRemoval st t)) :=
  ⟨fun h => ⟨h.withdrawn,h.settled⟩,fun h => ⟨hsuccess,h.1,h.2⟩⟩

theorem removeSource_iff (h : Sound st) (hsigned : st.adminSigns env = true)
    (hknown : (st.registry.srcActive source).isSome = true) :
    let t : RemovalTx := ⟨env,.removeSource source⟩
    Withdrawal st t ↔ Silenced st source ∧ (t.paid st [source]).isSome = true := by
  have hsuccess : failure (removeSource source) env st = none :=
    succeeds_of_no_failure (removeSource_completes h.configured hsigned h.flagged hknown)
  have hheld := invoke_of_success (Q := fun st' => holdings st' = (holdings st).removeAll env.host
      (judged env st) [source]) hsuccess
    (removeSource_holdings (w := World.enter env st) h.flagged hknown)
  refine (withdrawal_iff (t := ⟨env,.removeSource source⟩) hsuccess).trans ?_
  refine (removed_iff env.host (judged env st) hheld).trans ?_
  rw [List.forall_mem_singleton]
  rfl

theorem removeSources_iff (h : Sound st)
    (hsigned : st.adminSigns env = true) (hne : sources ≠ []) (hnodup : sources.Nodup)
    (hknown : ∀ source ∈ sources, (st.registry.srcActive source).isSome = true) :
    let t : RemovalTx := ⟨env,.removeSources sources⟩
    Withdrawal st t ↔
      (∀ source ∈ sources, Silenced st source) ∧ (t.paid st sources).isSome = true := by
  have hsuccess : failure (removeSources sources) env st = none := succeeds_of_no_failure
    (removeSources_completes h.configured hsigned h.flagged hnodup hne hknown)
  have hheld := invoke_of_success (Q := fun st' => holdings st' = (holdings st).removeAll env.host
      (judged env st) sources) hsuccess
    ((removeSources_holdings (w := World.enter env st) h.flagged hnodup).mono fun _ _ hw => hw.1)
  refine (withdrawal_iff (t := ⟨env,.removeSources sources⟩) hsuccess).trans ?_
  exact removed_iff env.host (judged env st) hheld

theorem prune_iff (h : Sound st)
    (henough : ∀ minRequired ∈ st.config.minSources, minRequired ≤ st.activeCount) :
    Withdrawal st ⟨env,.checkAndPruneInactiveSources⟩ ↔
      ∀ source ∈ st.prunable env, st.getSourceDepositedBond source ≤ 0 ∧
        (st.sources.revokedAddress source = false → (holdings st).Bare source) := by
  let t : RemovalTx := ⟨env,.checkAndPruneInactiveSources⟩
  have hsuccess : failure t.call.body env st = none := by
    refine succeeds_of_no_failure ((fails_bind _).2 ⟨checkAndPrune_completes h.configured,?_⟩)
    exact (checkAndPrune_sat (w := World.enter env st) h.flagged henough).mono fun _ _ _ =>
      fails_pure _
  have hheld : holdings (execRemoval st t) =
      (st.prunable env).foldl Holdings.prune (holdings st) := by
    refine invoke_of_success (Q := fun st' => holdings st' = _) hsuccess ?_
    exact (checkAndPrune_sat (w := World.enter env st) h.flagged henough).andThen
      fun _ _ hw => (sat_pure _).2 hw.1
  obtain ⟨hgone,hledger,hrevoked,hbare⟩ := prune_kept (holdings st) (st.prunable env)
  rw [← hheld] at hgone hledger hrevoked hbare
  refine (withdrawal_iff hsuccess).trans ?_
  constructor
  · rintro ⟨hall,-⟩ source hsource
    have hsettled := (hall source hsource).settled
    have hleft := (hall source hsource).bare
    rw [hledger] at hsettled
    rw [hrevoked,hbare] at hleft
    exact ⟨hsettled,hleft⟩
  · intro hall
    refine ⟨fun source hsource => ?_,?_⟩
    · obtain ⟨hunlisted,hinactive⟩ := hgone source (.inl hsource)
      refine ⟨hunlisted,hinactive,?_,?_⟩
      · rw [hledger]
        exact (hall source hsource).1
      · rw [hrevoked,hbare]
        exact (hall source hsource).2
    · have hsame : ledger (execRemoval st t) = ledger st := hledger
      rw [hsame]
      exact pay_nothing env.host _ fun source hsource => (hall source hsource).1

theorem offboard_iff {evidenceAsset : Option Address} (h : Sound st)
    (hsigned : st.adminSigns env = true) (hsource : st.isSource source = true)
    (hevidence : ∀ asset ∈ evidenceAsset, Incriminates st source asset) :
    let t : RemovalTx := ⟨env,.offboard source evidenceAsset⟩
    Withdrawal st t ↔ (t.paid st [source]).isSome = true := by
  intro t
  have hsuccess : failure (offboard source evidenceAsset) env st = none := succeeds_of_no_failure
    (offboard_completes h.configured hsigned h.flagged hsource hevidence)
  obtain ⟨hstruck,hrevoked,hledger⟩ := invoke_of_success (Q := fun st' =>
      (holdings st').Struck source ∧ (holdings st').revoked source = true ∧
        ledger st' = (ledger st).settle env.host (t.forfeits st) source) hsuccess
    ((offboard_sat (w := World.enter env st) h.flagged source evidenceAsset).mono
      fun _ _ hw => ⟨hw.struck,hw.revoked,hw.ledger⟩)
  have hwithdrawn : (holdings (execRemoval st t)).Withdrawn source :=
    hstruck.withdrawn_iff.2 fun hspent => by
      rw [hrevoked] at hspent
      cases hspent
  have hspent : ledger (execRemoval st t) = (ledger st).settle env.host (t.forfeits st) source :=
    hledger
  refine (withdrawal_iff (t := t) hsuccess).trans ?_
  rw [hspent]
  refine (and_iff_right (List.forall_mem_singleton.2 hwithdrawn)).trans ?_
  exact foldlM_eq_some_iff (fun (l : Ledger) a => l.pay env.host (t.forfeits st) a)
    (fun l a => { l with deposit := Function.update l.deposit a 0 }) (ledger st) [source]

end Steps

theorem withdraws_step_iff {st : Store} {t : RemovalTx} (h : Sound st) :
    Withdraws st t ↔ Clean st t := by
  obtain ⟨env,call⟩ := t
  refine forall_congr' fun hdue => ?_
  cases call with
  | removeSource source => exact removeSource_iff h hdue.1 hdue.2
  | removeSources sources => exact removeSources_iff h hdue.1 hdue.2.1 hdue.2.2.1 hdue.2.2.2
  | markSourceForRemoval source =>
    refine iff_of_false (fun hall => ?_) id
    obtain ⟨a,w,hrun⟩ := failure_eq_none_iff.1 hall.completes
    exact markSourceForRemoval_fails (h.legacySource source) a w hrun
  | finalizeSourceRemoval source =>
    obtain ⟨-,eligibleAt,hpending,-⟩ := hdue
    rw [h.pendingRemoval] at hpending
    cases hpending
  | checkAndPruneInactiveSources => exact prune_iff h hdue
  | offboard source evidenceAsset => exact offboard_iff h hdue.1 hdue.2.1 hdue.2.2
  | addSource => exact hdue.elim
  | addSourceWithAssets => exact hdue.elim
  | depositSourceBond => exact hdue.elim
  | submitHeartbeat => exact hdue.elim
  | isSourceInactive => exact hdue.elim
  | submit => exact hdue.elim

/-- In a run from a sound state, every removal that is due completes, leaves its sources withdrawn
and settles their bonds once, exactly if every one of them is clean. -/
theorem removals_withdraw_iff {st : Store} (ts : List RemovalTx) (h : Sound st) :
    (∀ x ∈ steps execRemoval st ts, Withdraws x.1 x.2) ↔
      ∀ x ∈ steps execRemoval st ts, Clean x.1 x.2 :=
  steps_iff (fun _ t hs => execRemoval_sound t hs) (fun _ _ hs => withdraws_step_iff hs) h

/-- Two sources with a submission each; the second is marked inactive, with a bond of 500. -/
def leavingStore : Store where
  flags := fun f => f = .sourceInactive
  config := {
    admin := some 9
    minSources := some 1
    sourceInactive := fun a => if a = 2 then some true else none }
  registry := {
    assets := [7]
    sources := [1, 2]
    srcActive := fun a => if a = 1 ∨ a = 2 then some true else none
    sourceBond := fun a => if a = 2 then some 500 else none }
  heartbeats := { inactiveSinceLedger := fun a => if a = 2 then some 10 else none }
  submission := fun k => if k = (7, 1) ∨ k = (7, 2) then
    some ⟨100, 1000, k.2, 7, 10, 1000, none⟩ else none

theorem leavingStore_sound : Sound leavingStore :=
  ⟨rfl,fun _ _ => rfl,by decide,fun _ => rfl,fun _ => rfl⟩

/-- The first source is removed and comes back, its scheduled removal is asked for, and the second
is removed automatically. -/
def leavingRun : List RemovalTx :=
  [⟨.concrete 100 2000 [9], .removeSource 1⟩,
    ⟨.concrete 100 2000 [9], .addSource 1 [65]⟩,
    ⟨.concrete 100 2000 [9], .markSourceForRemoval 1⟩,
    ⟨.concrete 100 2000 [], .checkAndPruneInactiveSources⟩]

/-- The source that comes back has its old submission, its scheduled removal is refused, and the
bond of the second is settled with nobody. -/
theorem removals_leave_behind :
    Sound leavingStore ∧ (¬∀ x ∈ steps execRemoval leavingStore leavingRun, Withdraws x.1 x.2) ∧
      (run execRemoval leavingStore (leavingRun.take 2)).isSource 1 = true ∧
      ((run execRemoval leavingStore (leavingRun.take 2)).submission (7, 1)).isSome = true ∧
      failure (markSourceForRemoval 1) (.concrete 100 2000 [9])
        (run execRemoval leavingStore (leavingRun.take 2)) = some .sourceNotFound ∧
      (run execRemoval leavingStore leavingRun).isSource 2 = false ∧
      (run execRemoval leavingStore leavingRun).getSourceDepositedBond 2 = 500 := by
  refine ⟨leavingStore_sound,fun h => ?_,by decide +kernel,by decide +kernel,
    by decide +kernel,by decide +kernel,by decide +kernel⟩
  have hfirst := h (leavingStore,⟨.concrete 100 2000 [9],.removeSource 1⟩) (by simp [leavingRun])
  have hdue : RemovalTx.Due leavingStore ⟨.concrete 100 2000 [9],.removeSource 1⟩ :=
    ⟨by decide +kernel,by decide +kernel⟩
  have hbare := ((hfirst hdue).withdrawn 1 (List.mem_singleton_self 1)).bare (by decide +kernel)
  exact absurd (hbare.submission 7) (by decide +kernel)

/-- The second source is offboarded, and a third comes and goes without a submission. -/
def cleanRun : List RemovalTx :=
  [⟨.concrete 100 2000 [9], .offboard 2 none⟩,
    ⟨.concrete 100 2000 [9], .addSource 3 [65]⟩,
    ⟨.concrete 101 2005 [9], .removeSource 3⟩]

theorem clean_run :
    ((∀ x ∈ steps execRemoval leavingStore cleanRun, Withdraws x.1 x.2) ↔
      ∀ x ∈ steps execRemoval leavingStore cleanRun, Clean x.1 x.2) ∧
      (run execRemoval leavingStore cleanRun).registry.sources = [1] ∧
      (run execRemoval leavingStore cleanRun).treasury = some 500 :=
  ⟨removals_withdraw_iff cleanRun leavingStore_sound,by decide +kernel,by decide +kernel⟩

end PriceOracle.Sources
