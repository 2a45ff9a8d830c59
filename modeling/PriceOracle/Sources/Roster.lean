import PriceOracle.Configuration.Calls
import PriceOracle.Model.SourceLifecycle
import PriceOracle.Submissions.Gates
import Mathlib.Tactic.Simps.Basic

/-! # The roster of the sources

Who is a source, under which identity, who may admit others, and what each function of the registry
makes of it. Everything else that these functions write leaves the roster as it was. -/

namespace PriceOracle.Sources

open Lib.Transaction Lib.MachineInt Model Aggregation Submissions

structure Roster where
  active : Map Address Bool
  governance : Option SourceGovernance
  proposal : Map Nat SourceProposal
  record : Map Address SourceLifecycle
  owner : Map Bytes Address
  revokedIdentity : Bytes → Bool
  revokedAddress : Address → Bool

def roster (st : Store) : Roster where
  active := st.registry.srcActive
  governance := st.sources.governance
  proposal := st.sources.proposal
  record := st.config.lifecycle
  owner := st.sources.identityOwner
  revokedIdentity := st.sources.revokedIdentity
  revokedAddress := st.sources.revokedAddress

namespace Roster

variable (r : Roster)

@[simps] def enlist (source : Address) : Roster :=
  { r with active := Function.update r.active source (some true) }

@[simps] def delist (source : Address) : Roster :=
  { r with active := Function.update r.active source none }

@[simps] def file (id : Nat) (p : SourceProposal) : Roster :=
  { r with proposal := Function.update r.proposal id (some p) }

/-- The record of a source, and its identity bound to it. -/
@[simps] def assign (source : Address) (record : SourceLifecycle) : Roster :=
  { r with
    record := Function.update r.record source (some record)
    owner := Function.update r.owner record.identity (some source) }

/-- The record goes, and neither its identity nor the address comes back. -/
def revoke (source : Address) : Roster :=
  match r.record source with
  | none => { r with
      record := Function.update r.record source none
      revokedAddress := Function.update r.revokedAddress source true }
  | some record => { r with
      record := Function.update r.record source none
      revokedAddress := Function.update r.revokedAddress source true
      owner := Function.update r.owner record.identity none
      revokedIdentity := Function.update r.revokedIdentity record.identity true }

/-- The new address takes the place of the old one, with its record if it has one. -/
def rotate (old new : Address) : Roster :=
  match r.record old with
  | none => (r.delist old).enlist new
  | some record =>
    ((({ r with record := Function.update r.record old none }).assign new record).delist old).enlist
      new

theorem rotate_active (old new : Address) : (r.rotate old new).active =
    Function.update (Function.update r.active old none) new (some true) := by
  unfold rotate
  cases r.record old <;> rfl

end Roster

def SameRoster (w w' : World) : Prop := roster w'.store = roster w.store

instance : Std.Refl SameRoster := ⟨fun _ => rfl⟩

instance : IsTrans World SameRoster := ⟨fun _ _ _ h h' => Eq.trans h' h⟩

section Frames

variable {α : Type} {T : List Region} {m : Contract α} {w w' : World} (source : Address)

theorem sameRoster_of_frame (hconfig : .config ∉ T) (hregistry : .registry ∉ T)
    (hsources : .sources ∉ T) (h : layout.agreeOff T w w') : SameRoster w w' := by
  have hconfig' : w'.store.config = w.store.config := h .config hconfig
  have hactive : w'.store.registry.srcActive = w.store.registry.srcActive :=
    congrArg (fun v => v.2.2.2.1) (h .registry hregistry)
  have hsources' : w'.store.sources = w.store.sources := h .sources hsources
  unfold SameRoster roster
  rw [hconfig',hactive,hsources']

theorem keepsRoster_of_frame (hm : Frame T m) (hconfig : .config ∉ T) (hregistry : .registry ∉ T)
    (hsources : .sources ∉ T) : Preserves SameRoster m :=
  hm.weaken fun _ _ => sameRoster_of_frame hconfig hregistry hsources

theorem update_roster {f : World → World} (h : ∀ w, roster (f w).store = roster w.store) :
    Preserves SameRoster (update f : Contract Unit) :=
  preserves_update h

theorem requireAuth_roster (a : Address) : Preserves SameRoster (requireAuth a) :=
  keepsRoster_of_frame (requireAuth_frame a) (by simp) (by simp) (by simp)

theorem setOptional_roster (key : OptionalKey) : Preserves SameRoster (setOptional key) := by
  refine Preserves.bind ?_ fun _ => preserves_update fun w => ?_
  · refine preserves_update fun w => ?_
    split_ifs
    · exact Std.Refl.refl w
    · rfl
  · cases key <;> rfl

theorem updateGuards_roster (f : PublicationGuards → PublicationGuards) :
    Preserves SameRoster (updateGuards f) := by
  refine .read fun _ => Preserves.bind ?_ fun _ => preserves_update fun _ => rfl
  refine preserves_update fun w => ?_
  split_ifs
  · exact Std.Refl.refl w
  · rfl

theorem recomputeBounded_roster (assets : List Address) :
    Preserves SameRoster (recomputeBounded assets) := by
  have hregions : RespectsRounds (layout.agreeOff
      [.aggregates,.history,.provenance,.rounds,.corrections]) :=
    respectsRounds_of_regions (List.Subset.refl _)
  exact (recomputeBounded_preserves hregions assets).weaken fun _ _ =>
    sameRoster_of_frame (by simp) (by simp) (by simp)

theorem recomputeSourceChange_roster : Preserves SameRoster (recomputeSourceChange source) :=
  .read fun _ => recomputeBounded_roster _

theorem recomputeAll_roster : Preserves SameRoster recomputeAll :=
  .read fun _ => recomputeBounded_roster _

theorem forfeitSourceBondInternal_roster :
    Preserves SameRoster (forfeitSourceBondInternal source) := by
  refine .read fun _ => preserves_ite _ ?_ (preserves_pure _)
  exact (update_roster fun _ => by rfl).bind fun _ => update_roster fun _ => by rfl

theorem tripInactive_roster (beaten : Bool) :
    Preserves SameRoster (tripInactive source beaten) := by
  have hnote : Preserves SameRoster (noteInactiveSince source) :=
    .read fun _ => update_roster fun _ => by rfl
  refine (setOptional_roster _).bind fun _ => (updateGuards_roster _).bind fun _ => ?_
  refine preserves_ite _ ?_ hnote
  exact (forfeitSourceBondInternal_roster source).bind fun _ => hnote.bind fun _ =>
    recomputeSourceChange_roster source

theorem isSourceInactive_roster : Preserves SameRoster (isSourceInactive source) := by
  refine .read fun _ => .read fun _ => ?_
  refine preserves_ite _ (preserves_pure _) (preserves_ite _ ?_ (preserves_pure _))
  refine .read fun _ => Preserves.bind ?_ fun _ => ?_
  · exact .read fun _ => (update_roster fun _ => by rfl).bind fun _ =>
      preserves_pure _
  · refine preserves_ite _ ?_ (preserves_pure _)
    exact (tripInactive_roster source _).bind fun _ => preserves_pure _

theorem tryTransferToken_roster (token sender recipient : Address) (amount : Int) :
    Preserves SameRoster (tryTransferToken token sender recipient amount) :=
  .read fun _ => update_roster fun _ => by rfl

end Frames

section Effects

variable {w : World} (source : Address) (old new : Address)

theorem registerSourceInternal_roster (name : Text) :
    Sat (registerSourceInternal source name) w fun _ w' =>
      (w.store.registry.srcActive source).isSome = false ∧
        w.store.sources.revokedAddress source = false ∧
        roster w'.store = (roster w.store).enlist source := by
  simp only [registerSourceInternal,checkNotRevoked,checkSourceName,modifyRegistry,sat_bind,
    sat_readStore,sat_ensure,sat_update,modifySources]
  intro hrevoked _ _ hnew _
  refine ⟨hnew,hrevoked,?_⟩
  unfold roster Roster.enlist Registry.addSource
  split_ifs <;> rfl

theorem addSource_roster (name : Text) :
    Sat (addSource source name) w fun _ w' => w.store.governed = false ∧
      (w.store.registry.srcActive source).isSome = false ∧
        w.store.sources.revokedAddress source = false ∧
        roster w'.store = (roster w.store).enlist source := by
  refine (sat_asAdmin _).2 fun admin _ _ => ?_
  simp only [sat_bind,sat_readStore,sat_ensure,authorizedBy_store]
  intro hgoverned
  exact (registerSourceInternal_roster source name).mono fun _ _ h => ⟨hgoverned,h⟩

theorem deregisterSource_roster : Sat (deregisterSource source) w fun _ w' =>
      roster w'.store = (roster w.store).delist source := by
  simp only [deregisterSource,unlistSource,modifyStats,removeOptional,sat_bind,sat_update,
    modifySources]
  rfl

/-- A removal asks about the source and settles its bond before it delists it. -/
theorem removeSourceInner_roster : Sat (removeSourceInner source) w fun _ w' =>
      (w.store.registry.srcActive source).isSome = true ∧
        roster w'.store = (roster w.store).delist source := by
  refine (sat_asAdmin _).2 fun admin _ _ => ?_
  simp only [sat_bind,sat_readStore,sat_ensure,authorizedBy_store]
  intro hknown
  refine (isSourceInactive_roster source _).mono fun inactive u hu => ?_
  have hsettled (t : World) (ht : SameRoster u t) : Sat (deregisterSource source) t fun _ w' =>
      (w.store.registry.srcActive source).isSome = true ∧
        roster w'.store = (roster w.store).delist source := by
    refine (deregisterSource_roster source).mono fun _ w' hw' => ⟨hknown,?_⟩
    rw [hw',show roster t.store = roster w.store from Eq.trans ht hu]
  refine sat_ite _ (fun _ => ?_) fun _ => hsettled u rfl
  simp only [sat_bind,sat_readStore,getContractAddress]
  refine sat_ite _ (fun _ => ?_) fun _ => ?_
  · exact (forfeitSourceBondInternal_roster source u).andThen fun _ t ht =>
      (sat_bind _ _).2 ((sat_update _ _).2 (hsettled _ ht))
  · cases u.store.custody.stakeToken with
    | some token => exact (tryTransferToken_roster token _ source _ u).andThen fun _ t ht =>
        (sat_bind _ _).2 ((sat_update _ _).2 (hsettled _ ht))
    | none => exact (sat_bind _ _).2 ((sat_update _ _).2 (hsettled _ rfl))

/-- A pending enrollment of an address that is no source is dropped, and nothing else happens. -/
theorem removeSource_roster : Sat (removeSource source) w fun _ w' => roster w'.store =
      if (w.store.registry.srcActive source).isSome = true then (roster w.store).delist source
      else roster w.store := by
  refine (sat_asAdmin _).2 fun admin _ _ => ?_
  simp only [sat_bind,sat_readStore,authorizedBy_store]
  have hdropped : Preserves SameRoster (modifySources fun r => { r with
      enrollment := Function.update r.enrollment source none }) := update_roster fun _ => by rfl
  refine (hdropped (w.authorizedBy admin)).mono fun _ t ht => ?_
  have hsame : roster t.store = roster w.store := ht
  refine sat_ite _ (fun hunknown => (sat_pure _).2 ?_) fun _ => ?_
  · rw [hunknown.2,if_neg Bool.false_ne_true,hsame]
  · refine (removeSourceInner_roster source).andThen ?_
    rintro _ u ⟨hknown,hu⟩
    refine (recomputeSourceChange_roster source u).mono fun _ w' hw' => ?_
    have hknown' : (w.store.registry.srcActive source).isSome = true := by
      rwa [show t.store.registry.srcActive = w.store.registry.srcActive from
        congrArg Roster.active hsame] at hknown
    rw [if_pos hknown',← hsame,← hu]
    exact hw'

theorem addSourceWithAssets_roster (name : Text) (assets : List Address) :
    Sat (addSourceWithAssets source name assets) w fun _ w' =>
      (w.store.registry.srcActive source).isSome = false ∧
        roster w'.store = (roster w.store).enlist source := by
  refine (sat_asAdmin _).2 fun admin _ _ => ?_
  have hchecked : Preserves SameRoster (forM assets checkRegisteredAsset) :=
    preserves_forM fun asset _ => keepsRoster_of_frame (T := []) (checkRegisteredAsset_frame asset)
      (by simp) (by simp) (by simp)
  refine (hchecked (w.authorizedBy admin)).andThen fun _ t ht => ?_
  refine (registerSourceInternal_roster source name).andThen ?_
  rintro _ u ⟨hnew,_,hu⟩
  have hsame : roster t.store = roster w.store := ht
  refine (setOptional_roster _ u).mono fun _ w' hw' => ⟨?_,?_⟩
  · rwa [show t.store.registry.srcActive = w.store.registry.srcActive from
      congrArg Roster.active hsame] at hnew
  · rw [← hsame,← hu]
    exact hw'

theorem activateSource_roster : Sat (activateSource source) w fun _ w' =>
      (w.store.registry.srcActive source).isSome = false ∧
        roster w'.store = (roster w.store).enlist source := by
  refine (sat_asAdmin _).2 fun admin _ _ => ?_
  simp only [readEnrollment,sat_bind,sat_consult,sat_ensure]
  intro enrollment _ _
  exact (registerSourceInternal_roster source enrollment.name).mono fun _ _ h => ⟨h.1,h.2.2⟩

theorem onboard_roster (name : Text) (identity : Bytes) :
    Sat (onboard source name identity) w fun _ w' => w.store.governed = false ∧
      (roster w.store).revokedIdentity identity = false ∧ (roster w.store).owner identity = none ∧
        (roster w.store).revokedAddress source = false ∧
        ((roster w.store).active source).isSome = false ∧
        ∃ record : SourceLifecycle, record.identity = identity ∧ record.graduated = false ∧
          roster w'.store = ((roster w.store).enlist source).assign source record := by
  refine (sat_asAdmin _).2 fun admin _ _ => ?_
  simp only [sat_bind,sat_readStore,sat_ensure,authorizedBy_store]
  intro hidentity howner
  refine (addSource_roster source name).mono ?_
  rintro _ t ⟨hgoverned,hnew,hrevoked,ht⟩
  have hfree : w.store.sources.identityOwner identity = none := by simpa using howner
  simp only [writeRecord,modifyConfig,sat_getTimestamp,sat_update,modifySources]
  refine (setOptional_roster .anyProbation _).mono fun _ w' hw' => ?_
  let record : SourceLifecycle := ⟨identity,t.env.timestamp,
    satAdd64 t.env.timestamp t.store.getLifecycleConfig.probationSecs,false⟩
  refine ⟨hgoverned,hidentity,hfree,hrevoked,?_,record,rfl,rfl,?_⟩
  · exact hnew
  · have hlisted : roster t.store = (roster w.store).enlist source := ht
    rw [← hlisted]
    exact hw'

/-- Graduation takes the end of the probation and the required bond. -/
theorem graduate_roster :
    Sat (graduate source) w fun _ w' => ∃ record, (roster w.store).record source = some record ∧
      record.graduated = false ∧ record.probationUntil ≤ w.env.timestamp ∧
      0 < w.store.getSourceDepositedBond source ∧
      w.store.getSourceBond ≤ w.store.getSourceDepositedBond source ∧
      roster w'.store = { roster w.store with
        record := Function.update (roster w.store).record source
          (some { record with graduated := true }) } := by
  rw [graduate,sat_bind]
  refine (sat_lookup (o := w.store.getRecord source)
    (by cases w.store.getRecord source <;> rfl)).mono ?_
  rintro record _ ⟨hrecord,rfl⟩
  simp only [writeRecord,modifyConfig,sat_bind,sat_readStore,sat_ensure,sat_update]
  intro hlist
  simp only [Store.checklist,hrecord,not_or,Bool.not_eq_false,Bool.not_eq_true,
    decide_eq_true_eq,Option.any_some] at hlist
  obtain ⟨hgraduated,-,⟨hbond,hrequired⟩,hprobation⟩ := hlist
  exact ⟨record,hrecord,hgraduated,hprobation,hbond,hrequired,rfl⟩

theorem tombstone_roster :
    Sat (tombstone source) w fun _ w' => roster w'.store = (roster w.store).revoke source := by
  have hrecord : (roster w.store).record source = w.store.getRecord source := rfl
  simp only [tombstone,writeRecord,modifyConfig,sat_bind,sat_readStore,sat_update,modifySources]
  unfold Roster.revoke
  rw [hrecord]
  cases w.store.getRecord source with
  | none =>
    rw [sat_pure]
    rfl
  | some record =>
    rw [sat_update]
    rfl

theorem slashOnEvidence_roster (source asset : Address) :
    Preserves SameRoster (slashOnEvidence source asset) :=
  .lookup fun _ => .lookup fun _ => .read fun _ => .check fun _ => .check fun _ =>
    forfeitSourceBondInternal_roster source

theorem revokeDerived_roster (source asset : Address) :
    Preserves SameRoster (revokeDerived source asset) :=
  (update_roster fun _ => by rfl).bind fun _ => (update_roster fun _ => by rfl).bind fun _ =>
    (update_roster fun _ => by rfl).bind fun _ => update_roster fun _ => by rfl

theorem offboard_roster (evidenceAsset : Option Address) :
    Sat (offboard source evidenceAsset) w fun _ w' => w.store.isSource source = true ∧
        roster w'.store = ((roster w.store).revoke source).delist source := by
  refine (sat_asAdmin _).2 fun admin _ _ => ?_
  simp only [checkIsSource,sat_bind,sat_readStore,sat_ensure,authorizedBy_store]
  intro hsource
  have hrest (t : World) (ht : SameRoster w t) : Sat (do
      let assets ← readStore fun _ st => st.registry.assets
      forM assets (revokeDerived source)
      modifyCustody fun c => { c with reputation := Function.update c.reputation source (some 0) }
      tombstone source
      removeSourceInner source
      recomputeAll) t fun _ w' => w.store.isSource source = true ∧
        roster w'.store = ((roster w.store).revoke source).delist source := by
    have hderived : Preserves SameRoster (forM t.store.registry.assets (revokeDerived source)) :=
      preserves_forM fun asset _ => revokeDerived_roster source asset
    refine (hderived t).andThen fun _ u hu => ?_
    have hreputation : Preserves SameRoster (modifyCustody fun c => { c with
        reputation := Function.update c.reputation source (some 0) }) :=
      update_roster fun _ => by rfl
    refine (hreputation u).andThen fun _ v hv => ?_
    have hsame : roster v.store = roster w.store := Eq.trans hv (Eq.trans hu ht)
    refine (tombstone_roster source).andThen fun _ x hx => ?_
    refine (removeSourceInner_roster source).andThen ?_
    rintro _ y ⟨_,hy⟩
    refine (recomputeAll_roster y).mono fun _ w' hw' => ⟨hsource,?_⟩
    rw [← hsame,← hx,← hy]
    exact hw'
  cases evidenceAsset with
  | some asset => exact (slashOnEvidence_roster source asset _).andThen fun _ t ht => hrest t ht
  | none => exact hrest _ rfl

theorem onKeyRotated_roster : Sat (onKeyRotated old new) w fun _ w' => roster w'.store =
      match (roster w.store).record old with
      | none => roster w.store
      | some record => { roster w.store with
          record := Function.update (roster w.store).record old none }.assign new record := by
  have hrecord : (roster w.store).record old = w.store.getRecord old := rfl
  simp only [onKeyRotated,sat_bind,sat_readStore]
  rw [hrecord]
  cases w.store.getRecord old with
  | none => exact (sat_pure _).2 rfl
  | some record =>
    simp only [writeRecord,modifyConfig,sat_bind,sat_update,modifySources]
    rfl

theorem moveVerification_roster :
    Preserves SameRoster (modifySources (moveVerification old new)) := by
  refine update_roster fun w => ?_
  unfold moveVerification roster
  cases w.store.sources.verification old <;> rfl

theorem moveSourceAssets_roster : Preserves SameRoster (moveSourceAssets old new) := by
  refine update_roster fun w => ?_
  cases w.store.gates.sourceAssets old <;> rfl

theorem rotateSourceKey_roster (source newAddress : Address) :
    Sat (rotateSourceKey source newAddress) w fun _ w' =>
      w.store.isSource source = true ∧ w.store.isSource newAddress = false ∧
        (roster w.store).revokedAddress newAddress = false ∧
        roster w'.store = (roster w.store).rotate source newAddress := by
  simp only [rotateSourceKey,checkIsSource,checkNotRevoked,modifyRegistry,sat_bind,
    sat_requireAuth,sat_readStore,sat_ensure,sat_getSequence,sat_update]
  intro _ _ hsource htaken hrevoked
  refine (onKeyRotated_roster source newAddress).mono fun _ t ht _ => ?_
  have hmetadata : Preserves SameRoster (modifySources fun r => { r with
      metadata := moveKey r.metadata source newAddress }) := update_roster fun _ => by rfl
  have hledger : Preserves SameRoster (modifySources fun r => { r with
      rotationLedger := Function.update r.rotationLedger newAddress (some t.env.sequence) }) :=
    update_roster fun _ => by rfl
  have hsubmissions : Preserves SameRoster (moveSubmissions source newAddress) :=
    keepsRoster_of_frame (moveSubmissions_frame source newAddress) (by simp) (by simp) (by simp)
  refine (hmetadata _).mono fun _ a ha => ?_
  refine ((moveVerification_roster source newAddress).from ha).mono fun _ b hb => ?_
  refine ((moveSourceAssets_roster source newAddress).from hb).mono fun _ c hc => ?_
  refine (hsubmissions.from hc).mono fun _ d hd => ?_
  refine (hledger.from hd).mono fun _ w' hw' => ⟨hsource,htaken,hrevoked,?_⟩
  refine Eq.trans hw' ?_
  have hrenamed (r : Registry) : (r.renameSource source newAddress).srcActive =
      Function.update (Function.update r.srcActive source none) newAddress (some true) := by
    unfold Registry.renameSource
    split_ifs <;> rfl
  calc roster { t.store with registry := t.store.registry.renameSource source newAddress }
      = ((roster t.store).delist source).enlist newAddress := by
        unfold roster Roster.enlist Roster.delist
        rw [hrenamed]
    _ = (roster w.store).rotate source newAddress := by
        rw [ht,Roster.rotate]
        cases (roster w.store).record source <;> rfl

theorem setSourceGovernance_roster (approvers : List Address) (threshold : Nat) :
    Sat (setSourceGovernance approvers threshold) w fun _ w' =>
      roster w'.store = { roster w.store with governance := some ⟨approvers,threshold⟩ } := by
  refine (sat_asAdmin _).2 fun admin _ _ => ?_
  simp only [sat_bind,sat_ensure,modifySources,sat_update]
  intro _ _
  rfl

theorem enrollSource_roster (name : Text) :
    Sat (enrollSource source name) w fun _ w' => roster w'.store = roster w.store := by
  refine (sat_asAdmin _).2 fun admin _ _ => ?_
  simp only [checkSourceName,sat_bind,sat_readStore,sat_ensure,modifySources,sat_update]
  intro _ _ _
  rfl

theorem submitSourceEvidence_roster (identity endpointOwnership contact reliability : Text) :
    Sat (submitSourceEvidence source identity endpointOwnership contact reliability) w
      fun _ w' => roster w'.store = roster w.store := by
  simp only [submitSourceEvidence,readEnrollment,sat_bind,sat_requireAuth,sat_consult,
    sat_ensure,modifySources,sat_update]
  intro _ _ _ _
  rfl

theorem requireApprover_sat (caller : Address) :
    Sat (requireApprover caller) w fun gov w' => w' = w ∧
      (roster w.store).governance = some gov ∧ gov.threshold ≠ 0 ∧ caller ∈ gov.approvers := by
  rw [requireApprover,sat_bind]
  refine (sat_lookup (o := w.store.sources.governance)
    (by cases w.store.sources.governance <;> rfl)).mono ?_
  rintro gov _ ⟨hgov,rfl⟩
  simp only [sat_bind,sat_ensure,sat_pure]
  exact fun hthreshold hcaller => ⟨trivial,hgov,hthreshold,hcaller⟩

/-- A proposal starts without approvals. -/
theorem proposeSource_roster (proposer source : Address) (name : Text) :
    Sat (proposeSource proposer source name) w fun id w' =>
      roster w'.store = (roster w.store).file id ⟨id,source,name,[],false⟩ := by
  have hvalid : Preserves SameRoster (validateString 64 false name) :=
    .check fun _ => .check fun _ => preserves_ensure _ _
  rw [proposeSource,sat_bind]
  refine (requireAuth_roster proposer w).mono fun _ t ht => ?_
  refine (hvalid.from ht).andThen fun _ u hu => ?_
  refine (requireApprover_sat proposer).andThen ?_
  rintro _ v ⟨hv,_⟩
  have hsame : roster v.store = roster w.store := by rwa [hv]
  simp only [sat_bind,sat_readStore,modifySources,sat_update,sat_pure]
  rw [← hsame]
  rfl

/-- An approval is added; it registers the source if it is the last that the proposal needs. -/
theorem approveSource_roster (approver : Address) (proposalId : Nat) :
    Sat (approveSource approver proposalId) w fun _ w' => ∃ gov proposal,
      (roster w.store).governance = some gov ∧ gov.threshold ≠ 0 ∧ approver ∈ gov.approvers ∧
      (roster w.store).proposal proposalId = some proposal ∧ proposal.executed = false ∧
      approver ∉ proposal.approvals ∧
      if gov.threshold ≤ proposal.approvals.length+1 then
        ((roster w.store).active proposal.source).isSome = false ∧
        roster w'.store = ((roster w.store).enlist proposal.source).file proposalId
          { proposal with approvals := proposal.approvals ++ [approver], executed := true }
      else roster w'.store = (roster w.store).file proposalId
        { proposal with approvals := proposal.approvals ++ [approver] } := by
  rw [approveSource,sat_bind,sat_requireAuth]
  intro _
  refine (requireApprover_sat approver).andThen ?_
  rintro gov t ⟨ht,hgov,hthreshold,happrover⟩
  rw [ht,sat_bind]
  refine (sat_lookup (o := w.store.sources.proposal proposalId)
    (by dsimp only; cases w.store.sources.proposal proposalId <;> rfl)).mono ?_
  rintro proposal _ ⟨hproposal,rfl⟩
  simp only [sat_bind,sat_ensure]
  intro hopen hfresh
  refine sat_ite _ (fun hlast => ?_) fun hmore => ?_
  · rw [List.length_append,List.length_singleton] at hlast
    refine (registerSourceInternal_roster proposal.source proposal.name).andThen ?_
    rintro _ u ⟨hnew,_,hu⟩
    rw [writeSourceProposal,modifySources,sat_update]
    refine ⟨gov,proposal,hgov,hthreshold,happrover,hproposal,hopen,hfresh,?_⟩
    rw [if_pos hlast]
    exact ⟨hnew,congrArg (fun r : Roster => r.file proposalId
      { proposal with approvals := proposal.approvals ++ [approver], executed := true }) hu⟩
  · rw [List.length_append,List.length_singleton] at hmore
    rw [writeSourceProposal,modifySources,sat_update]
    refine ⟨gov,proposal,hgov,hthreshold,happrover,hproposal,hopen,hfresh,?_⟩
    rw [if_neg hmore]
    rfl

end Effects

end PriceOracle.Sources
