import PriceOracle.Sources.Roster

/-! # The admission of sources

Where the approval of new sources is in force, an address should become a source only by the
approvals of enough members, or in the place of a source. Two of the ways in do not ask. -/

namespace PriceOracle.Sources

open Lib.Transaction Lib.Run Model

inductive AdmissionCall
  | setSourceGovernance (approvers : List Address) (threshold : Nat)
  | proposeSource (proposer source : Address) (name : Text)
  | approveSource (approver : Address) (proposalId : Nat)
  | addSource (source : Address) (name : Text)
  | addSourceWithAssets (source : Address) (name : Text) (assets : List Address)
  | enrollSource (source : Address) (name : Text)
  | submitSourceEvidence (source : Address)
      (identity endpointOwnership contact reliability : Text)
  | activateSource (source : Address)
  | onboard (source : Address) (name : Text) (identity : Bytes)
  | rotateSourceKey (source newAddress : Address)

def AdmissionCall.body : AdmissionCall → Contract Unit
  | setSourceGovernance approvers threshold => Model.setSourceGovernance approvers threshold
  | proposeSource proposer source name => do
    let _ ← Model.proposeSource proposer source name
    pure ()
  | approveSource approver proposalId => Model.approveSource approver proposalId
  | addSource source name => Model.addSource source name
  | addSourceWithAssets source name assets => Model.addSourceWithAssets source name assets
  | enrollSource source name => Model.enrollSource source name
  | submitSourceEvidence source identity endpointOwnership contact reliability =>
    Model.submitSourceEvidence source identity endpointOwnership contact reliability
  | activateSource source => Model.activateSource source
  | onboard source name identity => Model.onboard source name identity
  | rotateSourceKey source newAddress => Model.rotateSourceKey source newAddress

structure AdmissionTx where
  env : Env
  call : AdmissionCall

def execAdmission (st : Store) (t : AdmissionTx) : Store := invoke t.call.body t.env st

/-- The members of the approver set among those who have approved. -/
def endorsers (gov : SourceGovernance) (approvals : List Address) : Finset Address :=
  approvals.toFinset.filter fun a => a ∈ gov.approvers

/-- The call approves a proposal of the source, and enough members now have. -/
def AdmittedBy (st : Store) (t : AdmissionTx) (source : Address) : Prop :=
  ∃ approver proposalId gov proposal, t.call = .approveSource approver proposalId ∧
    st.sources.governance = some gov ∧
    (execAdmission st t).sources.proposal proposalId = some proposal ∧
    proposal.source = source ∧ gov.threshold ≤ (endorsers gov proposal.approvals).card

/-- Whoever becomes a source while approvals are needed has them, or takes a source's place. -/
def Sanctioned (st : Store) (t : AdmissionTx) : Prop :=
  ∀ source, st.governed = true → st.isSource source = false →
    (execAdmission st t).isSource source = true →
      AdmittedBy st t source ∨ ∃ old, t.call = .rotateSourceKey old source ∧ st.isSource old = true

/-- While approvals are needed, no call that does not ask for them succeeds, and the approvals that
complete a proposal are of members. -/
def Gated (st : Store) (t : AdmissionTx) : Prop :=
  st.governed = true → failure t.call.body t.env st = none → match t.call with
    | .addSourceWithAssets _ _ _ => False
    | .activateSource _ => False
    | .approveSource approver proposalId => ∀ gov proposal, st.sources.governance = some gov →
        st.sources.proposal proposalId = some proposal →
          gov.threshold ≤ proposal.approvals.length + 1 →
            gov.threshold ≤ (endorsers gov (proposal.approvals ++ [approver])).card
    | _ => True

section Steps

variable {st : Store} {t : AdmissionTx} {source : Address} {env : Env}

theorem isSource_eq (st : Store) (source : Address) :
    st.isSource source = ((roster st).active source).getD false := rfl

theorem isSource_enlist {st st' : Store}
    (h : roster st' = (roster st).enlist source) (a : Address) :
    st'.isSource a = if a = source then true else st.isSource a := by
  rw [isSource_eq,isSource_eq,h,Roster.enlist_active,Function.update_apply]
  split_ifs <;> rfl

theorem isSource_of_absent
    (h : ((roster st).active source).isSome = false) : st.isSource source = false := by
  rw [Option.isSome_eq_false_iff,Option.isNone_iff_eq_none] at h
  rw [isSource_eq,h,Option.getD_none]

theorem sanctioned_of_same (h : ∀ a, (execAdmission st t).isSource a = st.isSource a) :
    Sanctioned st t := by
  intro source _ hout hin
  rw [h,hout] at hin
  cases hin

theorem not_sanctioned (hgoverned : st.governed = true)
    (hout : st.isSource source = false) (hin : (execAdmission st t).isSource source = true)
    (happrove : ∀ approver proposalId, t.call ≠ .approveSource approver proposalId)
    (hrotate : ∀ old new, t.call ≠ .rotateSourceKey old new) : ¬Sanctioned st t := by
  intro h
  rcases h source hgoverned hout hin with ⟨approver,proposalId,_,_,hcall,_⟩ | ⟨old,hcall,_⟩
  · exact happrove approver proposalId hcall
  · exact hrotate old source hcall

/-- A call that needs no approval and enlists a source is not sanctioned. -/
theorem enlisted_iff (hgoverned : st.governed = true)
    (hlisted : ((roster st).active source).isSome = false ∧
      roster (execAdmission st t) = (roster st).enlist source)
    (happrove : ∀ approver proposalId, t.call ≠ .approveSource approver proposalId)
    (hrotate : ∀ old new, t.call ≠ .rotateSourceKey old new) : Sanctioned st t ↔ False := by
  have hin : (execAdmission st t).isSource source = true := by
    rw [isSource_enlist hlisted.2,if_pos rfl]
  exact iff_of_false (not_sanctioned hgoverned (isSource_of_absent hlisted.1) hin happrove hrotate)
    id

theorem approve_iff {approver : Address} {proposalId : Nat} (hgoverned : st.governed = true)
    (hsuccess : failure (approveSource approver proposalId) env st = none) :
    Sanctioned st ⟨env,.approveSource approver proposalId⟩ ↔
      ∀ gov proposal, st.sources.governance = some gov →
        st.sources.proposal proposalId = some proposal →
          gov.threshold ≤ proposal.approvals.length+1 →
            gov.threshold ≤ (endorsers gov (proposal.approvals ++ [approver])).card := by
  let t : AdmissionTx := ⟨env,.approveSource approver proposalId⟩
  obtain ⟨gov,proposal,hgov,-,-,hproposal,-,-,heffect⟩ :=
    invoke_of_success (Q := fun st' => ∃ gov proposal, (roster st).governance = some gov ∧
      gov.threshold ≠ 0 ∧ approver ∈ gov.approvers ∧
      (roster st).proposal proposalId = some proposal ∧ proposal.executed = false ∧
      approver ∉ proposal.approvals ∧
      if gov.threshold ≤ proposal.approvals.length+1 then
        ((roster st).active proposal.source).isSome = false ∧
        roster st' = ((roster st).enlist proposal.source).file proposalId
          { proposal with approvals := proposal.approvals ++ [approver], executed := true }
      else roster st' = (roster st).file proposalId
        { proposal with approvals := proposal.approvals ++ [approver] })
      hsuccess (approveSource_roster (w := World.enter env st) approver proposalId)
  change if _ then _ ∧ roster (execAdmission st t) = _ else roster (execAdmission st t) = _
    at heffect
  by_cases hlast : gov.threshold ≤ proposal.approvals.length+1
  · rw [if_pos hlast] at heffect
    obtain ⟨hnew,hroster⟩ := heffect
    have hsource (a : Address) : (execAdmission st t).isSource a =
        if a = proposal.source then true else st.isSource a := by
      rw [isSource_eq,isSource_eq,hroster]
      simp only [Roster.file_active,Roster.enlist_active,Function.update_apply]
      split_ifs <;> rfl
    have hstored : (execAdmission st t).sources.proposal proposalId = some { proposal with
        approvals := proposal.approvals ++ [approver]
        executed := true } := by
      change (roster (execAdmission st t)).proposal proposalId = _
      rw [hroster,Roster.file_proposal,Function.update_self]
    constructor
    · intro h gov' proposal' hgov' hproposal' _
      obtain rfl : gov = gov' := Option.some.inj (hgov.symm.trans hgov')
      obtain rfl : proposal = proposal' := Option.some.inj (hproposal.symm.trans hproposal')
      have hin : (execAdmission st t).isSource proposal.source = true := by
        rw [hsource,if_pos rfl]
      rcases h proposal.source hgoverned (isSource_of_absent hnew) hin with
        ⟨a,id,gov',p,hcall,hgov',hp,-,hcard⟩ | ⟨old,hcall,-⟩
      · cases hcall
        obtain rfl : gov = gov' := Option.some.inj (hgov.symm.trans hgov')
        rw [hstored,Option.some.injEq] at hp
        rwa [← hp] at hcard
      · cases hcall
    · intro h source _ hout hin
      rw [hsource] at hin
      split_ifs at hin with hsame
      · exact .inl ⟨approver,proposalId,gov,_,rfl,hgov,hstored,hsame.symm,
          h gov proposal hgov hproposal hlast⟩
      · rw [hout] at hin
        cases hin
  · rw [if_neg hlast] at heffect
    refine iff_of_true (sanctioned_of_same fun a => ?_) ?_
    · rw [isSource_eq,isSource_eq,heffect,Roster.file_active]
    · intro gov' proposal' hgov' hproposal' hlast'
      obtain rfl : gov = gov' := Option.some.inj (hgov.symm.trans hgov')
      obtain rfl : proposal = proposal' := Option.some.inj (hproposal.symm.trans hproposal')
      exact absurd hlast' hlast

theorem rotate_sanctioned {source newAddress : Address}
    (hsuccess : failure (rotateSourceKey source newAddress) env st = none) :
    Sanctioned st ⟨env,.rotateSourceKey source newAddress⟩ := by
  obtain ⟨hsource,-,-,hroster⟩ := invoke_of_success (Q := fun st' =>
    st.isSource source = true ∧ st.isSource newAddress = false ∧
      (roster st).revokedAddress newAddress = false ∧
      roster st' = (roster st).rotate source newAddress)
    hsuccess (rotateSourceKey_roster (w := World.enter env st) source newAddress)
  intro a _ hout hin
  refine .inr ⟨source,?_,hsource⟩
  change ((roster (invoke (rotateSourceKey source newAddress) env st)).active a).getD false = true
    at hin
  rw [hroster,Roster.rotate_active,Function.update_apply,Function.update_apply] at hin
  split_ifs at hin with hnew hold
  · rw [hnew]
  · simp at hin
  · rw [isSource_eq,hin] at hout
    cases hout

/-- A step is sanctioned exactly if it is gated. -/
theorem execAdmission_iff : Sanctioned st t ↔ Gated st t := by
  obtain ⟨env,call⟩ := t
  by_cases hgoverned : st.governed = true
  · cases hrun : failure call.body env st with
    | some e =>
      refine iff_of_true (sanctioned_of_same fun a => ?_) fun _ hnone => ?_
      · rw [show execAdmission st ⟨env,call⟩ = st from invoke_of_failure hrun]
      · rw [hrun] at hnone
        cases hnone
    | none =>
      have hgated {P : Prop} : (st.governed = true → failure call.body env st = none → P) ↔ P :=
        ⟨fun h => h hgoverned hrun,fun h _ _ => h⟩
      unfold Gated
      rw [hgated]
      have hkept (hm : Sat call.body (World.enter env st) fun _ w =>
          (roster w.store).active = (roster st).active) : Sanctioned st ⟨env,call⟩ := by
        have hactive : (roster (execAdmission st ⟨env,call⟩)).active = (roster st).active :=
          invoke_of_success (Q := fun st' => (roster st').active = (roster st).active) hrun hm
        exact sanctioned_of_same fun a => by rw [isSource_eq,isSource_eq,hactive]
      have hclosed (hm : Sat call.body (World.enter env st) fun _ _ => st.governed = false) :
          Sanctioned st ⟨env,call⟩ := by
        have hopen : st.governed = false :=
          invoke_of_success (Q := fun _ => st.governed = false) hrun hm
        rw [hopen] at hgoverned
        cases hgoverned
      cases call with
      | setSourceGovernance approvers threshold =>
        refine iff_of_true (hkept ?_) trivial
        exact (setSourceGovernance_roster approvers threshold).mono fun _ _ h => by rw [h]; rfl
      | proposeSource proposer source name =>
        refine iff_of_true (hkept ?_) trivial
        exact (proposeSource_roster proposer source name).andThen fun _ _ h =>
          (sat_pure _).2 (by rw [h]; rfl)
      | approveSource approver proposalId => exact approve_iff hgoverned hrun
      | addSource source name =>
        exact iff_of_true (hclosed ((addSource_roster source name).mono fun _ _ h => h.1)) trivial
      | addSourceWithAssets source name assets =>
        exact enlisted_iff hgoverned (invoke_of_success (Q := fun st' =>
          ((roster st).active source).isSome = false ∧ roster st' = (roster st).enlist source) hrun
          (addSourceWithAssets_roster (w := World.enter env st) source name assets)) (by simp)
          (by simp)
      | enrollSource source name =>
        exact iff_of_true (hkept ((enrollSource_roster source name).mono
          fun _ _ h => congrArg Roster.active h)) trivial
      | submitSourceEvidence source identity endpointOwnership contact reliability =>
        exact iff_of_true (hkept ((submitSourceEvidence_roster source identity endpointOwnership
          contact reliability).mono fun _ _ h => congrArg Roster.active h)) trivial
      | activateSource source =>
        exact enlisted_iff hgoverned (invoke_of_success (Q := fun st' =>
          ((roster st).active source).isSome = false ∧ roster st' = (roster st).enlist source) hrun
          (activateSource_roster (w := World.enter env st) source)) (by simp) (by simp)
      | onboard source name identity =>
        exact iff_of_true (hclosed ((onboard_roster source name identity).mono
          fun _ _ h => h.1)) trivial
      | rotateSourceKey source newAddress => exact iff_of_true (rotate_sanctioned hrun) trivial
  · refine iff_of_true (fun _ h => absurd h hgoverned) fun h => absurd h hgoverned

end Steps

/-- In every run, whoever becomes a source while approvals are needed has them, or takes a source's
place, exactly if no call that does not ask for approvals succeeds meanwhile, and the approvals that
complete a proposal are of members. -/
theorem admission_sanctioned_iff (st : Store) (ts : List AdmissionTx) :
    (∀ x ∈ steps execAdmission st ts, Sanctioned x.1 x.2) ↔
      ∀ x ∈ steps execAdmission st ts, Gated x.1 x.2 :=
  steps_iff (I := fun _ => True) (fun _ _ _ => trivial) (fun _ _ _ => execAdmission_iff) trivial

def adminStore : Store where
  config := { admin := some 9 }

/-- Two approvals are needed, and the administrator adds a source without any. -/
def ungatedRun : List AdmissionTx :=
  [⟨.concrete 100 5 [9], .setSourceGovernance [7, 8] 2⟩,
    ⟨.concrete 101 6 [9], .addSourceWithAssets 1 [65] []⟩]

/-- One of the two approvals is of an address that has left the set. -/
def staleRun : List AdmissionTx :=
  [⟨.concrete 100 5 [9], .setSourceGovernance [7, 8] 2⟩,
    ⟨.concrete 101 6 [7], .proposeSource 7 1 [65]⟩,
    ⟨.concrete 102 7 [7], .approveSource 7 1⟩,
    ⟨.concrete 103 8 [9], .setSourceGovernance [8, 6] 2⟩,
    ⟨.concrete 104 9 [8], .approveSource 8 1⟩]

/-- Address 1 becomes a source in both runs, on no approval and on one. -/
theorem admission_unsanctioned :
    (¬∀ x ∈ steps execAdmission adminStore ungatedRun, Sanctioned x.1 x.2) ∧
      (run execAdmission adminStore ungatedRun).isSource 1 = true ∧
      (¬∀ x ∈ steps execAdmission adminStore staleRun, Sanctioned x.1 x.2) ∧
      (run execAdmission adminStore staleRun).isSource 1 = true := by
  refine ⟨fun h => ?_,by decide +kernel,fun h => ?_,by decide +kernel⟩
  · have hlast := h (run execAdmission adminStore (ungatedRun.take 1),
      ⟨.concrete 101 6 [9],.addSourceWithAssets 1 [65] []⟩) (by simp [ungatedRun])
    have hout : (run execAdmission adminStore (ungatedRun.take 1)).isSource 1 = false := by
      decide +kernel
    exact not_sanctioned (by decide +kernel) hout (by decide +kernel) (by simp) (by simp) hlast
  · have hlast := h (run execAdmission adminStore (staleRun.take 4),
      ⟨.concrete 104 9 [8],.approveSource 8 1⟩) (by simp [staleRun])
    have hgated := execAdmission_iff.1 hlast (by decide +kernel) (by decide +kernel)
      ⟨[8,6],2⟩ ⟨1,1,[65],[7],false⟩ (by decide +kernel) (by decide +kernel)
      (by decide +kernel)
    exact absurd hgated (by decide +kernel)

end PriceOracle.Sources
