import Mathlib.Data.List.Perm.Subperm
import PriceOracle.Recovery.Lifecycle

/-! # Recovery without the administrator

There is one recovery in flight at a time, and only the administrator can clear it for another
candidate. Guardians who find it free, or taken by their own candidate, need nobody else. -/

namespace PriceOracle.Recovery

open Lib.Transaction Lib.MachineInt Lib.Run Model

section Invariants

variable {st : Store} {t : RecoveryTx} {ts : List RecoveryTx}

/-- The guardians and the threshold are what the administrator configured. -/
def Configured (guardians : List Address) (threshold : Nat) (st : Store) : Prop :=
  st.getGuardians = guardians ∧ st.getRecoveryThreshold = threshold

theorem Configured.keep {guardians : List Address} {threshold : Nat}
    (h : Configured guardians threshold st) (hunsigned : ¬AdminSigns t.env st) :
    Configured guardians threshold (execRecovery st t) := by
  unfold Configured Store.getGuardians Store.getRecoveryThreshold at h ⊢
  cases execRecovery_effect st t with
  | quiet heffect => rwa [heffect]
  | configured hsigned => exact (hunsigned hsigned).elim
  | approved _ _ _ _ _ _ _ _ heffect => rwa [heffect]
  | cancelled _ _ _ _ heffect => rwa [heffect]
  | vetoed _ _ _ _ heffect => rwa [heffect]
  | executed _ _ _ heffect => rwa [heffect]

def Prompt (st : Store) : Prop :=
  ∀ r, st.recovery.pending = some r → st.getRecoveryThreshold ≤ r.approvals.length →
    r.readyLedger ≠ 0

theorem Prompt.keep (h : Prompt st) (hledger : 0 < t.env.sequence) : Prompt (execRecovery st t) := by
  intro r hr
  rw [Store.getRecoveryThreshold]
  cases execRecovery_effect st t with
  | quiet heffect =>
    rw [heffect] at hr ⊢
    exact h r hr
  | configured _ hpending =>
    rw [hpending] at hr
    cases hr
  | approved guardian newAdmin x _ _ _ _ _ heffect =>
    rw [heffect] at hr ⊢
    rw [Option.some.injEq] at hr
    rw [← hr]
    unfold GuardianRecovery.approve
    intro hquorum
    dsimp only at hquorum ⊢
    split_ifs with hfirst
    · exact Nat.ne_of_gt hledger
    · intro hzero
      exact hfirst ⟨hzero,hquorum⟩
  | cancelled _ _ _ _ heffect =>
    rw [heffect] at hr
    cases hr
  | vetoed _ _ _ _ heffect =>
    rw [heffect] at hr
    cases hr
  | executed _ _ _ heffect =>
    rw [heffect] at hr
    cases hr

theorem run_prompt (hst : st.recovery.pending = none) (hledger : ∀ t ∈ ts, 0 < t.env.sequence) :
    Prompt (run execRecovery st ts) := by
  have hstart : Prompt st := by
    intro r hr
    rw [hst] at hr
    cases hr
  exact (steps_satisfy (P := fun _ _ => True) (C := fun _ t => 0 < t.env.sequence)
    (fun s t hs ht => ⟨trivial,hs.keep ht⟩) hstart
    fun x hx => hledger x.2 (snd_mem_of_mem_steps hx)).2

end Invariants

section Votes

variable {st : Store} {t : RecoveryTx} {guardian newAdmin : Address}

/-- No recovery is in flight, or it is the candidate's. -/
def FreeFor (newAdmin : Address) (st : Store) : Prop :=
  ∀ r, st.recovery.pending = some r → r.newAdmin = newAdmin

/-- The recovery in flight has the guardian's approval. -/
def Approved (guardian : Address) (st : Store) : Prop :=
  ∃ r, st.recovery.pending = some r ∧ guardian ∈ r.approvals

def vote (newAdmin : Address) (v : Env × Address) : RecoveryTx :=
  ⟨v.1, .call (.approveRecovery v.2 newAdmin)⟩

theorem approveRecovery_fails (w : World) (hauth : w.env.authorized guardian = true)
    (hguardian : guardian ∈ w.store.getGuardians) (hfree : FreeFor newAdmin w.store) :
    Fails (Model.approveRecovery guardian newAdmin) w fun _ _ => Approved guardian w.store := by
  simp only [Model.approveRecovery,fails_bind,fails_requireAuth,sat_requireAuth,
    fails_readStore,sat_readStore,fails_getSequence,sat_getSequence,fails_ensure,sat_ensure,
    modifyRecovery,fails_update,hauth]
  cases hpending : w.store.recovery.pending with
  | none => simp [hguardian]
  | some r =>
    simp only [Option.getD_some,hfree r hpending,hguardian,not_true_eq_false,false_imp_iff,
      true_and,forall_const,and_true,not_not]
    refine ⟨fun hfalse => ?_,fun happroved => ⟨r,hpending,happroved⟩,fun _ => trivial⟩
    cases hfalse

/-- A vote counts, or had counted before; it unsettles nothing else. -/
theorem vote_counts {v : Env × Address} (hauth : v.1.authorized v.2 = true)
    (hguardian : v.2 ∈ st.getGuardians) (hfree : FreeFor newAdmin st) :
    FreeFor newAdmin (execRecovery st (vote newAdmin v)) ∧
      Approved v.2 (execRecovery st (vote newAdmin v)) ∧
      (∀ g, Approved g st → Approved g (execRecovery st (vote newAdmin v))) ∧
      ∀ guardians threshold, Configured guardians threshold st →
        Configured guardians threshold (execRecovery st (vote newAdmin v)) := by
  have hact : (vote newAdmin v).act = .call (.approveRecovery v.2 newAdmin) := rfl
  unfold FreeFor Approved Configured Store.getGuardians Store.getRecoveryThreshold
  rcases execRecovery_call st hact (approveRecovery_sat v.2 newAdmin) with
    ⟨h,hno⟩ | ⟨-,w,⟨r,hr,hsame,-,-,h⟩,hw⟩
  · rw [h]
    refine ⟨hfree,?_,fun g hg => hg,fun guardians threshold hconfigured => hconfigured⟩
    cases hfail : failure (Model.approveRecovery v.2 newAdmin) v.1 st with
    | none => exact (hno _ ⟨rfl,hfail⟩).elim
    | some e =>
      exact failure_of_fails (E := fun _ => Approved v.2 st) hfail
        (approveRecovery_fails (World.enter v.1 st) hauth hguardian hfree)
  · rw [hw] at h
    rw [h]
    refine ⟨fun x hx => ?_,⟨_,rfl,List.mem_append_right _ (List.mem_singleton_self _)⟩,?_,
      fun guardians threshold hconfigured => hconfigured⟩
    · rw [← Option.some.inj hx]
      exact hsame
    · rintro g ⟨x,hx,hg⟩
      have hrx : r = x := by
        rw [hr]
        change st.recovery.pending.getD _ = x
        rw [hx,Option.getD_some]
      refine ⟨_,rfl,List.mem_append_left _ ?_⟩
      rwa [hrx]

theorem votes_count {votes : List (Env × Address)} {guardians : List Address} {threshold : Nat}
    (hauth : ∀ v ∈ votes, v.1.authorized v.2 = true ∧ v.2 ∈ guardians)
    (hconfigured : Configured guardians threshold st) (hfree : FreeFor newAdmin st) :
    FreeFor newAdmin (run execRecovery st (votes.map (vote newAdmin))) ∧
      Configured guardians threshold (run execRecovery st (votes.map (vote newAdmin))) ∧
      ∀ g, g ∈ votes.map Prod.snd ∨ Approved g st →
        Approved g (run execRecovery st (votes.map (vote newAdmin))) := by
  induction votes generalizing st with
  | nil =>
    refine ⟨hfree,hconfigured,fun g hg => ?_⟩
    simpa using hg
  | cons v votes ih =>
    rw [List.forall_mem_cons] at hauth
    obtain ⟨⟨hsigned,hguardian⟩,hrest⟩ := hauth
    rw [← hconfigured.1] at hguardian
    obtain ⟨hfree',hvoted,hkept,hconfig⟩ := vote_counts hsigned hguardian hfree
    obtain ⟨hfinal,hsame,hcount⟩ := ih hrest (hconfig _ _ hconfigured) hfree'
    refine ⟨hfinal,hsame,fun g hg => hcount g ?_⟩
    rw [List.map_cons,List.mem_cons] at hg
    rcases hg with (rfl | hg) | hg
    · exact .inr hvoted
    · exact .inl hg
    · exact .inr (hkept g hg)

end Votes

section Completion

variable {st : Store} {t : RecoveryTx} {w : World}

theorem checkRecoveryConfigUnlocked_frame {T : List Region} :
    Frame T checkRecoveryConfigUnlocked :=
  .read fun _ => .check fun _ => .read fun _ => preserves_ensure _ _

theorem vetoRecovery_frame (r : GuardianRecovery) : Frame [.recovery] (vetoRecovery r) := by
  unfold vetoRecovery
  split_ifs
  · exact preserves_pure _
  · exact .read fun _ => .check fun _ => .read fun _ => modifyRecovery_frame _

/-- No call leaves the contract without an administrator. -/
theorem body_admin (call : RecoveryCall) :
    Sat call.body w fun _ w' =>
      w.store.config.admin.isSome = true → w'.store.config.admin.isSome = true := by
  have hkeep (m : Contract Unit) (hm : Frame [.auths,.recovery] m) :
      Sat m w fun _ w' =>
        w.store.config.admin.isSome = true → w'.store.config.admin.isSome = true := by
    refine (hm w).mono fun _ w' hw hadmin => ?_
    rwa [show w'.store.config = w.store.config from hw .config (by decide)]
  cases call with
  | setGuardians guardians threshold =>
    exact hkeep _ (asAdmin_frame (checkRecoveryConfigUnlocked_frame.bind fun _ => .check fun _ =>
      modifyRecovery_frame _))
  | setRecoveryDelay delayLedgers =>
    exact hkeep _ (asAdmin_frame (checkRecoveryConfigUnlocked_frame.bind fun _ => .check fun _ =>
      modifyRecovery_frame _))
  | approveRecovery guardian newAdmin =>
    refine hkeep _ (((requireAuth_frame guardian).mono (by decide)).bind fun _ => .read fun _ =>
      .check fun _ =>
      .read fun _ => .read fun _ =>
      .check fun _ => .check fun _ =>
      .read fun _ => (modifyRecovery_frame _).mono (by decide))
  | cancelRecovery =>
    exact hkeep _ (asAdmin_frame (.lookup fun r => (vetoRecovery_frame r).bind fun _ =>
      modifyRecovery_frame _))
  | executeRecovery =>
    refine executeRecovery_sat.mono ?_
    rintro _ w' ⟨r,_,_,_,hadmin,_⟩ _
    rw [hadmin]
    rfl

theorem execRecovery_admin (h : st.config.admin.isSome = true) :
    (execRecovery st t).config.admin.isSome = true := by
  unfold execRecovery
  cases t.act with
  | call call =>
    exact invoke_of_sat (P := fun s => s.config.admin.isSome = true) h
      ((body_admin call).mono fun _ _ hw => hw h)
  | elsewhere rest =>
    cases hrest : rest.config.admin with
    | none => simpa [hrest] using h
    | some admin => simp [hrest]

theorem run_admin (ts : List RecoveryTx) (h : st.config.admin.isSome = true) :
    (run execRecovery st ts).config.admin.isSome = true := by
  induction ts generalizing st with
  | nil => exact h
  | cons t ts ih => exact ih (execRecovery_admin h)

theorem executeRecovery_succeeds {env : Env} {r : GuardianRecovery}
    (hr : st.recovery.pending = some r) (hready : r.readyLedger ≠ 0)
    (hdelay : r.readyLedger + st.getRecoveryDelay ≤ env.sequence)
    (hadmin : st.config.admin.isSome = true) :
    failure Model.executeRecovery env st = none ∧
      (invoke Model.executeRecovery env st).config.admin = some r.newAdmin := by
  have hwaited : satAdd32 r.readyLedger st.getRecoveryDelay ≤ env.sequence := by
    unfold satAdd32
    omega
  have hok : failure Model.executeRecovery env st = none := by
    refine succeeds_of_no_failure ((fails_bind _).2 ⟨readPendingRecovery_fails.mono
      fun _ _ hnone => ?_,readPendingRecovery_sat.mono fun x t ⟨hx,ht⟩ => ?_⟩)
    · rw [show st.recovery.pending = none from hnone] at hr
      cases hr
    · obtain ⟨admin,hadmin⟩ := Option.isSome_iff_exists.1 hadmin
      rw [ht,show x = r from Option.some.inj (hx.symm.trans hr)]
      simp [hready,getAdmin,World.enter,hadmin,modifyConfig,hwaited]
  refine ⟨hok,invoke_of_success (Q := fun s => s.config.admin = some r.newAdmin) hok ?_⟩
  refine executeRecovery_sat.mono ?_
  rintro _ w' ⟨x,hx,_,_,hnew,_⟩
  rw [hnew,show x = r from Option.some.inj (hx.symm.trans hr)]

end Completion

theorem run_configured {st : Store} {guardians : List Address} {threshold : Nat}
    {ts : List RecoveryTx} (hlost : ∀ x ∈ steps execRecovery st ts, ¬AdminSigns x.2.env x.1)
    (hconfigured : Configured guardians threshold st) (hadmin : st.config.admin.isSome = true) :
    Configured guardians threshold (run execRecovery st ts) ∧
      (run execRecovery st ts).config.admin.isSome = true :=
  (steps_satisfy (P := fun _ _ => True)
    (I := fun s => Configured guardians threshold s ∧ s.config.admin.isSome = true)
    (fun _ _ hs ht => ⟨trivial,hs.1.keep ht,execRecovery_admin hs.2⟩) ⟨hconfigured,hadmin⟩
    hlost).2

theorem setup_configured {st : Store} {t : RecoveryTx} {guardians : List Address} {threshold : Nat}
    (h : t.Performs st (.setGuardians guardians threshold)) :
    0 < threshold ∧ Configured guardians threshold (execRecovery st t) ∧
      (execRecovery st t).config.admin.isSome = true := by
  rcases execRecovery_call st h.1 (setGuardians_sat guardians threshold) with
    ⟨-,hno⟩ | ⟨-,w,⟨⟨admin,hadmin,-⟩,-,hpos,heffect⟩,hw⟩
  · exact (hno _ h).elim
  · rw [hw] at heffect
    refine ⟨hpos,⟨?_,?_⟩,execRecovery_admin (Option.isSome_iff_exists.2 ⟨admin,hadmin⟩)⟩
    · rw [Store.getGuardians,heffect]
      rfl
    · rw [Store.getRecoveryThreshold,heffect]
      rfl

/-- After an accepted configuration and without the administrator, guardians as many as the
threshold who find no recovery of another candidate in flight install their candidate: they vote,
wait for the delay, and anyone executes. -/
theorem guardians_recover (st : Store) (hst : st.recovery = {}) (pre : List RecoveryTx)
    (setup : RecoveryTx) (ts : List RecoveryTx) (guardians : List Address) (threshold : Nat)
    (hsetup : setup.Performs (run execRecovery st pre) (.setGuardians guardians threshold))
    (hlost : ∀ x ∈ steps execRecovery (run execRecovery st (pre ++ [setup])) ts,
      ¬AdminSigns x.2.env x.1)
    (newAdmin : Address) (hfree : FreeFor newAdmin (run execRecovery st (pre ++ [setup] ++ ts)))
    (votes : List (Env × Address))
    (hvotes : ∀ v ∈ votes, v.1.authorized v.2 = true ∧ v.2 ∈ guardians)
    (hdistinct : (votes.map Prod.snd).Nodup) (hquorum : threshold ≤ votes.length) (env : Env)
    (hledgers : ∀ t ∈ pre ++ [setup] ++ ts ++ votes.map (vote newAdmin), 0 < t.env.sequence ∧
      t.env.sequence + (run execRecovery st (pre ++ [setup] ++ ts ++
        votes.map (vote newAdmin))).getRecoveryDelay ≤ env.sequence) :
    failure Model.executeRecovery env
        (run execRecovery st (pre ++ [setup] ++ ts ++ votes.map (vote newAdmin))) = none ∧
      (invoke Model.executeRecovery env (run execRecovery st (pre ++ [setup] ++ ts ++
        votes.map (vote newAdmin)))).config.admin = some newAdmin := by
  have hpending : st.recovery.pending = none := by rw [hst]
  obtain ⟨hpos,hconfigured,hadmin⟩ := setup_configured hsetup
  have hstart : execRecovery (run execRecovery st pre) setup =
      run execRecovery st (pre ++ [setup]) := run_concat.symm
  rw [hstart] at hconfigured hadmin
  obtain ⟨hconfigured,hadmin⟩ := run_configured hlost hconfigured hadmin
  rw [← run_append] at hconfigured hadmin
  obtain ⟨hfinal,hconfigured,happroved⟩ := votes_count hvotes hconfigured hfree
  have hadmin' := run_admin (votes.map (vote newAdmin)) hadmin
  rw [← run_append] at hfinal hconfigured happroved hadmin'
  -- every voter's approval is in the one recovery in flight
  obtain ⟨v,hv⟩ := List.exists_mem_of_length_pos (Nat.lt_of_lt_of_le hpos hquorum)
  obtain ⟨r,hr,-⟩ := happroved v.2 (.inl (List.mem_map_of_mem hv))
  have hsubset : votes.map Prod.snd ⊆ r.approvals := by
    intro g hg
    obtain ⟨x,hx,hmem⟩ := happroved g (.inl hg)
    rwa [show r = x from Option.some.inj (hr.symm.trans hx)]
  have hlength : threshold ≤ r.approvals.length := by
    have hle := (List.subperm_of_subset hdistinct hsubset).length_le
    rw [List.length_map] at hle
    exact Nat.le_trans hquorum hle
  have hready : r.readyLedger ≠ 0 := by
    refine run_prompt hpending (fun t ht => (hledgers t ht).1) r hr ?_
    rw [hconfigured.2]
    exact hlength
  obtain ⟨-,hsince⟩ := (run_supported hpending hr).quorum hready
  obtain ⟨before,t,after,heq,⟨hsequence,-⟩,-⟩ := hsince
  have hdelay := (hledgers t (heq ▸ List.mem_append_right before List.mem_cons_self)).2
  rw [hsequence] at hdelay
  have hsame : r.newAdmin = newAdmin := hfinal r hr
  obtain ⟨hok,hinstalled⟩ := executeRecovery_succeeds hr hready hdelay hadmin'
  exact ⟨hok,hinstalled.trans (congrArg some hsame)⟩

/-- Guardian `3` names candidate `9` first; the votes of the two others for candidate `8` are
refused, and no wait makes their recovery executable. -/
theorem one_guardian_blocks :
    (run execRecovery guardedStore ([step 10 7 (.setGuardians [1, 2, 3] 2),
        step 20 3 (.approveRecovery 3 9)] ++ bothApprove 30 8)).recovery.pending =
        some ⟨9, [3], 20, 0⟩ ∧
      failure (Model.approveRecovery 1 8) (.concrete 30 0 [1])
        (run execRecovery guardedStore [step 10 7 (.setGuardians [1, 2, 3] 2),
          step 20 3 (.approveRecovery 3 9)]) = some .recoveryAlreadyPending ∧
      failure Model.executeRecovery (.concrete 30000 0 [])
        (run execRecovery guardedStore ([step 10 7 (.setGuardians [1, 2, 3] 2),
          step 20 3 (.approveRecovery 3 9)] ++ bothApprove 30 8)) =
        some .recoveryDelayNotElapsed := by
  decide

/-- Two of three guardians recover the contract after the third has approved their candidate. -/
theorem two_guardians_recover :
    (invoke Model.executeRecovery (.concrete 20000 0 []) (run execRecovery guardedStore
      ([] ++ [step 10 7 (.setGuardians [1, 2, 3] 2)] ++ [step 20 3 (.approveRecovery 3 8)] ++
        [(Env.concrete 30 0 [1], 1), (Env.concrete 30 0 [2], 2)].map (vote 8)))).config.admin =
      some 8 := by
  refine (guardians_recover guardedStore rfl [] (step 10 7 (.setGuardians [1,2,3] 2))
    [step 20 3 (.approveRecovery 3 8)] [1,2,3] 2 ?_ ?_ 8 ?_
    [(.concrete 30 0 [1],1),(.concrete 30 0 [2],2)] (by decide) (by decide) (by decide)
    (.concrete 20000 0 []) ?_).2
  · exact ⟨rfl,by decide⟩
  · intro x hx
    rw [steps_cons,steps_nil,List.mem_singleton] at hx
    rw [hx]
    rintro ⟨admin,hadmin,hauth⟩
    have hseven : (run execRecovery guardedStore
      ([] ++ [step 10 7 (.setGuardians [1,2,3] 2)])).config.admin = some 7 := by decide
    rw [← show 7 = admin from Option.some.inj (hseven.symm.trans hadmin)] at hauth
    exact absurd hauth (by decide)
  · intro r hr
    have hpending : (run execRecovery guardedStore ([] ++ [step 10 7 (.setGuardians [1,2,3] 2)] ++
      [step 20 3 (.approveRecovery 3 8)])).recovery.pending = some ⟨8,[3],20,0⟩ := by decide
    rw [← Option.some.inj (hpending.symm.trans hr)]
  · decide

end PriceOracle.Recovery
