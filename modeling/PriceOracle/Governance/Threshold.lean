import PriceOracle.Governance.Queue
import Mathlib.Data.List.Dedup

/-! # Reaching the approval threshold

A rotation compares the threshold with the number of entries of the governor list, an approval is
refused to an address that has given one. What can be reached is the number of distinct entries. -/

namespace PriceOracle.Governance

open Lib.Transaction Lib.MachineInt Lib.Run Model

/-- Who is in office and what threshold a proposal gets; operations lie under their identifiers. -/
structure InOffice (governors : Option (List Address)) (required : Option Nat) (m : Multisig) :
    Prop where
  governors : m.governors = governors
  required : m.requiredApprovals = required
  keyed : ∀ i op, m.op i = some op → op.id = i

section Office

variable {gs : Option (List Address)} {required : Option Nat} {m : Multisig} {w : World}
  {op : MultiSigOperation} {i budget : Nat}

theorem InOffice.writeOp (h : InOffice gs required m) : InOffice gs required (m.writeOp op) :=
  ⟨h.governors,h.required,keyed_writeOp h.keyed⟩

theorem InOffice.removeOp (h : InOffice gs required m) : InOffice gs required (m.removeOp i) :=
  ⟨h.governors,h.required,keyed_removeOp h.keyed⟩

theorem stripApprovals_inOffice (governors : List Address)
    (h : InOffice gs required w.store.multisig) :
    Sat (stripApprovals governors budget i) w fun _ w' =>
      InOffice gs required w'.store.multisig := by
  induction budget generalizing i w with
  | zero => exact sat_abort _
  | succ budget ih =>
    apply sat_ite
    · intro _
      exact (sat_pure _).2 h
    · intro _
      rw [sat_bind,sat_readOp]
      intro op _
      have hstrip : Sat (stripOperation governors op) w fun _ w' =>
          InOffice gs required w'.store.multisig := by
        apply sat_ite
        · intro _
          exact (sat_pure _).2 h
        · intro _
          exact (sat_update _ _).2 h.writeOp
      exact hstrip.andThen fun _ _ hw => ih hw

theorem patchPredecessor_inOffice (opId next : Nat) (h : InOffice gs required w.store.multisig) :
    Sat (patchPredecessor opId next budget i) w fun _ w' =>
      InOffice gs required w'.store.multisig := by
  induction budget generalizing i w with
  | zero => exact sat_abort _
  | succ budget ih =>
    apply sat_ite
    · intro _
      exact (sat_pure _).2 h
    · intro _
      rw [sat_bind,sat_readOp]
      intro cur _
      apply sat_ite
      · intro _
        have hpatched : InOffice gs required
            (w.store.multisig.writeOp { cur with nextOpId := next }) := h.writeOp
        apply sat_ite
        · intro _
          exact (sat_update _ _).2 ⟨hpatched.governors,hpatched.required,hpatched.keyed⟩
        · intro _
          exact (sat_pure _).2 hpatched
      · intro _
        exact ih h

theorem advanceQueue_inOffice (next : Nat) (h : InOffice gs required w.store.multisig) :
    Sat (advanceQueue next) w fun _ w' => InOffice gs required w'.store.multisig := by
  refine (advanceQueue_sat next).mono fun _ w' hw => ?_
  rw [hw]
  exact ⟨h.governors,h.required,h.keyed⟩

/-- The rotation puts its governors and its threshold in office. -/
theorem setGovernors_inOffice {governors : List Address} {n : Nat}
    (h : InOffice gs required w.store.multisig) :
    Sat (Model.setGovernors governors n) w fun _ w' =>
      n ≤ governors.length ∧ InOffice (some governors) (some n) w'.store.multisig := by
  unfold Model.setGovernors asAdmin getAdmin readQueueHead
  simp only [sat_bind,sat_consult,sat_requireAuth,sat_ensure,modifyMultisig,sat_update,
    sat_readStore]
  intro admin _ _ hreq
  rw [not_or,not_lt] at hreq
  have happointed : InOffice (some governors) (some n)
      { w.store.multisig with
        governors := some governors
        requiredApprovals := some n
        previousRequiredApprovals := some w.store.multisig.readRequiredApprovals } :=
    ⟨rfl,rfl,h.keyed⟩
  exact (stripApprovals_inOffice governors happointed).mono fun _ w' hw => ⟨hreq.2,hw⟩

/-- An operation that nobody has approved is stored as `i`. -/
def FreshAt (i : Nat) (m : Multisig) : Prop := ∃ op, m.op i = some op ∧ op.approvals = []

/-- Linking the new operation may set its own pointer and changes nothing else about it. -/
theorem appendToQueue_fresh (tail : Nat) (h : InOffice gs required w.store.multisig)
    (hfresh : FreshAt i w.store.multisig) :
    Sat (appendToQueue i tail) w fun _ w' =>
      InOffice gs required w'.store.multisig ∧ FreshAt i w'.store.multisig := by
  unfold appendToQueue writeQueueHead writeQueueTail Model.writeOp
  apply sat_ite
  · intro _
    rw [sat_bind,modifyMultisig,sat_update,modifyMultisig,sat_update]
    exact ⟨⟨h.governors,h.required,h.keyed⟩,hfresh⟩
  · intro _
    rw [sat_bind,sat_readOp]
    intro last hlast
    have hlinked : InOffice gs required
        (w.store.multisig.writeOp { last with nextOpId := i }) := h.writeOp
    rw [sat_bind,modifyMultisig,sat_update,modifyMultisig,sat_update]
    refine ⟨⟨hlinked.governors,hlinked.required,hlinked.keyed⟩,?_⟩
    obtain ⟨op,hop,happrovals⟩ := hfresh
    change ∃ op', Function.update w.store.multisig.op last.id
      (some { last with nextOpId := i }) i = some op' ∧ op'.approvals = []
    by_cases hsame : i = last.id
    · -- the counter has wrapped around to the tail, which the new operation replaced
      have hid : last.id = tail := h.keyed tail last hlast
      rw [hsame,hid,hlast,Option.some.injEq] at hop
      rw [hsame,Function.update_self]
      exact ⟨_,rfl,by rw [← happrovals,← hop]⟩
    · rw [Function.update_of_ne hsame]
      exact ⟨op,hop,happrovals⟩

theorem proposeMsOperation_fresh (p : Address) (ty : OperationType) (d : Bytes)
    (h : InOffice gs required w.store.multisig) :
    Sat (Model.proposeMsOperation p ty d) w fun _ w' => InOffice gs required w'.store.multisig ∧
      FreshAt (wrap32 (w.store.multisig.readOpCount+1)) w'.store.multisig := by
  unfold Model.proposeMsOperation readGovernors nextOpId Model.writeOp
  simp only [sat_bind,sat_requireAuth,sat_readStore,sat_ensure,modifyMultisig,sat_update,
    sat_pure,sat_getSequence]
  intro _ _
  apply appendToQueue_fresh
  · exact ⟨h.governors,h.required,keyed_writeOp h.keyed⟩
  · exact ⟨_,Function.update_self ..,rfl⟩

theorem execMultisig_inOffice {st : Store} {t : MultisigTx}
    (h : ∃ gs n, InOffice gs n st.multisig) :
    ∃ gs n, InOffice gs n (execMultisig st t).multisig := by
  apply invoke_of_sat (P := fun s => ∃ gs n, InOffice gs n s.multisig) h
  obtain ⟨env,call⟩ := t
  obtain ⟨gs,n,h⟩ := h
  have henter : InOffice gs n (World.enter env st).store.multisig := h
  cases call with
  | setGovernors governors k =>
    exact (setGovernors_inOffice henter).mono fun _ w' hw => ⟨_,_,hw.2⟩
  | proposeMsOperation p ty d =>
    change Sat (do let _ ← Model.proposeMsOperation p ty d) _ _
    rw [sat_bind]
    exact (proposeMsOperation_fresh p ty d henter).mono fun _ w' hw =>
      (sat_pure _).2 ⟨gs,n,hw.1⟩
  | approveOperation g i =>
    change Sat (Model.approveOperation g i) _ _
    unfold Model.approveOperation readGovernors Model.writeOp
    simp only [sat_bind,sat_requireAuth,sat_readStore,sat_ensure,modifyMultisig,sat_update,
      sat_readOp,sat_getSequence]
    intro _ _ op _ _
    exact ⟨gs,n,henter.writeOp⟩
  | retractApproval g i =>
    change Sat (Model.retractApproval g i) _ _
    unfold Model.retractApproval readGovernors Model.writeOp
    simp only [sat_bind,sat_requireAuth,sat_readStore,sat_ensure,modifyMultisig,sat_update,
      sat_readOp]
    intro _ _ op _ _
    exact ⟨gs,n,henter.writeOp⟩
  | executeMsOperation e i =>
    change Sat (Model.executeMsOperation e i) _ _
    unfold Model.executeMsOperation readQueueHead
    rw [sat_bind]
    refine (checkAdminOrGovernor_sat e).mono fun _ w₁ h₁ => ?_
    have hsame : InOffice gs n w₁.store.multisig := by
      rw [h₁.2]
      exact henter
    simp only [sat_bind,sat_readStore,sat_ensure,sat_readOp,sat_getSequence]
    intro _ op _ _ _ _
    refine (advanceQueue_inOffice op.nextOpId hsame).mono fun _ w₂ h₂ => ?_
    rw [modifyMultisig,sat_update]
    exact ⟨gs,n,h₂.removeOp⟩
  | cancelMsOperation c i =>
    change Sat (Model.cancelMsOperation c i) _ _
    unfold Model.cancelMsOperation readQueueHead unlinkFromQueue
    rw [sat_bind]
    refine (checkAdminOrGovernor_sat c).mono fun _ w₁ h₁ => ?_
    have hsame : InOffice gs n w₁.store.multisig := by
      rw [h₁.2]
      exact henter
    simp only [sat_bind,sat_readStore,sat_readOp]
    intro op _
    apply sat_ite
    · intro _
      refine (advanceQueue_inOffice op.nextOpId hsame).mono fun _ w₂ h₂ => ?_
      rw [modifyMultisig,sat_update]
      exact ⟨gs,n,h₂.removeOp⟩
    · intro _
      refine (patchPredecessor_inOffice i op.nextOpId hsame).mono fun _ w₂ h₂ => ?_
      rw [modifyMultisig,sat_update]
      exact ⟨gs,n,h₂.removeOp⟩
  | setTimelockDuration d =>
    have hframe : Frame [.auths,.config,.flags,.suspension] (Model.setTimelockDuration d) :=
      asAdmin_frame (configure_frame _ _)
    refine (hframe (World.enter env st)).mono fun _ w' hw => ?_
    have hsame : w'.store.multisig = st.multisig := hw .multisig (by simp)
    rw [hsame]
    exact ⟨gs,n,h⟩

/-- From the first use of the multi-signature calls on, operations lie under their identifiers. -/
theorem run_inOffice {st : Store} (hst : st.multisig = {}) (ts : List MultisigTx) :
    ∃ gs n, InOffice gs n (run execMultisig st ts).multisig := by
  have hempty : ∃ gs n, InOffice gs n st.multisig := by
    rw [hst]
    exact ⟨none,none,rfl,rfl,fun i op hop => by cases hop⟩
  have hkeep (s : Store) (t : MultisigTx) (hs : ∃ gs n, InOffice gs n s.multisig) (_ : True) :
      True ∧ ∃ gs n, InOffice gs n (execMultisig s t).multisig :=
    ⟨trivial,execMultisig_inOffice hs⟩
  exact (steps_satisfy hkeep hempty fun _ _ => trivial).2

end Office

/-- Operation `i` has the listed approvals, and the listed governors are in office. -/
structure Pending (governors approvals : List Address) (i : Nat) (m : Multisig) : Prop where
  governors : m.readGovernors = governors
  stored : ∃ op, m.op i = some op ∧ op.id = i ∧ op.approvals = approvals

def approval (env : Env) (i : Nat) (a : Address) : MultisigTx := ⟨env, .approveOperation a i⟩

/-- At least `required` distinct addresses can approve operation `i` one after the other, in any
environment in which they sign. -/
def ThresholdReachable (st : Store) (i required : Nat) : Prop :=
  ∃ signers : List Address, signers.Nodup ∧ required ≤ signers.length ∧
    ∀ env : Env, (∀ a ∈ signers, env.authorized a = true) →
      ∀ x ∈ steps execMultisig st (signers.map (approval env i)), x.2.failure x.1 = none

section Approvals

variable {governors approvals signers : List Address} {i required : Nat} {st : Store} {env : Env}
  {a : Address}

@[simp] theorem fails_readOp (i : Nat) {w : World} (E : ErrorCode → World → Prop) :
    Fails (readOp i) w E ↔ (w.store.multisig.op i = none → E .operationNotFound w) := by
  unfold readOp
  rw [fails_consult]
  cases w.store.multisig.op i <;> simp

/-- Exactly the governors in office that have not approved yet are let through. -/
theorem approval_succeeds_iff (h : Pending governors approvals i st.multisig) :
    (approval env i a).failure st = none ↔
      env.authorized a = true ∧ a ∈ governors ∧ a ∉ approvals := by
  obtain ⟨op,hop,-,happrovals⟩ := h.stored
  constructor
  · intro hok
    obtain ⟨u,w',hrun⟩ := failure_eq_none_iff.1 hok
    have hsat : Sat (Model.approveOperation a i) (World.enter env st) fun _ _ =>
        env.authorized a = true ∧ a ∈ governors ∧ a ∉ approvals := by
      unfold Model.approveOperation readGovernors Model.writeOp
      simp only [sat_bind,sat_requireAuth,sat_readStore,sat_ensure,modifyMultisig,sat_update,
        sat_readOp,sat_getSequence]
      intro hauth hgov op' hop' hnew
      have hsame : op' = op := Option.some.inj (hop'.symm.trans hop)
      rw [hsame,happrovals] at hnew
      exact ⟨hauth,h.governors ▸ hgov,hnew⟩
    exact hsat u w' hrun
  · rintro ⟨hauth,hgov,hnew⟩
    have hstored : (World.enter (approval env i a).env st).store.multisig.op i = some op := hop
    have hoffice :
        (World.enter (approval env i a).env st).store.multisig.readGovernors = governors :=
      h.governors
    have hsigned : (World.enter (approval env i a).env st).env.authorized a = true := hauth
    apply succeeds_of_no_failure
    change Fails (Model.approveOperation a i) _ _
    unfold Model.approveOperation readGovernors Model.writeOp
    simp only [fails_bind,fails_requireAuth,sat_requireAuth,fails_readStore,sat_readStore,
      fails_ensure,sat_ensure,fails_readOp,sat_readOp,fails_getSequence,sat_getSequence,
      modifyMultisig,fails_update,hstored,hoffice,hsigned]
    simp [hgov,happrovals,hnew]

theorem approval_pending (h : Pending governors approvals i st.multisig)
    (hok : (approval env i a).failure st = none) :
    Pending governors (approvals ++ [a]) i (execMultisig st (approval env i a)).multisig := by
  obtain ⟨op,hop,hid,happrovals⟩ := h.stored
  apply invoke_of_success
    (Q := fun s : Store => Pending governors (approvals ++ [a]) i s.multisig) hok
  change Sat (Model.approveOperation a i) _ _
  unfold Model.approveOperation readGovernors Model.writeOp
  simp only [sat_bind,sat_requireAuth,sat_readStore,sat_ensure,modifyMultisig,sat_update,
    sat_readOp,sat_getSequence]
  intro _ _ op' hop' _
  have hsame : op' = op := Option.some.inj (hop'.symm.trans hop)
  rw [hsame]
  refine ⟨h.governors,op.approvedBy a env.sequence,?_,hid,?_⟩
  · change Function.update st.multisig.op op.id _ i = _
    rw [hid,Function.update_self]
    rfl
  · change op.approvals ++ [a] = approvals ++ [a]
    rw [happrovals]

/-- A sequence of approvals goes through exactly if no address repeats itself or an earlier one. -/
theorem approvals_succeed_iff (h : Pending governors approvals i st.multisig) :
    (∀ x ∈ steps execMultisig st (signers.map (approval env i)), x.2.failure x.1 = none) ↔
      signers.Nodup ∧
        ∀ a ∈ signers, env.authorized a = true ∧ a ∈ governors ∧ a ∉ approvals := by
  induction signers generalizing approvals st with
  | nil => simp
  | cons a signers ih =>
    rw [List.map_cons,steps_cons,List.forall_mem_cons,List.forall_mem_cons,List.nodup_cons]
    constructor
    · rintro ⟨hfirst,hrest⟩
      obtain ⟨hnodup,hall⟩ := (ih (approval_pending h hfirst)).1 hrest
      refine ⟨⟨fun hmem => ?_,hnodup⟩,(approval_succeeds_iff h).1 hfirst,fun b hb => ?_⟩
      · exact (hall a hmem).2.2 (by simp)
      · obtain ⟨hauth,hgov,hnew⟩ := hall b hb
        exact ⟨hauth,hgov,fun hold => hnew (List.mem_append_left _ hold)⟩
    · rintro ⟨⟨hfresh,hnodup⟩,hhead,hall⟩
      have hfirst : (approval env i a).failure st = none := (approval_succeeds_iff h).2 hhead
      refine ⟨hfirst,(ih (approval_pending h hfirst)).2 ⟨hnodup,fun b hb => ?_⟩⟩
      obtain ⟨hauth,hgov,hnew⟩ := hall b hb
      refine ⟨hauth,hgov,fun hold => ?_⟩
      rw [List.mem_append,List.mem_singleton] at hold
      rcases hold with hold | rfl
      · exact hnew hold
      · exact hfresh hb

/-- An operation nobody has approved can get as many approvals as there are distinct governors. -/
theorem thresholdReachable_iff (h : Pending governors [] i st.multisig) :
    ThresholdReachable st i required ↔ required ≤ governors.dedup.length := by
  constructor
  · rintro ⟨signers,hnodup,hlen,hall⟩
    have hrun := (approvals_succeed_iff h).1 (hall (.concrete 0 0 signers) (by simp [Env.concrete]))
    have hsub : signers ⊆ governors.dedup := by
      intro a ha
      exact List.mem_dedup.2 (hrun.2 a ha).2.1
    exact hlen.trans (hnodup.subperm hsub).length_le
  · intro hlen
    refine ⟨governors.dedup,governors.nodup_dedup,hlen,fun env hauth => ?_⟩
    refine (approvals_succeed_iff h).2 ⟨governors.nodup_dedup,fun a ha => ?_⟩
    exact ⟨hauth a ha,List.mem_dedup.1 ha,List.not_mem_nil⟩

end Approvals

def nextIssued (st : Store) : Nat := wrap32 (st.multisig.readOpCount + 1)

section Rotations

variable {now rotated : Store} {rotation proposal : Env} {governors : List Address}
  {required : Nat} {p : Address} {ty : OperationType} {d : Bytes}

/-- A proposal made right after a rotation awaits the approvals of the governors it named. -/
theorem rotated_pending (hnow : ∃ gs n, InOffice gs n now.multisig)
    (hrotation : failure (Model.setGovernors governors required) rotation now = none)
    (hrotated : rotated = invoke (Model.setGovernors governors required) rotation now)
    (hproposal : failure (Model.proposeMsOperation p ty d) proposal rotated = none) :
    Pending governors [] (nextIssued rotated)
      (invoke (Model.proposeMsOperation p ty d) proposal rotated).multisig := by
  obtain ⟨gs,n,hnow⟩ := hnow
  have henter : InOffice gs n (World.enter rotation now).store.multisig := hnow
  have hoffice : InOffice (some governors) (some required) rotated.multisig := by
    rw [hrotated]
    exact invoke_of_success (Q := fun s => InOffice (some governors) (some required) s.multisig)
      hrotation ((setGovernors_inOffice henter).mono fun _ _ hw => hw.2)
  have hproposed : InOffice (some governors) (some required)
        (invoke (Model.proposeMsOperation p ty d) proposal rotated).multisig ∧
      FreshAt (nextIssued rotated)
        (invoke (Model.proposeMsOperation p ty d) proposal rotated).multisig :=
    invoke_of_success (Q := fun s => InOffice (some governors) (some required) s.multisig ∧
        FreshAt (nextIssued rotated) s.multisig) hproposal
      (proposeMsOperation_fresh (w := World.enter proposal rotated) p ty d hoffice)
  obtain ⟨hkept,op,hop,happrovals⟩ := hproposed
  refine ⟨?_,op,hop,hkept.keyed _ op hop,happrovals⟩
  unfold Multisig.readGovernors
  rw [hkept.governors]
  rfl

end Rotations

/-- After every rotation that succeeds, in every run of the multi-signature operations, the
threshold of a new operation can be reached exactly if the list names that many governors. -/
theorem setGovernors_threshold_iff (st : Store) (hst : st.multisig = {}) (ts : List MultisigTx)
    (rotation proposal : Env) (governors : List Address) (required : Nat) (p : Address)
    (ty : OperationType) (d : Bytes) (rotated : Store)
    (hrotation : failure (Model.setGovernors governors required) rotation
      (run execMultisig st ts) = none)
    (hrotated : rotated =
      invoke (Model.setGovernors governors required) rotation (run execMultisig st ts))
    (hproposal : failure (Model.proposeMsOperation p ty d) proposal rotated = none) :
    ThresholdReachable (invoke (Model.proposeMsOperation p ty d) proposal rotated)
      (nextIssued rotated) required ↔ required ≤ governors.dedup.length :=
  thresholdReachable_iff (rotated_pending (run_inOffice hst ts) hrotation hrotated hproposal)

/-- The storage after the admin has appointed the governors. -/
def appointedStore (governors : List Address) (required : Nat) : Store :=
  invoke (Model.setGovernors governors required) (.concrete 10 100 [1, 7, 8]) adminStore

theorem distinct_governors_reach :
    ThresholdReachable (invoke (Model.proposeMsOperation 7 .setAdmin [])
      (.concrete 11 100 [1, 7, 8]) (appointedStore [7, 8] 2)) 1 2 :=
  (setGovernors_threshold_iff adminStore rfl [] (.concrete 10 100 [1,7,8])
    (.concrete 11 100 [1,7,8]) [7,8] 2 7 .setAdmin [] (appointedStore [7,8] 2) rfl rfl rfl).2
      (by decide)

/-- A governor listed twice counts as two for the rotation and as one for the approvals. -/
theorem repeated_governor_falls_short :
    failure (Model.setGovernors [7, 7] 2) (.concrete 10 100 [1, 7, 8]) adminStore = none ∧
      failure (Model.proposeMsOperation 7 .setAdmin []) (.concrete 11 100 [1, 7, 8])
        (appointedStore [7, 7] 2) = none ∧
      ¬ThresholdReachable (invoke (Model.proposeMsOperation 7 .setAdmin [])
        (.concrete 11 100 [1, 7, 8]) (appointedStore [7, 7] 2)) 1 2 := by
  refine ⟨rfl,rfl,?_⟩
  have hnow : ∃ gs n, InOffice gs n adminStore.multisig := run_inOffice rfl []
  have hrotation : failure (Model.setGovernors [7,7] 2) (.concrete 10 100 [1,7,8]) adminStore =
      none := rfl
  have hproposal : failure (Model.proposeMsOperation 7 .setAdmin []) (.concrete 11 100 [1,7,8])
      (appointedStore [7,7] 2) = none := rfl
  have hpending : Pending [7,7] [] 1 (invoke (Model.proposeMsOperation 7 .setAdmin [])
      (.concrete 11 100 [1,7,8]) (appointedStore [7,7] 2)).multisig :=
    rotated_pending hnow hrotation rfl hproposal
  rw [thresholdReachable_iff hpending]
  decide

end PriceOracle.Governance
