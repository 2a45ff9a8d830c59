import PriceOracle.Lib.Queues
import PriceOracle.Model.Configuration
import PriceOracle.Model.Invocation
import PriceOracle.Model.Multisig
import Mathlib.Order.Nat

/-! # Effects of the multi-signature operations

`MultisigEffect` lists what a successful call does to the governors and the queue of pending
operations, guards included. Two calls walk the queue, so their effect is stated for a queue whose
pointers are intact; there both walks end and find every operation they visit. -/

namespace PriceOracle.Governance

open Lib.Transaction Lib.Footprint Lib.MachineInt Lib.LinkedQueue Model

inductive MultisigCall
  | setGovernors (governors : List Address) (required : Nat)
  | proposeMsOperation (proposer : Address) (opType : OperationType) (data : Bytes)
  | approveOperation (governor : Address) (opId : Nat)
  | retractApproval (governor : Address) (opId : Nat)
  | executeMsOperation (executor : Address) (opId : Nat)
  | cancelMsOperation (canceller : Address) (opId : Nat)
  | setTimelockDuration (duration : Nat)

def MultisigCall.body : MultisigCall → Contract Unit
  | .setGovernors governors required => Model.setGovernors governors required
  | .proposeMsOperation proposer opType data => do
    let _ ← Model.proposeMsOperation proposer opType data
  | .approveOperation governor opId => Model.approveOperation governor opId
  | .retractApproval governor opId => Model.retractApproval governor opId
  | .executeMsOperation executor opId => Model.executeMsOperation executor opId
  | .cancelMsOperation canceller opId => Model.cancelMsOperation canceller opId
  | .setTimelockDuration duration => Model.setTimelockDuration duration

/-- One multi-signature call with the environment it is made in. -/
structure MultisigTx where
  env : Env
  call : MultisigCall

def execMultisig (st : Store) (t : MultisigTx) : Store := invoke t.call.body t.env st

def MultisigTx.failure (t : MultisigTx) (st : Store) : Option ErrorCode :=
  Model.failure t.call.body t.env st

/-- The pointers thread exactly the stored operations, whose identifiers have been issued. -/
structure QueueIntact (m : Multisig) (ids : List Nat) : Prop where
  threads : Threads m.nextOp m.readQueueHead m.readQueueTail ids
  keyed : ∀ i op, m.op i = some op → op.id = i
  issued : ∀ i ∈ ids, i ≤ m.readOpCount
  count_le : m.readOpCount ≤ u32Max

section Pointers

variable {m : Multisig} {ids : List Nat} {i : Nat} {op : MultiSigOperation}

theorem nextOp_of_stored (h : m.op i = some op) : m.nextOp i = some op.nextOpId := by
  unfold Multisig.nextOp
  rw [h]
  rfl

theorem stored_of_nextOp {j : Nat} (h : m.nextOp i = some j) :
    ∃ op, m.op i = some op ∧ op.nextOpId = j := by
  unfold Multisig.nextOp at h
  simpa using h

theorem nextOp_writeOp (op : MultiSigOperation) :
    (m.writeOp op).nextOp = Function.update m.nextOp op.id (some op.nextOpId) := by
  funext k
  unfold Multisig.nextOp Multisig.writeOp
  by_cases hk : k = op.id
  · rw [hk]
    simp
  · simp [hk]

theorem nextOp_removeOp (id : Nat) :
    (m.removeOp id).nextOp = Function.update m.nextOp id none := by
  funext k
  unfold Multisig.nextOp Multisig.removeOp
  by_cases hk : k = id
  · rw [hk]
    simp
  · simp [hk]

theorem nextOp_rewrite {new : MultiSigOperation} (hop : m.op new.id = some op)
    (hnext : new.nextOpId = op.nextOpId) : (m.writeOp new).nextOp = m.nextOp := by
  rw [nextOp_writeOp,hnext,← nextOp_of_stored hop]
  exact Function.update_eq_self _ _

theorem writeOp_self (hop : m.op i = some op) (hid : op.id = i) : m.writeOp op = m := by
  unfold Multisig.writeOp
  rw [hid,← hop,Function.update_eq_self]

theorem keyed_writeOp (h : ∀ i op, m.op i = some op → op.id = i) (k : Nat)
    (o : MultiSigOperation) (ho : (m.writeOp op).op k = some o) : o.id = k := by
  rcases stored_of_update ho with ⟨hk,rfl⟩ | ho
  · exact hk.symm
  · exact h k o ho

theorem keyed_removeOp (h : ∀ i op, m.op i = some op → op.id = i) (k : Nat)
    (o : MultiSigOperation) (ho : (m.removeOp i).op k = some o) : o.id = k := by
  exact h k o (stored_of_erase ho).2

theorem QueueIntact.mem_iff (h : QueueIntact m ids) : i ∈ ids ↔ ∃ op, m.op i = some op := by
  rw [← h.threads.stored i,Option.isSome_iff_exists]
  constructor
  · rintro ⟨j,hj⟩
    obtain ⟨op,hop,-⟩ := stored_of_nextOp hj
    exact ⟨op,hop⟩
  · rintro ⟨op,hop⟩
    exact ⟨_,nextOp_of_stored hop⟩

theorem QueueIntact.ne_zero (h : QueueIntact m ids) (hop : m.op i = some op) : i ≠ 0 :=
  h.threads.segment.ne_zero i (h.mem_iff.2 ⟨op,hop⟩)

theorem QueueIntact.length_lt (h : QueueIntact m ids) : ids.length < walkBudget := by
  have hlen : ids.length ≤ m.readOpCount :=
    length_le_of_bounded h.threads.nodup h.threads.segment.ne_zero h.issued
  have hmax := h.count_le
  unfold u32Max at hmax
  unfold walkBudget
  omega

theorem QueueIntact.tail_ne_next (h : QueueIntact m ids) (htail : m.readQueueTail ≠ 0) :
    m.readQueueTail ≠ wrap32 (m.readOpCount+1) := by
  obtain ⟨pre,hpre⟩ := h.threads.eq_concat htail
  have hle := h.issued m.readQueueTail (by rw [hpre]; simp)
  have hmax := h.count_le
  unfold wrap32
  unfold u32Max at hmax
  omega

end Pointers

/-- The storage with the multi-signature part replaced. -/
def withMultisig (w : World) (m : Multisig) : World :=
  { w with store := { w.store with multisig := m } }

/-- What the rotation loop leaves in place of an operation. -/
def rotated (governors : List Address) (op : MultiSigOperation) : MultiSigOperation :=
  if (op.retained governors).length = op.approvals.length then op else op.strip governors

@[simp] theorem rotated_id (governors : List Address) (op : MultiSigOperation) :
    (rotated governors op).id = op.id := by
  unfold rotated
  split_ifs <;> rfl

@[simp] theorem rotated_nextOpId (governors : List Address) (op : MultiSigOperation) :
    (rotated governors op).nextOpId = op.nextOpId := by
  unfold rotated
  split_ifs <;> rfl

/-- The operations after a rotation that visits the listed ones. -/
def rotateAll (m : Multisig) (governors : List Address) (ids : List Nat) : Multisig :=
  { m with op := fun i => if i ∈ ids then (m.op i).map (rotated governors) else m.op i }

section Walks

variable {ids : List Nat} {w : World}

theorem readOp_of_stored {i : Nat} {op : MultiSigOperation}
    (h : w.store.multisig.op i = some op) : readOp i w = .ok op w := by
  simp [readOp,consult,h]

/-- The rotation loop visits the whole segment and rewrites its operations in place. -/
theorem stripApprovals_run {m : Multisig} {c budget : Nat} (governors : List Address)
    (hseg : Segment m.nextOp c ids 0) (hnodup : ids.Nodup)
    (hkeyed : ∀ i op, m.op i = some op → op.id = i) (hlen : ids.length < budget) :
    stripApprovals governors budget c (withMultisig w m) =
      .ok () (withMultisig w (rotateAll m governors ids)) := by
  induction ids generalizing m c budget with
  | nil =>
    cases budget with
    | zero => simp at hlen
    | succ budget =>
      rw [segment_nil_iff.1 hseg]
      rfl
  | cons i ids ih =>
    cases budget with
    | zero => simp at hlen
    | succ budget =>
      obtain ⟨rfl,hc,j,hj,hrest⟩ := segment_cons_iff.1 hseg
      obtain ⟨op,hop,rfl⟩ := stored_of_nextOp hj
      rw [List.nodup_cons] at hnodup
      have hid : (rotated governors op).id = c := by rw [rotated_id,hkeyed c op hop]
      have hwrite : stripOperation governors op (withMultisig w m) =
          .ok () (withMultisig w (m.writeOp (rotated governors op))) := by
        unfold stripOperation rotated
        split_ifs with heq
        · rw [writeOp_self hop (hkeyed c op hop)]
          rfl
        · rfl
      have hstored : m.op (rotated governors op).id = some op := by rw [hid,hop]
      have hnext : (m.writeOp (rotated governors op)).nextOp = m.nextOp :=
        nextOp_rewrite hstored (rotated_nextOpId governors op)
      have hkeyed' : ∀ i o, (m.writeOp (rotated governors op)).op i = some o → o.id = i :=
        keyed_writeOp hkeyed
      have hrotate : rotateAll (m.writeOp (rotated governors op)) governors ids =
          rotateAll m governors (c :: ids) := by
        unfold rotateAll Multisig.writeOp
        rw [hid]
        congr 1
        funext k
        by_cases hk : k = c
        · subst hk
          simp [hnodup.1,hop]
        · simp [hk]
      unfold stripApprovals
      rw [if_neg hc,bind_of_ok (readOp_of_stored hop),bind_of_ok hwrite,← hrotate]
      apply ih
      · rw [hnext]
        exact hrest
      · exact hnodup.2
      · exact hkeyed'
      · simpa using hlen

/-- The walk of a cancellation patches the predecessor and leaves the rest alone. -/
theorem patchPredecessor_run {m : Multisig} {c p i budget : Nat} {pre post : List Nat}
    {prev : MultiSigOperation} (next : Nat) (hseg : Segment m.nextOp c (pre ++ p :: i :: post) 0)
    (hnodup : (pre ++ p :: i :: post).Nodup) (hprev : m.op p = some prev)
    (hlen : pre.length < budget) :
    patchPredecessor i next budget c (withMultisig w m) =
      .ok () (withMultisig w { m.writeOp { prev with nextOpId := next } with
        queueTail := if next = 0 then some p else m.queueTail }) := by
  induction pre generalizing c budget with
  | nil =>
    cases budget with
    | zero => simp at hlen
    | succ budget =>
      obtain ⟨rfl,hc,j,hj,hrest⟩ := segment_cons_iff.1 hseg
      obtain ⟨rfl,-⟩ := segment_cons_iff.1 hrest
      rw [nextOp_of_stored hprev,Option.some.injEq] at hj
      unfold patchPredecessor
      rw [if_neg hc,bind_of_ok (readOp_of_stored hprev),if_pos hj]
      by_cases hnext : next = 0
      · simp only [if_pos hnext]
        rfl
      · simp only [if_neg hnext]
        rfl
  | cons k pre ih =>
    cases budget with
    | zero => simp at hlen
    | succ budget =>
      obtain ⟨rfl,hc,j,hj,hrest⟩ := segment_cons_iff.1 hseg
      obtain ⟨op,hop,rfl⟩ := stored_of_nextOp hj
      rw [List.cons_append,List.nodup_cons] at hnodup
      -- the successor of `c` is not `i`: a node of the segment stands before it
      have hne : op.nextOpId ≠ i := by
        intro heq
        rw [heq] at hrest
        cases pre with
        | nil =>
          obtain ⟨rfl,-⟩ := segment_cons_iff.1 hrest
          simp at hnodup
        | cons k' pre =>
          obtain ⟨rfl,-⟩ := segment_cons_iff.1 hrest
          simp at hnodup
      unfold patchPredecessor
      rw [if_neg hc,bind_of_ok (readOp_of_stored hop),if_neg hne]
      apply ih hrest hnodup.2
      simpa using hlen

end Walks

/-- The operation a proposal stores. -/
def newOperation (env : Env) (m : Multisig) (proposer : Address) (opType : OperationType)
    (data : Bytes) : MultiSigOperation :=
  ⟨wrap32 (m.readOpCount + 1), opType, data, [], m.readRequiredApprovals, env.sequence, proposer,
    0, 0⟩

/-- What a successful call leaves in place of the multi-signature part `m`, whose queue is `ids`. -/
inductive MultisigEffect (env : Env) (st : Store) (m : Multisig) (ids : List Nat) :
    MultisigCall → Multisig → Prop
  | rotated {governors required} (hpos : required ≠ 0) (hle : required ≤ governors.length) :
    MultisigEffect env st m ids (.setGovernors governors required)
      (rotateAll { m with
        governors := some governors
        requiredApprovals := some required
        previousRequiredApprovals := some m.readRequiredApprovals } governors ids)
  | proposedFirst {p ty d op} (hauth : env.authorized p = true) (hgov : p ∈ m.readGovernors)
      (hop : op = newOperation env m p ty d) (htail : m.readQueueTail = 0) :
    MultisigEffect env st m ids (.proposeMsOperation p ty d)
      { m.writeOp op with
        opCount := some op.id, queueHead := some op.id, queueTail := some op.id }
  | proposedNext {p ty d op last} (hauth : env.authorized p = true) (hgov : p ∈ m.readGovernors)
      (hop : op = newOperation env m p ty d) (htail : m.readQueueTail ≠ 0)
      (hlast : m.op m.readQueueTail = some last) :
    MultisigEffect env st m ids (.proposeMsOperation p ty d)
      { (m.writeOp op).writeOp { last with nextOpId := op.id } with
        opCount := some op.id, queueTail := some op.id }
  | approved {g i op} (hgov : g ∈ m.readGovernors) (hop : m.op i = some op)
      (hnew : g ∉ op.approvals) :
    MultisigEffect env st m ids (.approveOperation g i)
      (m.writeOp (op.approvedBy g env.sequence))
  | retracted {g i op} (hop : m.op i = some op) (hold : g ∈ op.approvals) :
    MultisigEffect env st m ids (.retractApproval g i) (m.writeOp (op.retractedBy g))
  | executed {e i op} (hop : m.op i = some op) (hhead : m.readQueueHead = i)
      (hquorum : op.requiredApprovals ≤ op.approvals.length) (hstart : op.timelockStartLedger ≠ 0)
      (helapsed : st.readTimelockDuration ≤ wrapSub32 env.sequence op.timelockStartLedger) :
    MultisigEffect env st m ids (.executeMsOperation e i)
      { m.removeOp i with
        queueHead := some op.nextOpId
        queueTail := if op.nextOpId = 0 then some 0 else m.queueTail }
  | cancelledHead {c i op} (hop : m.op i = some op) (hhead : m.readQueueHead = i) :
    MultisigEffect env st m ids (.cancelMsOperation c i)
      { m.removeOp i with
        queueHead := some op.nextOpId
        queueTail := if op.nextOpId = 0 then some 0 else m.queueTail }
  | cancelledInner {c i op p prev pre post} (hop : m.op i = some op)
      (hids : ids = pre ++ p :: i :: post) (hprev : m.op p = some prev) :
    MultisigEffect env st m ids (.cancelMsOperation c i)
      { (m.writeOp { prev with nextOpId := op.nextOpId }).removeOp i with
        queueTail := if op.nextOpId = 0 then some p else m.queueTail }
  | configured {d} : MultisigEffect env st m ids (.setTimelockDuration d) m

section Specs

variable {w : World} {ids : List Nat} (governors : List Address) (g : Address) (c : Address)
  (next : Nat)

@[simp] theorem sat_readOp (i : Nat) (Q : MultiSigOperation → World → Prop) :
    Sat (readOp i) w Q ↔ ∀ op, w.store.multisig.op i = some op → Q op w := by
  unfold readOp
  rw [sat_consult]
  cases w.store.multisig.op i <;> simp

theorem stripApprovals_sat {c : Nat}
    (hseg : Segment w.store.multisig.nextOp c ids 0) (hnodup : ids.Nodup)
    (hkeyed : ∀ i op, w.store.multisig.op i = some op → op.id = i)
    (hlen : ids.length < walkBudget) : Sat (stripApprovals governors walkBudget c) w fun _ w' =>
      w'.store.multisig = rotateAll w.store.multisig governors ids :=
  (sat_of_ok (stripApprovals_run (w := w) governors hseg hnodup hkeyed hlen)).2 rfl

theorem patchPredecessor_sat {p i : Nat} {pre post : List Nat} {prev : MultiSigOperation}
    (h : QueueIntact w.store.multisig (pre ++ p :: i :: post))
    (hprev : w.store.multisig.op p = some prev) :
    Sat (patchPredecessor i next walkBudget w.store.multisig.readQueueHead) w fun _ w' =>
      w'.store.multisig = { w.store.multisig.writeOp { prev with nextOpId := next } with
        queueTail := if next = 0 then some p else w.store.multisig.queueTail } := by
  have hlen : pre.length < walkBudget := by
    have := h.length_lt
    simp only [List.length_append] at this
    omega
  exact (sat_of_ok (patchPredecessor_run (w := w) next h.threads.segment h.threads.nodup hprev
    hlen)).2 rfl

theorem setGovernors_effect (required : Nat) (h : QueueIntact w.store.multisig ids) :
    Sat (Model.setGovernors governors required) w fun _ w' =>
      MultisigEffect w.env w.store w.store.multisig ids (.setGovernors governors required)
        w'.store.multisig := by
  unfold Model.setGovernors asAdmin getAdmin readQueueHead
  simp only [sat_bind,sat_consult,sat_requireAuth,sat_ensure,modifyMultisig,sat_update,
    sat_readStore]
  intro admin _ _ hreq
  rw [not_or,not_lt] at hreq
  -- the new governors are stored before the walk, which follows the pointers of `w`
  refine (stripApprovals_sat governors ?_ h.threads.nodup ?_ h.length_lt).mono fun _ w' hw => ?_
  · exact h.threads.segment
  · exact h.keyed
  · rw [hw]
    exact .rotated hreq.1 hreq.2

theorem proposeMsOperation_effect (p : Address) (ty : OperationType) (d : Bytes)
    (h : QueueIntact w.store.multisig ids) :
    Sat (Model.proposeMsOperation p ty d) w fun _ w' =>
      MultisigEffect w.env w.store w.store.multisig ids (.proposeMsOperation p ty d)
        w'.store.multisig := by
  unfold Model.proposeMsOperation readGovernors nextOpId appendToQueue Model.writeOp
    writeQueueHead writeQueueTail
  simp only [sat_bind,sat_requireAuth,sat_readStore,sat_ensure,modifyMultisig,sat_update,
    sat_pure,sat_getSequence]
  intro hauth hgov
  apply sat_ite
  · intro htail
    simp only [sat_bind,sat_update]
    exact .proposedFirst hauth hgov rfl htail
  · intro htail
    simp only [sat_bind,sat_readOp,sat_update]
    intro last hlast
    rw [Multisig.op_writeOp] at hlast
    have hlast' := Function.update_of_ne (h.tail_ne_next htail) _ _ ▸ hlast
    exact .proposedNext hauth hgov rfl htail hlast'

theorem approveOperation_effect (i : Nat) : Sat (Model.approveOperation g i) w fun _ w' =>
      MultisigEffect w.env w.store w.store.multisig ids (.approveOperation g i)
        w'.store.multisig := by
  unfold Model.approveOperation readGovernors Model.writeOp
  simp only [sat_bind,sat_requireAuth,sat_readStore,sat_ensure,modifyMultisig,sat_update,
    sat_readOp,sat_getSequence]
  intro _ hgov op hop hnew
  exact .approved hgov hop hnew

theorem retractApproval_effect (i : Nat) : Sat (Model.retractApproval g i) w fun _ w' =>
      MultisigEffect w.env w.store w.store.multisig ids (.retractApproval g i)
        w'.store.multisig := by
  unfold Model.retractApproval readGovernors Model.writeOp
  simp only [sat_bind,sat_requireAuth,sat_readStore,sat_ensure,modifyMultisig,sat_update,
    sat_readOp]
  intro _ _ op hop hold
  exact .retracted hop hold

theorem checkAdminOrGovernor_sat :
    Sat (checkAdminOrGovernor c) w fun _ w' => w'.env = w.env ∧ w'.store = w.store := by
  unfold checkAdminOrGovernor getAdmin readGovernors
  simp only [sat_bind,sat_requireAuth,sat_consult,sat_readStore,sat_ensure]
  intro _ _ _ _
  trivial

theorem advanceQueue_sat :
    Sat (advanceQueue next) w fun _ w' => w'.store.multisig = { w.store.multisig with
      queueHead := some next
      queueTail := if next = 0 then some 0 else w.store.multisig.queueTail } := by
  unfold advanceQueue writeQueueHead writeQueueTail
  apply sat_ite
  · intro hnext
    simp [hnext]
  · intro hnext
    simp [hnext]

theorem executeMsOperation_effect (e : Address) (i : Nat) :
    Sat (Model.executeMsOperation e i) w fun _ w' =>
      MultisigEffect w.env w.store w.store.multisig ids (.executeMsOperation e i)
        w'.store.multisig := by
  unfold Model.executeMsOperation readQueueHead
  rw [sat_bind]
  refine (checkAdminOrGovernor_sat e).mono fun _ w₁ h₁ => ?_
  obtain ⟨henv,hst⟩ := h₁
  simp only [sat_bind,sat_readStore,sat_ensure,sat_readOp,sat_getSequence,henv,hst]
  intro hhead op hop hquorum hstart helapsed
  refine (advanceQueue_sat op.nextOpId).mono fun _ w₂ h₂ => ?_
  rw [modifyMultisig,sat_update]
  rw [h₂,hst]
  exact .executed hop hhead hquorum hstart helapsed

theorem cancelMsOperation_effect (i : Nat) (h : QueueIntact w.store.multisig ids) :
    Sat (Model.cancelMsOperation c i) w fun _ w' =>
      MultisigEffect w.env w.store w.store.multisig ids (.cancelMsOperation c i)
        w'.store.multisig := by
  unfold Model.cancelMsOperation readQueueHead unlinkFromQueue
  rw [sat_bind]
  refine (checkAdminOrGovernor_sat c).mono fun _ w₁ h₁ => ?_
  obtain ⟨-,hst⟩ := h₁
  simp only [sat_bind,sat_readStore,sat_readOp,hst]
  intro op hop
  apply sat_ite
  · intro hhead
    refine (advanceQueue_sat op.nextOpId).mono fun _ w₂ h₂ => ?_
    rw [modifyMultisig,sat_update]
    rw [h₂,hst]
    exact .cancelledHead hop hhead
  · intro hhead
    rcases h.threads.eq_head_or_follows (h.mem_iff.2 ⟨op,hop⟩) with heq | ⟨pre,p,post,hids⟩
    · exact absurd heq.symm hhead
    · obtain ⟨prev,hprev⟩ := h.mem_iff.1 (show p ∈ ids by rw [hids]; simp)
      rw [hids] at h
      rw [← hst] at h hprev ⊢
      refine (patchPredecessor_sat op.nextOpId h hprev).mono fun _ w₂ h₂ => ?_
      rw [modifyMultisig,sat_update]
      rw [h₂]
      rw [← hst] at hop
      exact .cancelledInner hop hids hprev

theorem setTimelockDuration_effect (d : Nat) :
    Sat (Model.setTimelockDuration d) w fun _ w' =>
      MultisigEffect w.env w.store w.store.multisig ids (.setTimelockDuration d)
        w'.store.multisig := by
  have hframe : Frame [.auths,.config,.flags,.suspension] (Model.setTimelockDuration d) :=
    asAdmin_frame (configure_frame _ _)
  refine (hframe w).mono fun _ w' hw => ?_
  have hsame : w'.store.multisig = w.store.multisig := hw .multisig (by simp)
  rw [hsame]
  exact .configured

end Specs

variable {st : Store} {t : MultisigTx} {ids : List Nat}

theorem execMultisig_effect (h : QueueIntact st.multisig ids) (hok : t.failure st = none) :
    MultisigEffect t.env st st.multisig ids t.call (execMultisig st t).multisig := by
  obtain ⟨env,call⟩ := t
  apply invoke_of_success (Q := fun s => MultisigEffect env st st.multisig ids call s.multisig) hok
  have h' : QueueIntact (World.enter env st).store.multisig ids := h
  cases call with
  | setGovernors governors required => exact setGovernors_effect governors required h'
  | proposeMsOperation p ty d =>
    change Sat (do let _ ← Model.proposeMsOperation p ty d) _ _
    rw [sat_bind]
    exact (proposeMsOperation_effect p ty d h').mono fun _ w' hw => (sat_pure _).2 hw
  | approveOperation g i => exact approveOperation_effect g i
  | retractApproval g i => exact retractApproval_effect g i
  | executeMsOperation e i => exact executeMsOperation_effect e i
  | cancelMsOperation c i => exact cancelMsOperation_effect c i h'
  | setTimelockDuration d => exact setTimelockDuration_effect d

theorem execMultisig_failed {e : ErrorCode} (h : t.failure st = some e) :
    execMultisig st t = st :=
  invoke_of_failure h

end PriceOracle.Governance
