import PriceOracle.Governance.Operations
import PriceOracle.Lib.Run

/-! # The queue of pending operations

The pointers of the queue thread exactly the stored operations in the order of their identifiers,
as long as identifiers are fresh. The counter that issues them is a plain 32-bit sum: once it wraps,
a proposal stores an operation under the null pointer. -/

namespace PriceOracle.Governance

open Lib.Transaction Lib.MachineInt Lib.LinkedQueue Lib.Run Model

/-- Following the pointers from the head visits exactly the stored operations, each once and in
increasing order, and ends at the tail; both pointers are null exactly when nothing is stored. -/
def QueueWellFormed (m : Multisig) : Prop :=
  (∃ ids, Threads m.nextOp m.readQueueHead m.readQueueTail ids) ∧
    (m.readQueueHead = 0 ↔ ∀ i, m.op i = none) ∧ (m.readQueueTail = 0 ↔ ∀ i, m.op i = none)

/-- Over the stored operations, both walks end and meet no missing operation. -/
def WalksEnd (m : Multisig) : Prop :=
  ∀ w : World, w.store.multisig.op = m.op →
    (∀ governors, Fails (stripApprovals governors walkBudget m.readQueueHead) w fun _ _ => False) ∧
      ∀ i op, m.op i = some op → m.readQueueHead ≠ i →
        Fails (patchPredecessor i op.nextOpId walkBudget m.readQueueHead) w fun _ _ => False

/-- A proposal that a governor may make finds the operation counter below its maximum. -/
def ProposesBelowMax (st : Store) (t : MultisigTx) : Prop :=
  ∀ p ty d, t.call = .proposeMsOperation p ty d → t.env.authorized p = true →
    p ∈ st.multisig.readGovernors → st.multisig.readOpCount < u32Max

section Steps

variable {env : Env} {st : Store} {m m' : Multisig} {ids : List Nat} {call : MultisigCall}
  {op : MultiSigOperation} {i : Nat}

theorem queueIntact_empty : QueueIntact {} [] where
  threads := threads_empty
  keyed _ _ h := by cases h
  issued _ h := by cases h
  count_le := Nat.zero_le _

theorem QueueIntact.wellFormed (h : QueueIntact m ids) : QueueWellFormed m := by
  have hnone : (∀ i, m.nextOp i = none) ↔ ∀ i, m.op i = none := by
    apply forall_congr'
    intro i
    exact Option.map_eq_none_iff
  refine ⟨⟨ids,h.threads⟩,?_,?_⟩
  · rw [h.threads.head_eq_zero_iff,h.threads.eq_nil_iff,hnone]
  · rw [h.threads.tail_eq_zero_iff,h.threads.eq_nil_iff,hnone]

theorem QueueIntact.walksEnd (h : QueueIntact m ids) : WalksEnd m := by
  intro w hop
  have hnext : w.store.multisig.nextOp = m.nextOp := by
    unfold Multisig.nextOp
    rw [hop]
  have hseg : Segment w.store.multisig.nextOp m.readQueueHead ids 0 := by
    rw [hnext]
    exact h.threads.segment
  constructor
  · intro governors
    have hkeyed := h.keyed
    rw [← hop] at hkeyed
    exact fails_of_ok (stripApprovals_run (w := w) governors hseg h.threads.nodup hkeyed
      h.length_lt)
  · intro i op hi hne
    rcases h.threads.eq_head_or_follows (h.mem_iff.2 ⟨op,hi⟩) with heq | ⟨pre,p,post,hids⟩
    · exact absurd heq.symm hne
    · obtain ⟨prev,hprev⟩ := h.mem_iff.1 (show p ∈ ids by rw [hids]; simp)
      have hnodup := h.threads.nodup
      have hlen := h.length_lt
      rw [← hop] at hprev
      rw [hids] at hseg hnodup hlen
      refine fails_of_ok (patchPredecessor_run (w := w) op.nextOpId hseg hnodup hprev ?_)
      rw [List.length_append] at hlen
      omega

/-- A write that keeps the pointers keeps the queue. -/
theorem QueueIntact.rewrite {op new : MultiSigOperation} (h : QueueIntact m ids)
    (hop : m.op i = some op) (hid : new.id = op.id) (hnext : new.nextOpId = op.nextOpId) :
    QueueIntact (m.writeOp new) ids where
  threads := by
    have hstored : m.op new.id = some op := by rw [hid,h.keyed i op hop,hop]
    rw [nextOp_rewrite hstored hnext]
    exact h.threads
  keyed := keyed_writeOp h.keyed
  issued := h.issued
  count_le := h.count_le

theorem QueueIntact.rotate (h : QueueIntact m ids) (governors : List Address) :
    QueueIntact (rotateAll m governors ids) ids where
  threads := by
    have hnext : (rotateAll m governors ids).nextOp = m.nextOp := by
      funext i
      unfold rotateAll Multisig.nextOp
      by_cases hi : i ∈ ids
      · cases hop : m.op i with
        | none => simp [hop]
        | some op => simp [hi,hop]
      · simp [hi]
    rw [hnext]
    exact h.threads
  keyed i o ho := by
    unfold rotateAll at ho
    by_cases hi : i ∈ ids
    · obtain ⟨op,hop⟩ := h.mem_iff.1 hi
      simp only [hi,if_true,hop,Option.map_some,Option.some.injEq] at ho
      rw [← ho,rotated_id]
      exact h.keyed i op hop
    · simp only [hi,if_false] at ho
      exact h.keyed i o ho
  issued := h.issued
  count_le := h.count_le

theorem getD_queueTail (c : Prop) [Decidable c] (t : Nat) :
    (if c then some t else m.queueTail).getD 0 = if c then t else m.readQueueTail := by
  split_ifs <;> rfl

/-- Taking out the head leaves the rest of the queue. -/
theorem QueueIntact.dropHead (h : QueueIntact m ids)
    (hop : m.op i = some op) (hhead : m.readQueueHead = i) : ∃ ids', QueueIntact { m.removeOp i with
      queueHead := some op.nextOpId
      queueTail := if op.nextOpId = 0 then some 0 else m.queueTail } ids' := by
  have hthreads := h.threads
  rw [hhead] at hthreads
  obtain ⟨rest,hids,hrest⟩ := hthreads.pop (h.ne_zero hop) (nextOp_of_stored hop)
  refine ⟨rest,?_,keyed_removeOp h.keyed,fun k hk => h.issued k (by rw [hids]; simp [hk]),
    h.count_le⟩
  rw [← nextOp_removeOp,← getD_queueTail] at hrest
  exact hrest

theorem QueueIntact.dropInner {i p : Nat} {pre post : List Nat} {op prev : MultiSigOperation}
    (h : QueueIntact m (pre ++ p :: i :: post)) (hop : m.op i = some op)
    (hprev : m.op p = some prev) :
    QueueIntact { (m.writeOp { prev with nextOpId := op.nextOpId }).removeOp i with
      queueTail := if op.nextOpId = 0 then some p else m.queueTail } (pre ++ p :: post) where
  threads := by
    have hrest := h.threads.unlink (nextOp_of_stored hop)
    have hid : prev.id = p := h.keyed p prev hprev
    rw [show Function.update m.nextOp p (some op.nextOpId) =
        (m.writeOp { prev with nextOpId := op.nextOpId }).nextOp by
      rw [nextOp_writeOp,hid],← nextOp_removeOp,← getD_queueTail] at hrest
    exact hrest
  keyed := keyed_removeOp (keyed_writeOp h.keyed)
  issued k hk := h.issued k (by
    simp only [List.mem_append,List.mem_cons] at hk ⊢
    tauto)
  count_le := h.count_le

theorem QueueIntact.enqueueFirst (h : QueueIntact m ids)
    (htail : m.readQueueTail = 0) (hid : op.id = m.readOpCount+1) (hnext : op.nextOpId = 0)
    (hmax : m.readOpCount < u32Max) : QueueIntact { m.writeOp op with
      opCount := some op.id, queueHead := some op.id, queueTail := some op.id } [op.id] where
  threads := by
    have hthreads := h.threads
    rw [htail] at hthreads
    have hpush := hthreads.push_empty (show op.id ≠ 0 by omega)
    rw [← hnext,← nextOp_writeOp] at hpush
    exact hpush
  keyed := keyed_writeOp h.keyed
  issued i hi := by
    rw [List.mem_singleton.1 hi]
    exact Nat.le_refl _
  count_le := by
    change op.id ≤ u32Max
    omega

theorem QueueIntact.enqueueNext {op last : MultiSigOperation} (h : QueueIntact m ids)
    (htail : m.readQueueTail ≠ 0) (hlast : m.op m.readQueueTail = some last)
    (hid : op.id = m.readOpCount+1) (hnext : op.nextOpId = 0) (hmax : m.readOpCount < u32Max) :
    QueueIntact { (m.writeOp op).writeOp { last with nextOpId := op.id } with
      opCount := some op.id, queueTail := some op.id } (ids ++ [op.id]) where
  threads := by
    have hlt : ∀ i ∈ ids, i < op.id := by
      intro i hi
      have := h.issued i hi
      omega
    have hpush := h.threads.push htail (show op.id ≠ 0 by omega) hlt
    have hlastid : last.id = m.readQueueTail := h.keyed _ last hlast
    rw [← hlastid,← hnext,← nextOp_writeOp] at hpush
    have hwrite := nextOp_writeOp (m := m.writeOp op) { last with nextOpId := op.id }
    exact hwrite ▸ hpush
  keyed := keyed_writeOp (keyed_writeOp h.keyed)
  issued i hi := by
    change i ≤ op.id
    rcases List.mem_append.1 hi with hi | hi
    · have := h.issued i hi
      omega
    · rw [List.mem_singleton.1 hi]
  count_le := by
    change op.id ≤ u32Max
    omega

/-- Every effect keeps the queue, as long as a proposal finds a fresh identifier. -/
theorem MultisigEffect.intact (heff : MultisigEffect env st m ids call m') (h : QueueIntact m ids)
    (hmax : ∀ p ty d, call = .proposeMsOperation p ty d → env.authorized p = true →
      p ∈ m.readGovernors → m.readOpCount < u32Max) :
    ∃ ids', QueueIntact m' ids' := by
  cases heff with
  | rotated =>
    refine ⟨ids,QueueIntact.rotate ?_ _⟩
    exact ⟨h.threads,h.keyed,h.issued,h.count_le⟩
  | proposedFirst hauth hgov hop htail =>
    have hlt := hmax _ _ _ rfl hauth hgov
    subst hop
    exact ⟨_,h.enqueueFirst htail (wrap32_succ hlt) rfl hlt⟩
  | proposedNext hauth hgov hop htail hlast =>
    have hlt := hmax _ _ _ rfl hauth hgov
    subst hop
    exact ⟨_,h.enqueueNext htail hlast (wrap32_succ hlt) rfl hlt⟩
  | approved _ hop _ => exact ⟨ids,h.rewrite hop rfl rfl⟩
  | retracted hop _ => exact ⟨ids,h.rewrite hop rfl rfl⟩
  | executed hop hhead => exact h.dropHead hop hhead
  | cancelledHead hop hhead => exact h.dropHead hop hhead
  | cancelledInner hop hids hprev =>
    subst hids
    exact ⟨_,h.dropInner hop hprev⟩
  | configured => exact ⟨ids,h⟩

theorem execMultisig_intact {t : MultisigTx} (h : QueueIntact st.multisig ids)
    (hmax : ProposesBelowMax st t) : ∃ ids', QueueIntact (execMultisig st t).multisig ids' := by
  cases hf : t.failure st with
  | none => exact (execMultisig_effect h hf).intact h hmax
  | some e =>
    rw [execMultisig_failed hf]
    exact ⟨ids,h⟩

end Steps

/-- In every run of the multi-signature operations from their first use, by any callers, the queue
stays well formed and both walks along it end, as long as every proposal of a governor finds the
operation counter below its maximum. -/
theorem queue_wellFormed_of_below_max (st : Store) (ts : List MultisigTx) (hst : st.multisig = {})
    (hmax : ∀ x ∈ steps execMultisig st ts, ProposesBelowMax x.1 x.2) :
    QueueWellFormed (run execMultisig st ts).multisig ∧
      WalksEnd (run execMultisig st ts).multisig := by
  have hempty : ∃ ids, QueueIntact st.multisig ids := by
    rw [hst]
    exact ⟨[],queueIntact_empty⟩
  have hrun := (steps_satisfy (P := fun _ _ => True)
    (I := fun s : Store => ∃ ids, QueueIntact s.multisig ids)
    (fun _ _ hs ht => ⟨trivial,execMultisig_intact hs.choose_spec ht⟩)
    hempty hmax).2
  obtain ⟨ids,hids⟩ := hrun
  exact ⟨hids.wellFormed,hids.walksEnd⟩

/-- Administrator `1`, and no use of the multi-signature part yet. -/
def adminStore : Store := { config := { admin := some 1 } }

/-- A call at ledger `sequence`, signed by administrator `1` and governors `7` and `8`. -/
def MultisigTx.signed (sequence : Nat) (call : MultisigCall) : MultisigTx :=
  ⟨.concrete sequence 100 [1, 7, 8], call⟩

/-- Governor `7` proposes and cancels `n` operations. -/
def churn (n : Nat) : List MultisigTx :=
  (List.range n).flatMap fun i =>
    [.signed 10 (.proposeMsOperation 7 .setAdmin []), .signed 10 (.cancelMsOperation 7 (i + 1))]

/-- The storage after `n` operations were proposed and cancelled, and with one of them queued. -/
def churnedStore (n : Nat) : Store :=
  { adminStore with multisig := {
      governors := some [7], requiredApprovals := some 1, previousRequiredApprovals := some 1
      queueHead := if n = 0 then none else some 0
      queueTail := if n = 0 then none else some 0
      opCount := if n = 0 then none else some n } }

def queuedStore (i : Nat) : Store :=
  { adminStore with multisig := {
      governors := some [7], requiredApprovals := some 1, previousRequiredApprovals := some 1
      op := Function.update (fun _ => none) i (some ⟨i, .setAdmin, [], [], 1, 10, 7, 0, 0⟩)
      queueHead := some i, queueTail := some i, opCount := some i } }

theorem churn_propose (n : Nat) :
    execMultisig (churnedStore n) (.signed 10 (.proposeMsOperation 7 .setAdmin [])) =
      queuedStore (wrap32 (n+1)) := by
  cases n <;> rfl

theorem churn_cancel (n : Nat) :
    execMultisig (queuedStore (n+1)) (.signed 10 (.cancelMsOperation 7 (n+1))) =
      churnedStore (n+1) := by
  simp [execMultisig,invoke,commit,MultisigTx.signed,MultisigCall.body,
    Model.cancelMsOperation,checkAdminOrGovernor,requireAuth,getAdmin,readGovernors,
    readQueueHead,readOp,unlinkFromQueue,advanceQueue,writeQueueHead,writeQueueTail,
    modifyMultisig,readStore,inspect,ensure,update,consult,bind,EStateM.bind,pure,
    EStateM.pure,World.enter,queuedStore,adminStore,churnedStore,Multisig.readGovernors,
    Multisig.readQueueHead,Env.concrete,Multisig.removeOp]

/-- Below the maximum of the counter the rounds leave nothing but the counter behind. -/
theorem churn_run {n : Nat} (hn : n ≤ u32Max) :
    run execMultisig (churnedStore 0) (churn n) = churnedStore n := by
  induction n with
  | zero => rfl
  | succ n ih =>
    have hfresh : wrap32 (n+1) = n+1 := wrap32_succ (by omega)
    unfold churn at ih ⊢
    rw [List.range_succ,List.flatMap_append,run_append,ih (by omega),List.flatMap_singleton,
      run_cons,run_cons,run_nil,churn_propose,hfresh,churn_cancel]

/-- A governor proposes and cancels until the counter is at its maximum, and proposes once more. -/
def exhaustingRun : List MultisigTx :=
  .signed 10 (.setGovernors [7] 1) ::
    (churn u32Max ++ [.signed 10 (.proposeMsOperation 7 .setAdmin [])])

theorem exhaustingRun_end : run execMultisig adminStore exhaustingRun = queuedStore 0 := by
  have hstart : execMultisig adminStore (.signed 10 (.setGovernors [7] 1)) = churnedStore 0 := rfl
  have hwrap : wrap32 (u32Max+1) = 0 := by decide
  unfold exhaustingRun
  rw [run_cons,hstart,run_append,churn_run (Nat.le_refl _),run_cons,run_nil,churn_propose,hwrap]

theorem exhaustingRun_sequence {t : MultisigTx} (ht : t ∈ exhaustingRun) :
    t.env.sequence = 10 := by
  simp only [exhaustingRun,churn,List.mem_cons,List.mem_append,List.mem_flatMap,
    List.not_mem_nil,or_false] at ht
  rcases ht with rfl | ⟨i,-,rfl | rfl⟩ | rfl <;> rfl

/-- The proposal after the wrap stores operation zero, which no pointer can reach. -/
theorem exhausted_queue_malformed :
    (∀ t ∈ exhaustingRun, t.env.sequence = 10) ∧
      ¬QueueWellFormed (run execMultisig adminStore exhaustingRun).multisig := by
  refine ⟨fun t ht => exhaustingRun_sequence ht,?_⟩
  rw [exhaustingRun_end]
  rintro ⟨-,hhead,-⟩
  have hnone := hhead.1 rfl 0
  cases hnone

/-- Three proposals, the cancellation of an inner one and of the last, and a rotation. -/
def cancellingRun : List MultisigTx :=
  [.signed 10 (.setGovernors [7, 8] 1), .signed 10 (.proposeMsOperation 7 .setAdmin []),
    .signed 11 (.proposeMsOperation 8 .upgrade [1]),
    .signed 11 (.proposeMsOperation 8 .setDecimals [2]), .signed 12 (.cancelMsOperation 7 2),
    .signed 12 (.approveOperation 7 1), .signed 13 (.setGovernors [8] 1),
    .signed 13 (.cancelMsOperation 1 3)]

theorem cancelling_queue_wellFormed :
    QueueWellFormed (run execMultisig adminStore cancellingRun).multisig ∧
      WalksEnd (run execMultisig adminStore cancellingRun).multisig := by
  apply queue_wellFormed_of_below_max adminStore cancellingRun rfl
  simp only [cancellingRun,steps_cons,steps_nil,List.forall_mem_cons]
  refine ⟨?_,?_,?_,?_,?_,?_,?_,?_,by simp⟩ <;> intro p ty d _ _ _ <;> decide

end PriceOracle.Governance
