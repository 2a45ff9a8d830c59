import PriceOracle.Governance.Queue

/-! # Quorum and timelock of pending operations

Approvals, retractions and rotations all keep an operation's clock running exactly while its quorum
stands. A rotation reaches an operation only along the queue, so this holds as long as the queue is
well formed. -/

namespace PriceOracle.Governance

open Lib.Footprint Lib.MachineInt Lib.Run Model

/-- The approvals are distinct governors, and the clock runs exactly while they are a quorum. -/
structure OperationSound (governors : List Address) (op : MultiSigOperation) : Prop where
  nodup : op.approvals.Nodup
  subset : op.approvals ⊆ governors
  required_pos : 0 < op.requiredApprovals
  clock : op.timelockStartLedger ≠ 0 ↔ op.requiredApprovals ≤ op.approvals.length

/-- Every stored operation is sound for the governors in office. -/
structure ApprovalsSound (m : Multisig) : Prop where
  operation : ∀ i op, m.op i = some op → OperationSound m.readGovernors op
  required_pos : 0 < m.readRequiredApprovals

/-- Operation `i` is stored with a quorum of approvals. -/
def HasQuorum (i : Nat) (st : Store) : Prop :=
  ∃ op, st.multisig.op i = some op ∧ op.requiredApprovals ≤ op.approvals.length

/-- The threshold of operation `i` is the one in force when it was proposed. -/
def ProposedUnder (past : List (Store × MultisigTx)) (i required : Nat) : Prop :=
  ∃ y ∈ past, (∃ p ty d, y.2.call = .proposeMsOperation p ty d) ∧ y.2.failure y.1 = none ∧
    wrap32 (y.1.multisig.readOpCount + 1) = i ∧ y.1.multisig.readRequiredApprovals = required

/-- An execution finds at least the proposal-time number of distinct approvals, all of governors in
office, and a quorum that has stood since the timelock's duration before. -/
def ExecutesOnStandingQuorum (x : Traced Store MultisigTx) (t : MultisigTx) : Prop :=
  ∀ e i, t.call = .executeMsOperation e i → t.failure x.now = none →
    ∃ op, x.now.multisig.op i = some op ∧ ProposedUnder x.past i op.requiredApprovals ∧
      op.requiredApprovals ≤ op.approvals.length ∧ op.approvals.Nodup ∧
      op.approvals ⊆ x.now.multisig.readGovernors ∧
      HeldSince (HasQuorum i)
        (fun u => u.env.sequence + x.now.readTimelockDuration ≤ t.env.sequence) x

def InLedgerOrder (x : Traced Store MultisigTx) (t : MultisigTx) : Prop :=
  0 < t.env.sequence ∧ ∀ y ∈ x.past, y.2.env.sequence ≤ t.env.sequence

section Operations

variable {governors : List Address} {op : MultiSigOperation} {g : Address} {sequence : Nat}

theorem OperationSound.approvedBy (h : OperationSound governors op) (hgov : g ∈ governors)
    (hnew : g ∉ op.approvals) (hseq : 0 < sequence) :
    OperationSound governors (op.approvedBy g sequence) where
  nodup := by
    change (op.approvals ++ [g]).Nodup
    rw [List.nodup_append]
    refine ⟨h.nodup,by simp,?_⟩
    intro a ha b hb heq
    rw [List.mem_singleton] at hb
    exact hnew (hb ▸ heq ▸ ha)
  subset := by
    exact List.append_subset.2 ⟨h.subset,by simpa using hgov⟩
  required_pos := h.required_pos
  clock := by
    have hclock := h.clock
    change (if op.requiredApprovals ≤ (op.approvals ++ [g]).length ∧ op.timelockStartLedger = 0
      then sequence else op.timelockStartLedger) ≠ 0 ↔
        op.requiredApprovals ≤ (op.approvals ++ [g]).length
    rw [List.length_append,List.length_singleton]
    split_ifs with hquorum <;> omega

theorem OperationSound.retractedBy (h : OperationSound governors op) :
    OperationSound governors (op.retractedBy g) where
  nodup := h.nodup.filter _
  subset := List.Subset.trans (List.filter_subset_self _) h.subset
  required_pos := h.required_pos
  clock := by
    have hclock := h.clock
    have hlen : (op.approvals.filter fun a => a ≠ g).length ≤ op.approvals.length :=
      List.length_filter_le _ _
    change (if (op.approvals.filter fun a => a ≠ g).length < op.requiredApprovals
      then 0 else op.timelockStartLedger) ≠ 0 ↔
        op.requiredApprovals ≤ (op.approvals.filter fun a => a ≠ g).length
    split_ifs with hlost <;> omega

/-- A rotation repairs an operation for the governors that take over. -/
theorem OperationSound.rotated (h : OperationSound governors op) (successors : List Address) :
    OperationSound successors (rotated successors op) := by
  have hsub : op.retained successors ⊆ successors := by
    intro a ha
    simpa using (List.mem_filter.1 ha).2
  have hclock := h.clock
  have hlen : (op.retained successors).length ≤ op.approvals.length := List.length_filter_le _ _
  unfold Governance.rotated
  split_ifs with hall
  · -- nobody departed: the retained approvals are all of them
    have heq : op.retained successors = op.approvals := List.filter_sublist.eq_of_length hall
    rw [heq] at hsub
    exact ⟨h.nodup,hsub,h.required_pos,hclock⟩
  · refine ⟨h.nodup.filter _,hsub,h.required_pos,?_⟩
    change (if (op.retained successors).length < op.requiredApprovals then 0
      else op.timelockStartLedger) ≠ 0 ↔ op.requiredApprovals ≤ (op.retained successors).length
    split_ifs with hlost <;> omega

end Operations

/-- The two operations differ at most in their place in the queue. -/
def SameVotes (a b : MultiSigOperation) : Prop :=
  a.approvals = b.approvals ∧ a.requiredApprovals = b.requiredApprovals ∧
    a.timelockStartLedger = b.timelockStartLedger

theorem SameVotes.sound {governors : List Address} {a b : MultiSigOperation}
    (h : SameVotes a b) (hb : OperationSound governors b) : OperationSound governors a := by
  obtain ⟨happ,hreq,hstart⟩ := h
  obtain ⟨hnodup,hsub,hpos,hclock⟩ := hb
  rw [← happ] at hnodup hsub hclock
  rw [← hreq] at hpos hclock
  rw [← hstart] at hclock
  exact ⟨hnodup,hsub,hpos,hclock⟩

/-- What one call does to the votes of an operation that stays stored. -/
inductive VoteStep (env : Env) (m m' : Multisig) (old : MultiSigOperation) :
    MultiSigOperation → Prop
  | kept (hgov : m'.readGovernors = m.readGovernors) : VoteStep env m m' old old
  | approved {g} (hgov : m'.readGovernors = m.readGovernors) (hin : g ∈ m.readGovernors)
      (hnew : g ∉ old.approvals) : VoteStep env m m' old (old.approvedBy g env.sequence)
  | retracted {g} (hgov : m'.readGovernors = m.readGovernors) :
    VoteStep env m m' old (old.retractedBy g)
  | rotated : VoteStep env m m' old (rotated m'.readGovernors old)

section Steps

variable {env : Env} {st : Store} {m m' : Multisig} {ids : List Nat} {call : MultisigCall}
  {old new : MultiSigOperation}

theorem VoteStep.sound (h : VoteStep env m m' old new) (hold : OperationSound m.readGovernors old)
    (hseq : 0 < env.sequence) : OperationSound m'.readGovernors new := by
  cases h with
  | kept hgov => rwa [hgov]
  | approved hgov hin hnew =>
    rw [hgov]
    exact hold.approvedBy hin hnew hseq
  | retracted hgov =>
    rw [hgov]
    exact hold.retractedBy
  | rotated => exact hold.rotated _

theorem VoteStep.required_eq (h : VoteStep env m m' old new) :
    new.requiredApprovals = old.requiredApprovals := by
  cases h with
  | rotated =>
    unfold Governance.rotated
    split_ifs <;> rfl
  | _ => rfl

theorem VoteStep.start_eq (h : VoteStep env m m' old new) (hnew : new.timelockStartLedger ≠ 0) :
    new.timelockStartLedger = old.timelockStartLedger ∨
      new.timelockStartLedger = env.sequence := by
  have hreset (c : Prop) [Decidable c]
      (h : (if c then 0 else old.timelockStartLedger) ≠ 0) :
      (if c then 0 else old.timelockStartLedger) = old.timelockStartLedger := by
    by_cases hc : c
    · rw [if_pos hc] at h
      exact absurd rfl h
    · rw [if_neg hc]
  cases h with
  | kept => exact .inl rfl
  | approved =>
    unfold MultiSigOperation.approvedBy
    dsimp only
    split_ifs
    · exact .inr rfl
    · exact .inl rfl
  | retracted => exact .inl (hreset _ hnew)
  | rotated =>
    unfold Governance.rotated at hnew ⊢
    split_ifs at hnew ⊢ with hall
    · exact .inl rfl
    · exact .inl (hreset _ hnew)

theorem stored_writeOp {i : Nat} {op : MultiSigOperation} (h : (m.writeOp op).op i = some new) :
    i = op.id ∧ new = op ∨ m.op i = some new := by
  exact stored_of_update h

theorem stored_removeOp {i j : Nat} (h : (m.removeOp j).op i = some new) :
    m.op i = some new := by
  exact (stored_of_erase h).2

/-- An operation stored after a call is the one just proposed, or was stored before. -/
theorem MultisigEffect.operation (heff : MultisigEffect env st m ids call m')
    (h : QueueIntact m ids) {i : Nat} (hi : m'.op i = some new) :
    (∃ p ty d, call = .proposeMsOperation p ty d ∧ wrap32 (m.readOpCount+1) = i ∧
        SameVotes new (newOperation env m p ty d)) ∨
      ∃ old votes, m.op i = some old ∧ VoteStep env m m' old votes ∧ SameVotes new votes := by
  have hsame : SameVotes new new := ⟨rfl,rfl,rfl⟩
  have hkept (hgov : m'.readGovernors = m.readGovernors) (hold : m.op i = some new) :
      ∃ old votes, m.op i = some old ∧ VoteStep env m m' old votes ∧ SameVotes new votes :=
    ⟨new,new,hold,.kept hgov,hsame⟩
  -- a pointer patched at the predecessor leaves its votes alone
  have hpatched {p next : Nat} {prev : MultiSigOperation}
      (hgov : m'.readGovernors = m.readGovernors) (hprev : m.op p = some prev)
      (hk : i = prev.id) (hnew : new = { prev with nextOpId := next }) :
      ∃ old votes, m.op i = some old ∧ VoteStep env m m' old votes ∧ SameVotes new votes := by
    refine ⟨prev,prev,?_,.kept hgov,?_⟩
    · rw [hk,h.keyed p prev hprev,hprev]
    · rw [hnew]
      exact ⟨rfl,rfl,rfl⟩
  cases heff with
  | rotated =>
    right
    change (if i ∈ ids then (m.op i).map (Governance.rotated _) else m.op i) = some new at hi
    by_cases hmem : i ∈ ids
    · obtain ⟨old,hold⟩ := h.mem_iff.1 hmem
      rw [if_pos hmem,hold,Option.map_some,Option.some.injEq] at hi
      exact ⟨old,_,hold,.rotated,by rw [← hi]; exact ⟨rfl,rfl,rfl⟩⟩
    · rw [if_neg hmem] at hi
      exact absurd (h.mem_iff.2 ⟨new,hi⟩) hmem
  | proposedFirst _ _ hop =>
    rcases stored_writeOp hi with ⟨hk,rfl⟩ | hold
    · exact .inl ⟨_,_,_,rfl,by rw [hk,hop]; rfl,by rw [hop]; exact ⟨rfl,rfl,rfl⟩⟩
    · exact .inr (hkept rfl hold)
  | proposedNext _ _ hop _ hlast =>
    rcases stored_writeOp hi with ⟨hk,hnew⟩ | hold
    · exact .inr (hpatched rfl hlast hk hnew)
    · rcases stored_writeOp hold with ⟨hk,rfl⟩ | hold
      · exact .inl ⟨_,_,_,rfl,by rw [hk,hop]; rfl,by rw [hop]; exact ⟨rfl,rfl,rfl⟩⟩
      · exact .inr (hkept rfl hold)
  | approved hgov hop hnew =>
    right
    rcases stored_writeOp hi with ⟨hk,rfl⟩ | hold
    · refine ⟨_,_,?_,.approved rfl hgov hnew,hsame⟩
      have hid := h.keyed _ _ hop
      rw [hk.trans hid]
      exact hop
    · exact hkept rfl hold
  | retracted hop =>
    right
    rcases stored_writeOp hi with ⟨hk,rfl⟩ | hold
    · refine ⟨_,_,?_,.retracted rfl,hsame⟩
      have hid := h.keyed _ _ hop
      rw [hk.trans hid]
      exact hop
    · exact hkept rfl hold
  | executed => exact .inr (hkept rfl (stored_removeOp hi))
  | cancelledHead => exact .inr (hkept rfl (stored_removeOp hi))
  | cancelledInner _ _ hprev =>
    rcases stored_writeOp (stored_removeOp hi) with ⟨hk,hnew⟩ | hold
    · exact .inr (hpatched rfl hprev hk hnew)
    · exact .inr (hkept rfl hold)
  | configured => exact .inr (hkept rfl hi)

theorem MultisigEffect.required_pos (heff : MultisigEffect env st m ids call m')
    (hpos : 0 < m.readRequiredApprovals) : 0 < m'.readRequiredApprovals := by
  cases heff with
  | rotated hreq _ => exact Nat.pos_of_ne_zero hreq
  | _ => exact hpos

theorem MultisigEffect.approvalsSound (heff : MultisigEffect env st m ids call m')
    (h : QueueIntact m ids) (hsound : ApprovalsSound m) (hseq : 0 < env.sequence) :
    ApprovalsSound m' where
  operation i new hi := by
    rcases heff.operation h hi with ⟨p,ty,d,hcall,-,hvotes⟩ | ⟨old,votes,hold,hstep,hvotes⟩
    · apply hvotes.sound
      refine ⟨List.nodup_nil,List.nil_subset _,hsound.required_pos,?_⟩
      change (0 ≠ 0) ↔ m.readRequiredApprovals ≤ 0
      have := hsound.required_pos
      omega
    · exact hvotes.sound (hstep.sound (hsound.operation i old hold) hseq)
  required_pos := heff.required_pos hsound.required_pos

end Steps

/-- What the past of a run accounts for: the queue is intact, the approvals are sound, every stored
operation was proposed under its threshold, and a running clock started with the quorum. -/
structure QuorumAccounted (x : Traced Store MultisigTx) : Prop where
  queue : ∃ ids, QueueIntact x.now.multisig ids
  sound : ApprovalsSound x.now.multisig
  proposed : ∀ i op, x.now.multisig.op i = some op → ProposedUnder x.past i op.requiredApprovals
  standing : ∀ i op, x.now.multisig.op i = some op → op.timelockStartLedger ≠ 0 →
    HeldSince (HasQuorum i) (fun u : MultisigTx => u.env.sequence = op.timelockStartLedger) x

section Runs

variable {x : Traced Store MultisigTx} {t : MultisigTx}

theorem ProposedUnder.mono {past : List (Store × MultisigTx)} {y : Store × MultisigTx}
    {i required : Nat} (h : ProposedUnder past i required) :
    ProposedUnder (past ++ [y]) i required := by
  obtain ⟨z,hz,hrest⟩ := h
  exact ⟨z,List.mem_append_left _ hz,hrest⟩

/-- A call that fails leaves the account as it was. -/
theorem QuorumAccounted.failed (h : QuorumAccounted x) {e : ErrorCode}
    (hf : t.failure x.now = some e) : QuorumAccounted (track execMultisig x t) := by
  have hst : execMultisig x.now t = x.now := execMultisig_failed hf
  constructor
  · change ∃ ids, QueueIntact (execMultisig x.now t).multisig ids
    rw [hst]
    exact h.queue
  · change ApprovalsSound (execMultisig x.now t).multisig
    rw [hst]
    exact h.sound
  · intro i op hop
    change (execMultisig x.now t).multisig.op i = some op at hop
    rw [hst] at hop
    exact (h.proposed i op hop).mono
  · intro i op hop hstart
    change (execMultisig x.now t).multisig.op i = some op at hop
    rw [hst] at hop
    refine (h.standing i op hop hstart).extend ?_
    rw [hst]
    exact ⟨op,hop,((h.sound.operation i op hop).clock).1 hstart⟩

theorem QuorumAccounted.succeeded (h : QuorumAccounted x) (hf : t.failure x.now = none)
    (hseq : 0 < t.env.sequence) (hmax : ProposesBelowMax x.now t) :
    QuorumAccounted (track execMultisig x t) := by
  obtain ⟨ids,hids⟩ := h.queue
  have heff := execMultisig_effect hids hf
  have hsound : ApprovalsSound (execMultisig x.now t).multisig :=
    heff.approvalsSound hids h.sound hseq
  refine ⟨heff.intact hids hmax,hsound,fun i op hop => ?_,fun i op hop hstart => ?_⟩
  · rcases heff.operation hids hop with
      ⟨p,ty,d,hcall,hid,-,hreq,-⟩ | ⟨old,votes,hold,hstep,-,hreq,-⟩
    · refine ⟨(x.now,t),List.mem_append_right _ (List.mem_singleton.2 rfl),⟨p,ty,d,hcall⟩,
        hf,hid,?_⟩
      rw [hreq]
      rfl
    · rw [hreq,hstep.required_eq]
      exact (h.proposed i old hold).mono
  · have hquorum : HasQuorum i (execMultisig x.now t) :=
      ⟨op,hop,((hsound.operation i op hop).clock).1 hstart⟩
    rcases heff.operation hids hop with
      ⟨p,ty,d,-,-,-,-,hnew⟩ | ⟨old,votes,hold,hstep,-,-,hvotes⟩
    · exact absurd hnew hstart
    · rw [hvotes] at hstart ⊢
      rcases hstep.start_eq hstart with heq | heq
      · rw [heq] at hstart ⊢
        exact (h.standing i old hold hstart).extend hquorum
      · exact heldSince_begin heq.symm hquorum

theorem QuorumAccounted.executes (h : QuorumAccounted x) (horder : InLedgerOrder x t) :
    ExecutesOnStandingQuorum x t := by
  intro e i hcall hf
  obtain ⟨ids,hids⟩ := h.queue
  have heff := execMultisig_effect hids hf
  rw [hcall] at heff
  generalize (execMultisig x.now t).multisig = m' at heff
  cases heff with
  | @executed _ _ op hop _ hquorum hstart helapsed =>
    have hsound := h.sound.operation i op hop
    refine ⟨op,hop,h.proposed i op hop,hquorum,hsound.nodup,hsound.subset,?_⟩
    obtain ⟨pre,y,post,hpast,hy,hall⟩ := h.standing i op hop hstart
    refine ⟨pre,y,post,hpast,?_,hall⟩
    have hle : y.2.env.sequence ≤ t.env.sequence := horder.2 y (by rw [hpast]; simp)
    dsimp only
    rw [hy] at hle ⊢
    have hdiff := wrapSub32_le hle
    omega

end Runs

/-- In every run of the multi-signature operations from their first use, on ledgers that do not run
backwards, an operation is executed only on distinct approvals of governors in office, at least as
many as its proposal required, that have been a quorum for the whole timelock; and every stored
operation is sound, as long as every proposal of a governor finds the counter below its maximum. -/
theorem executions_rest_on_quorum (st : Store) (ts : List MultisigTx) (hst : st.multisig = {})
    (horder : ∀ x ∈ steps (track execMultisig) ⟨st, []⟩ ts, InLedgerOrder x.1 x.2)
    (hmax : ∀ x ∈ steps (track execMultisig) ⟨st, []⟩ ts, ProposesBelowMax x.1.now x.2) :
    (∀ x ∈ steps (track execMultisig) ⟨st, []⟩ ts, ExecutesOnStandingQuorum x.1 x.2) ∧
      ApprovalsSound (run execMultisig st ts).multisig := by
  have hfresh : QuorumAccounted ⟨st,[]⟩ := by
    have hnone : ∀ i op, st.multisig.op i ≠ some op := by
      intro i op hop
      rw [hst] at hop
      cases hop
    refine ⟨⟨[],by rw [hst]; exact queueIntact_empty⟩,⟨fun i op hop => absurd hop (hnone i op),?_⟩,
      fun i op hop => absurd hop (hnone i op),fun i op hop => absurd hop (hnone i op)⟩
    rw [hst]
    decide
  have hkeep (x : Traced Store MultisigTx) (t : MultisigTx) (hx : QuorumAccounted x)
      (ht : InLedgerOrder x t ∧ ProposesBelowMax x.now t) :
      ExecutesOnStandingQuorum x t ∧ QuorumAccounted (track execMultisig x t) := by
    refine ⟨hx.executes ht.1,?_⟩
    cases hf : t.failure x.now with
    | none => exact hx.succeeded hf ht.1.1 ht.2
    | some e => exact hx.failed hf
  have hrun := steps_satisfy hkeep hfresh fun x hx => ⟨horder x hx,hmax x hx⟩
  refine ⟨hrun.1,?_⟩
  have hend := hrun.2.sound
  rwa [run_track_now] at hend

/-- The operation stored after the counter has wrapped is approved by `7`, who then leaves. -/
def departedRun : List MultisigTx :=
  exhaustingRun ++ [.signed 10 (.approveOperation 7 0), .signed 10 (.setGovernors [8] 1)]

theorem departedRun_end : run execMultisig adminStore departedRun =
    run execMultisig (queuedStore 0)
      [.signed 10 (.approveOperation 7 0),.signed 10 (.setGovernors [8] 1)] := by
  rw [departedRun,run_append,exhaustingRun_end]

/-- The rotation does not reach the operation, which is then executed on the approval of `7`. -/
theorem departed_approval_executes :
    ¬ExecutesOnStandingQuorum (run (track execMultisig) ⟨adminStore, []⟩ departedRun)
        (.signed 20 (.executeMsOperation 8 0)) ∧
      ¬ApprovalsSound (run execMultisig adminStore departedRun).multisig := by
  constructor
  · intro hexec
    have hnow : (run (track execMultisig) ⟨adminStore,[]⟩ departedRun).now = _ :=
      (run_track_now _).trans departedRun_end
    obtain ⟨op,hop,-,-,-,hsub,-⟩ := hexec 8 0 rfl (by rw [hnow]; rfl)
    rw [hnow] at hop hsub
    cases hop
    exact absurd (hsub (List.mem_singleton.2 rfl)) (by decide)
  · rw [departedRun_end]
    intro hsound
    have hsub := (hsound.operation 0 _ rfl).subset
    exact absurd (hsub (List.mem_singleton.2 rfl)) (by decide)

/-- Two governors approve, and the operation is executed ten ledgers later. -/
def executingRun : List MultisigTx :=
  [.signed 10 (.setGovernors [7, 8] 2), .signed 10 (.proposeMsOperation 7 .setAdmin []),
    .signed 11 (.approveOperation 7 1), .signed 12 (.approveOperation 8 1),
    .signed 22 (.executeMsOperation 1 1)]

theorem executingRun_rests_on_quorum :
    (∀ x ∈ steps (track execMultisig) ⟨adminStore, []⟩ executingRun,
        ExecutesOnStandingQuorum x.1 x.2) ∧
      ApprovalsSound (run execMultisig adminStore executingRun).multisig := by
  apply executions_rest_on_quorum adminStore executingRun rfl
  · simp only [executingRun,steps_cons,steps_nil,List.forall_mem_cons]
    refine ⟨?_,?_,?_,?_,?_,by simp⟩ <;> constructor <;> decide
  · simp only [executingRun,steps_cons,steps_nil,List.forall_mem_cons]
    refine ⟨?_,?_,?_,?_,?_,by simp⟩ <;> intro p ty d _ _ _ <;> decide

end PriceOracle.Governance
