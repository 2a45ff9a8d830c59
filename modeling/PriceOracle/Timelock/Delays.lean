import PriceOracle.Lib.Run
import PriceOracle.Model.Invocation
import PriceOracle.Model.Timelock

/-! # Delays of queued operations

Operations and batches are both kept under an identifier with the delay recorded at their proposal.
The two queues are read as one keyed queue; what a call does to it is to enter an item, to let one
leave, or nothing. -/

namespace PriceOracle.Timelock

open Model Lib.Transaction Lib.MachineInt Lib.Run

inductive Kind
  | operation | batch
deriving DecidableEq

/-- What waits in the queues. -/
inductive Item
  | operation (op : PendingOperation)
  | batch (b : PendingBatch)
deriving DecidableEq

def Item.proposedLedger : Item → Nat
  | operation op => op.proposedLedger
  | batch b => b.proposedLedger

def Item.delay (st : Store) : Item → Nat
  | operation op => st.getPriorityDelay op.priority
  | batch b => st.batchRequiredDelay b.operations

def queued (t : Model.Timelock) : Kind × Nat → Option Item
  | (.operation, id) => (t.pendingOp id).map .operation
  | (.batch, id) => (t.pendingBatch id).map .batch

def recorded (t : Model.Timelock) : Kind × Nat → Option Nat
  | (.operation, id) => t.opRequiredDelay id
  | (.batch, id) => t.batchRequiredDelay id

inductive TimelockCall
  | proposeOperationWithPriority (opType : OperationType) (data : Bytes)
      (priority : OperationPriority)
  | proposeBatch (operations : List BatchOperation)
  | setPriorityDelay (priority : OperationPriority) (delay : Nat)
  | setTimelockDuration (duration : Nat)
  | executeOperation (opId : Nat)
  | executeBatch (batchId : Nat)
  | cancelOperation (opId : Nat)
  | cancelBatch (batchId : Nat)

def TimelockCall.body : TimelockCall → Contract Unit
  | proposeOperationWithPriority opType data priority => do
    let _ ← Model.proposeOperationWithPriority opType data priority
    pure ()
  | proposeBatch operations => do
    let _ ← Model.proposeBatch operations
    pure ()
  | setPriorityDelay priority delay => Model.setPriorityDelay priority delay
  | setTimelockDuration duration => Model.setTimelockDuration duration
  | executeOperation opId => Model.executeOperation opId
  | executeBatch batchId => Model.executeBatch batchId
  | cancelOperation opId => Model.cancelOperation opId
  | cancelBatch batchId => Model.cancelBatch batchId

/-- The call that executes what is queued under a key. -/
def executeCall : Kind × Nat → TimelockCall
  | (.operation, id) => .executeOperation id
  | (.batch, id) => .executeBatch id

/-- The item is queued now, with the delay in force recorded. -/
structure Enters (env : Env) (st : Store) (t : Model.Timelock) (k : Kind × Nat) (item : Item) :
    Prop where
  queued_eq : queued t = Function.update (queued st.timelock) k (some item)
  recorded_eq : recorded t = Function.update (recorded st.timelock) k (some (item.delay st))
  ledger_eq : item.proposedLedger = env.sequence

/-- What was queued under the key is gone. -/
structure Leaves (st : Store) (t : Model.Timelock) (k : Kind × Nat) : Prop where
  queued_eq : queued t = Function.update (queued st.timelock) k none
  recorded_eq : recorded t = Function.update (recorded st.timelock) k none

/-- The item under the key has waited for both its delays, as the code computes the time elapsed. -/
def Mature (env : Env) (st : Store) (k : Kind × Nat) : Prop :=
  ∃ item, queued st.timelock k = some item ∧
    max (item.delay st) ((recorded st.timelock k).getD 0) ≤
      wrapSub32 env.sequence item.proposedLedger

/-- What a successful call leaves in the queues. -/
def TimelockCall.Effect : TimelockCall → Env → Store → Model.Timelock → Prop
  | proposeOperationWithPriority opType data priority, env, st, t =>
    ∃ id admin, Enters env st t (.operation, id)
      (.operation ⟨id, opType, admin, env.sequence, data, priority⟩)
  | proposeBatch operations, env, st, t =>
    ∃ id admin, Enters env st t (.batch, id) (.batch ⟨id, admin, env.sequence, operations⟩)
  | setPriorityDelay _ _, _, st, t =>
    queued t = queued st.timelock ∧ recorded t = recorded st.timelock
  | setTimelockDuration _, _, st, t =>
    queued t = queued st.timelock ∧ recorded t = recorded st.timelock
  | executeOperation id, env, st, t => Mature env st (.operation, id) ∧ Leaves st t (.operation, id)
  | executeBatch id, env, st, t => Mature env st (.batch, id) ∧ Leaves st t (.batch, id)
  | cancelOperation id, _, st, t => Leaves st t (.operation, id)
  | cancelBatch id, _, st, t => Leaves st t (.batch, id)

section Queues

variable {t : Model.Timelock} {id delay : Nat} (op : PendingOperation) (b : PendingBatch)
  (st : Store)

theorem queued_queueOperation : queued (t.queueOperation op delay) =
      Function.update (queued t) (.operation,op.id) (some (.operation op)) := by
  funext ⟨k,n⟩
  cases k with
  | operation =>
    by_cases hn : n = op.id
    · subst hn
      simp [queued,Model.Timelock.queueOperation]
    · simp [queued,Model.Timelock.queueOperation,hn]
  | batch => simp [queued,Model.Timelock.queueOperation]

theorem recorded_queueOperation : recorded (t.queueOperation op delay) =
      Function.update (recorded t) (.operation,op.id) (some delay) := by
  funext ⟨k,n⟩
  cases k with
  | operation =>
    by_cases hn : n = op.id
    · subst hn
      simp [recorded,Model.Timelock.queueOperation]
    · simp [recorded,Model.Timelock.queueOperation,hn]
  | batch => simp [recorded,Model.Timelock.queueOperation]

theorem queued_queueBatch : queued (t.queueBatch b delay) =
      Function.update (queued t) (.batch,b.id) (some (.batch b)) := by
  funext ⟨k,n⟩
  cases k with
  | operation => simp [queued,Model.Timelock.queueBatch]
  | batch =>
    by_cases hn : n = b.id
    · subst hn
      simp [queued,Model.Timelock.queueBatch]
    · simp [queued,Model.Timelock.queueBatch,hn]

theorem recorded_queueBatch : recorded (t.queueBatch b delay) =
      Function.update (recorded t) (.batch,b.id) (some delay) := by
  funext ⟨k,n⟩
  cases k with
  | operation => simp [recorded,Model.Timelock.queueBatch]
  | batch =>
    by_cases hn : n = b.id
    · subst hn
      simp [recorded,Model.Timelock.queueBatch]
    · simp [recorded,Model.Timelock.queueBatch,hn]

theorem leaves_dropOperation : Leaves st (st.timelock.dropOperation id) (.operation,id) := by
  constructor
  all_goals
    funext ⟨k,n⟩
    cases k with
    | operation =>
      by_cases hn : n = id
      · subst hn
        simp [queued,recorded,Model.Timelock.dropOperation]
      · simp [queued,recorded,Model.Timelock.dropOperation,hn]
    | batch => simp [queued,recorded,Model.Timelock.dropOperation]

theorem leaves_dropBatch : Leaves st (st.timelock.dropBatch id) (.batch,id) := by
  constructor
  all_goals
    funext ⟨k,n⟩
    cases k with
    | operation => simp [queued,recorded,Model.Timelock.dropBatch]
    | batch =>
      by_cases hn : n = id
      · subst hn
        simp [queued,recorded,Model.Timelock.dropBatch]
      · simp [queued,recorded,Model.Timelock.dropBatch,hn]

end Queues

section Calls

variable {w : World} (id : Nat) (operations : List BatchOperation)

theorem getPendingOperation_sat : Sat (getPendingOperation id) w fun op w' =>
      w.store.timelock.pendingOp id = some op ∧ w' = w := by
  exact sat_lookup (by cases w.store.timelock.pendingOp id <;> rfl)

theorem getPendingOperation_fails :
    Fails (getPendingOperation id) w fun _ _ => w.store.timelock.pendingOp id = none := by
  exact fails_lookup (by cases w.store.timelock.pendingOp id <;> rfl)

theorem getPendingBatch_sat : Sat (getPendingBatch id) w fun b w' =>
      w.store.timelock.pendingBatch id = some b ∧ w' = w := by
  exact sat_lookup (by cases w.store.timelock.pendingBatch id <;> rfl)

theorem executeSingleOp_frame (op : BatchOperation) :
    Frame [.config,.flags,.suspension] (executeSingleOp op) := by
  apply getAdmin_frame.bind
  intro _
  apply Preserves.check
  intro _
  split
  · exact .read fun _ => preserves_ensure _ _
  · exact preserves_pure _
  · exact configure_frame _ _
  · exact configure_frame _ _
  · exact configure_frame _ _
  · exact configure_frame _ _
  · exact preserves_pure _
  · exact configure_frame _ _
  · exact preserves_abort _

theorem executeElements_frame :
    Frame [.config,.flags,.suspension] (forM operations executeSingleOp) :=
  preserves_forM fun op _ => executeSingleOp_frame op

theorem proposeOperation_effect (opType : OperationType) (data : Bytes)
    (priority : OperationPriority) :
    Sat (Model.proposeOperationWithPriority opType data priority) w fun _ w' =>
      (TimelockCall.proposeOperationWithPriority opType data priority).Effect w.env w.store
        w'.store.timelock := by
  refine (sat_asAdmin _).2 fun admin _ _ => ?_
  simp only [sat_bind,getAdmin,sat_consult,sat_getSequence,sat_readStore,modifyTimelock,
    sat_update,sat_pure]
  intro a _
  exact ⟨_,a,queued_queueOperation _,recorded_queueOperation _,rfl⟩

theorem proposeBatch_effect : Sat (Model.proposeBatch operations) w fun _ w' =>
      (TimelockCall.proposeBatch operations).Effect w.env w.store w'.store.timelock := by
  refine (sat_asAdmin _).2 fun admin _ _ => ?_
  simp only [sat_bind,getAdmin,sat_consult,sat_getSequence,sat_readStore,modifyTimelock,
    sat_update,sat_pure]
  intro a _
  exact ⟨_,a,queued_queueBatch _,recorded_queueBatch _,rfl⟩

theorem setPriorityDelay_effect (priority : OperationPriority) (delay : Nat) :
    Sat (Model.setPriorityDelay priority delay) w fun _ w' =>
      (TimelockCall.setPriorityDelay priority delay).Effect w.env w.store w'.store.timelock := by
  refine (sat_asAdmin _).2 fun admin _ _ => (sat_update _ _).2 ?_
  cases priority <;> exact ⟨rfl,rfl⟩

theorem executeOperation_effect : Sat (Model.executeOperation id) w fun _ w' =>
      (TimelockCall.executeOperation id).Effect w.env w.store w'.store.timelock := by
  refine (sat_asAdmin _).2 fun admin _ _ => ?_
  rw [sat_bind]
  refine (getPendingOperation_sat id).mono ?_
  rintro op v ⟨hop,hv⟩
  subst hv
  simp only [sat_bind,sat_readStore,sat_getSequence,sat_ensure,modifyTimelock,sat_update]
  intro hready
  refine ⟨⟨.operation op,?_,hready⟩,leaves_dropOperation w.store⟩
  have hop' : w.store.timelock.pendingOp id = some op := hop
  simp [queued,hop']

theorem executeBatch_effect : Sat (Model.executeBatch id) w fun _ w' =>
      (TimelockCall.executeBatch id).Effect w.env w.store w'.store.timelock := by
  refine (sat_asAdmin _).2 fun admin _ _ => ?_
  rw [sat_bind]
  refine (getPendingBatch_sat id).mono ?_
  rintro b v ⟨hb,hv⟩
  subst hv
  simp only [sat_bind,sat_readStore,sat_getSequence,sat_ensure,modifyTimelock,sat_update]
  intro hready
  refine (executeElements_frame b.operations _).mono fun _ u hu => ?_
  have hlock : u.store.timelock = w.store.timelock := hu .timelock (by simp)
  rw [hlock]
  refine ⟨⟨.batch b,?_,hready⟩,leaves_dropBatch w.store⟩
  have hb' : w.store.timelock.pendingBatch id = some b := hb
  simp [queued,hb']

theorem cancelOperation_effect : Sat (Model.cancelOperation id) w fun _ w' =>
      (TimelockCall.cancelOperation id).Effect w.env w.store w'.store.timelock := by
  refine (sat_asAdmin _).2 fun admin _ _ => ?_
  rw [sat_bind]
  refine (getPendingOperation_sat id).mono ?_
  rintro op v ⟨_,hv⟩
  subst hv
  exact (sat_update _ _).2 (leaves_dropOperation w.store)

theorem cancelBatch_effect : Sat (Model.cancelBatch id) w fun _ w' =>
      (TimelockCall.cancelBatch id).Effect w.env w.store w'.store.timelock := by
  refine (sat_asAdmin _).2 fun admin _ _ => ?_
  rw [sat_bind]
  refine (getPendingBatch_sat id).mono ?_
  rintro b v ⟨_,hv⟩
  subst hv
  exact (sat_update _ _).2 (leaves_dropBatch w.store)

theorem TimelockCall.body_effect (call : TimelockCall) :
    Sat call.body w fun _ w' => call.Effect w.env w.store w'.store.timelock := by
  cases call with
  | proposeOperationWithPriority opType data priority =>
    refine (sat_bind _ _).2 ((proposeOperation_effect opType data priority).mono fun _ _ h => ?_)
    exact (sat_pure _).2 h
  | proposeBatch operations =>
    refine (sat_bind _ _).2 ((proposeBatch_effect operations).mono fun _ _ h => ?_)
    exact (sat_pure _).2 h
  | setPriorityDelay priority delay => exact setPriorityDelay_effect priority delay
  | setTimelockDuration duration =>
    have hframe : Frame [.auths,.config,.flags,.suspension]
        (Model.setTimelockDuration duration) := asAdmin_frame (configure_frame _ _)
    refine (hframe w).mono fun _ w' hw => ?_
    have hlock : w'.store.timelock = w.store.timelock := hw .timelock (by simp)
    rw [hlock]
    exact ⟨rfl,rfl⟩
  | executeOperation id => exact executeOperation_effect id
  | executeBatch id => exact executeBatch_effect id
  | cancelOperation id => exact cancelOperation_effect id
  | cancelBatch id => exact cancelBatch_effect id

end Calls

/-- A call, or a change of storage that leaves the queues as they are. -/
inductive TimelockAct
  | call (call : TimelockCall)
  | elsewhere (rest : Store)

structure TimelockTx where
  env : Env
  act : TimelockAct

def execTimelock (st : Store) (t : TimelockTx) : Store :=
  match t.act with
  | .call call => invoke call.body t.env st
  | .elsewhere rest => { rest with timelock := st.timelock }

def Item.proposal : Item → TimelockCall
  | operation op => .proposeOperationWithPriority op.opType op.data op.priority
  | batch b => .proposeBatch b.operations

def Proposes (k : Kind × Nat) (item : Item) (s : Store) (t : TimelockTx) : Prop :=
  t.act = .call item.proposal ∧ Enters t.env s (execTimelock s t).timelock k item

/-- The step executes what is queued under the key. -/
def Executes (k : Kind × Nat) (s : Store) (t : TimelockTx) : Prop :=
  t.act = .call (executeCall k) ∧ failure (executeCall k).body t.env s = none

def NoQueue (t : Model.Timelock) : Prop :=
  t.pendingOp = (fun _ => none) ∧ t.pendingBatch = fun _ => none

section Steps

variable {st : Store} {t : TimelockTx} {k : Kind × Nat} {item : Item} {d : Nat}

theorem TimelockCall.Effect.cases {call : TimelockCall} {env : Env} {q : Model.Timelock}
    (h : call.Effect env st q) :
    (∃ k item, call = item.proposal ∧ Enters env st q k item) ∨ (∃ k, Leaves st q k) ∨
      queued q = queued st.timelock ∧ recorded q = recorded st.timelock := by
  cases call with
  | proposeOperationWithPriority opType data priority =>
    obtain ⟨id,admin,h⟩ := h
    exact .inl ⟨_,_,rfl,h⟩
  | proposeBatch operations =>
    obtain ⟨id,admin,h⟩ := h
    exact .inl ⟨_,_,rfl,h⟩
  | setPriorityDelay priority delay => exact .inr (.inr h)
  | setTimelockDuration duration => exact .inr (.inr h)
  | executeOperation id => exact .inr (.inl ⟨_,h.2⟩)
  | executeBatch id => exact .inr (.inl ⟨_,h.2⟩)
  | cancelOperation id => exact .inr (.inl ⟨_,h⟩)
  | cancelBatch id => exact .inr (.inl ⟨_,h⟩)

theorem execTimelock_cases (st : Store) (t : TimelockTx) :
    (execTimelock st t).timelock = st.timelock ∨
      ∃ call, t.act = .call call ∧ failure call.body t.env st = none ∧
        call.Effect t.env st (execTimelock st t).timelock := by
  unfold execTimelock
  cases ht : t.act with
  | elsewhere rest => exact .inl rfl
  | call call =>
    dsimp only
    rcases invoke_cases (call.body_effect (w := World.enter t.env st)) with
      h | ⟨hok,w,hw,hst,_⟩
    · exact .inl (by rw [h.2.1])
    · refine .inr ⟨call,rfl,hok,?_⟩
      rw [← hst]
      exact hw

theorem executes_effect (h : Executes k st t) :
    Mature t.env st k ∧ Leaves st (execTimelock st t).timelock k := by
  obtain ⟨hact,hok⟩ := h
  have heff : (executeCall k).Effect t.env st (execTimelock st t).timelock := by
    unfold execTimelock
    rw [hact]
    rcases invoke_cases ((executeCall k).body_effect (w := World.enter t.env st)) with
      h | ⟨_,w,hw,hst,_⟩
    · exact (h.1 hok).elim
    · dsimp only
      rw [← hst]
      exact hw
  obtain ⟨kind,id⟩ := k
  cases kind with
  | operation => exact heff
  | batch => exact heff

/-- An item that waits after a step waited before it with the same record, or was proposed by it. -/
theorem waits_of_step (hq : queued (execTimelock st t).timelock k = some item)
    (hd : recorded (execTimelock st t).timelock k = some d) :
    queued st.timelock k = some item ∧ recorded st.timelock k = some d ∨
      Proposes k item st t ∧ d = item.delay st := by
  rcases execTimelock_cases st t with h | ⟨call,hact,_,heff⟩
  · rw [h] at hq hd
    exact .inl ⟨hq,hd⟩
  · rcases heff.cases with ⟨k',item',hcall,henter⟩ | ⟨k',hleave⟩ | ⟨hqueue,hrec⟩
    · by_cases hk : k = k'
      · subst hk
        have hitem := hq
        rw [henter.queued_eq,Function.update_self,Option.some.injEq] at hitem
        subst hitem
        rw [henter.recorded_eq,Function.update_self,Option.some.injEq] at hd
        exact .inr ⟨⟨by rw [hact,hcall],henter⟩,hd.symm⟩
      · rw [henter.queued_eq,Function.update_of_ne hk] at hq
        rw [henter.recorded_eq,Function.update_of_ne hk] at hd
        exact .inl ⟨hq,hd⟩
    · by_cases hk : k = k'
      · subst hk
        simp [hleave.queued_eq] at hq
      · rw [hleave.queued_eq,Function.update_of_ne hk] at hq
        rw [hleave.recorded_eq,Function.update_of_ne hk] at hd
        exact .inl ⟨hq,hd⟩
    · rw [hqueue] at hq
      rw [hrec] at hd
      exact .inl ⟨hq,hd⟩

def AllRecorded (q : Model.Timelock) : Prop :=
  ∀ k item, queued q k = some item → ∃ d, recorded q k = some d

theorem allRecorded_step (h : AllRecorded st.timelock) :
    AllRecorded (execTimelock st t).timelock := by
  intro k item hq
  rcases execTimelock_cases st t with hsame | ⟨call,_,_,heff⟩
  · rw [hsame] at hq ⊢
    exact h k item hq
  · rcases heff.cases with ⟨k',item',_,henter⟩ | ⟨k',hleave⟩ | ⟨hqueue,hrec⟩
    · rw [henter.queued_eq] at hq
      rw [henter.recorded_eq]
      by_cases hk : k = k'
      · subst hk
        exact ⟨_,Function.update_self ..⟩
      · rw [Function.update_of_ne hk] at hq ⊢
        exact h k item hq
    · rw [hleave.queued_eq] at hq
      rw [hleave.recorded_eq]
      by_cases hk : k = k'
      · subst hk
        simp at hq
      · rw [Function.update_of_ne hk] at hq ⊢
        exact h k item hq
    · rw [hqueue] at hq
      rw [hrec]
      exact h k item hq

end Steps

section Runs

variable {st : Store} {ts : List TimelockTx} {k : Kind × Nat} {item : Item} {d : Nat}

theorem queued_of_noQueue {q : Model.Timelock} (h : NoQueue q) : queued q k = none := by
  obtain ⟨kind,id⟩ := k
  cases kind with
  | operation => simp [queued,h.1]
  | batch => simp [queued,h.2]

theorem allRecorded_run (hclean : NoQueue st.timelock) :
    AllRecorded (run execTimelock st ts).timelock := by
  induction ts using List.reverseRecOn with
  | nil =>
    intro k item hq
    simp [queued_of_noQueue hclean] at hq
  | append_singleton ts t ih =>
    rw [run_concat]
    exact allRecorded_step ih

/-- An item that waits has waited, with the same record, since the step that proposed it. -/
theorem waits_since (hclean : NoQueue st.timelock)
    (hq : queued (run execTimelock st ts).timelock k = some item)
    (hd : recorded (run execTimelock st ts).timelock k = some d) :
    Since execTimelock st (fun s t => Proposes k item s t ∧ d = item.delay s)
      (fun s => queued s.timelock k = some item ∧ recorded s.timelock k = some d) ts := by
  induction ts using List.reverseRecOn with
  | nil => simp [queued_of_noQueue hclean] at hq
  | append_singleton ts t ih =>
    rw [run_concat] at hq hd
    rcases waits_of_step hq hd with h | h
    · exact (ih h.1 h.2).extend ⟨hq,hd⟩
    · exact since_begin h ⟨hq,hd⟩

/-- The execution of what is queued under the key was proposed, waited undisturbed, and waited for
the longer of the delays in force at its proposal and at its execution. -/
def Waited (st : Store) (pre : List TimelockTx) (t : TimelockTx) (k : Kind × Nat) : Prop :=
  ∃ before u mid item, pre = before ++ u :: mid ∧ Proposes k item (run execTimelock st before) u ∧
    (∀ part, part <+: mid →
      queued (run execTimelock st (before ++ u :: part)).timelock k = some item) ∧
    u.env.sequence + max (item.delay (run execTimelock st before))
      (item.delay (run execTimelock st pre)) ≤ t.env.sequence

/-- The timelock over the run `ts`: every execution has waited, between two executions under one
key there is a new proposal, and a batch waits for its longest element. -/
structure Respected (st : Store) (ts : List TimelockTx) : Prop where
  waited : ∀ pre t post k, ts = pre ++ t :: post → Executes k (run execTimelock st pre) t →
    Waited st pre t k
  once : ∀ pre t mid u post k, ts = pre ++ t :: mid ++ u :: post →
    Executes k (run execTimelock st pre) t →
    Executes k (run execTimelock st (pre ++ t :: mid)) u →
    ∃ part v rest item, mid = part ++ v :: rest ∧
      Proposes k item (run execTimelock st (pre ++ t :: part)) v
  longest : ∀ pre operations op, pre <+: ts → op ∈ operations →
    let s := run execTimelock st pre
    (op.opType = 0 ∨ op.opType = 1 → s.getPriorityDelay .longTerm ≤ s.batchRequiredDelay operations)
      ∧ (¬(op.opType = 0 ∨ op.opType = 1) →
        s.getPriorityDelay .normal ≤ s.batchRequiredDelay operations)

theorem le_foldl_max {α : Type} (f : α → Nat) (xs : List α) (a : Nat) :
    a ≤ xs.foldl (fun m x => max m (f x)) a ∧
      ∀ x ∈ xs, f x ≤ xs.foldl (fun m x => max m (f x)) a := by
  induction xs generalizing a with
  | nil => simp
  | cons y ys ih =>
    obtain ⟨hstart,hrest⟩ := ih (max a (f y))
    rw [List.foldl_cons,List.forall_mem_cons]
    exact ⟨by omega,by omega,hrest⟩

theorem elementDelay_le (s : Store) {operations : List BatchOperation} {op : BatchOperation}
    (h : op ∈ operations) : s.elementDelay op.opType ≤ s.batchRequiredDelay operations :=
  (le_foldl_max (fun op : BatchOperation => s.elementDelay op.opType) operations _).2 op h

theorem proposal_ne_executeCall :
    (TimelockAct.call item.proposal) ≠ .call (executeCall k) := by
  obtain ⟨kind,id⟩ := k
  cases item <;> cases kind <;> simp [Item.proposal,executeCall]

theorem waited_of_executes {pre post : List TimelockTx} {t : TimelockTx}
    (hclean : NoQueue st.timelock)
    (hledgers : (pre ++ t :: post).Pairwise fun t u => t.env.sequence ≤ u.env.sequence)
    (h : Executes k (run execTimelock st pre) t) : Waited st pre t k := by
  obtain ⟨⟨item,hq,hmature⟩,_⟩ := executes_effect h
  obtain ⟨d,hd⟩ := allRecorded_run hclean k item hq
  obtain ⟨before,u,mid,rfl,⟨hproposes,hdelay⟩,hheld⟩ := waits_since hclean hq hd
  refine ⟨before,u,mid,item,rfl,hproposes,fun part hpart => (hheld part hpart).1,?_⟩
  rw [hd,Option.getD_some,hproposes.2.ledger_eq] at hmature
  have hle : u.env.sequence ≤ t.env.sequence :=
    (List.pairwise_append.1 hledgers).2.2 u (by simp) t (by simp)
  have helapsed := wrapSub32_le hle
  omega

/-- In every run with ledgers that do not go back, the timelock is respected. -/
theorem timelock_respected (st : Store) (ts : List TimelockTx) (hclean : NoQueue st.timelock)
    (hledgers : ts.Pairwise fun t u => t.env.sequence ≤ u.env.sequence) : Respected st ts where
  waited pre t post k hts h := by
    subst hts
    exact waited_of_executes hclean hledgers h
  once pre t mid u post k hts ht hu := by
    subst hts
    obtain ⟨⟨item,hq,_⟩,_⟩ := executes_effect hu
    obtain ⟨d,hd⟩ := allRecorded_run hclean k item hq
    obtain ⟨before,v,rest,hsplit,⟨hproposes,_⟩,hheld⟩ := waits_since hclean hq hd
    -- the proposal cannot lie before the first execution, which leaves nothing under the key
    have hgone : queued (run execTimelock st (pre ++ [t])).timelock k = none := by
      rw [run_concat,(executes_effect ht).2.queued_eq,Function.update_self]
    have hother : t ≠ v := by
      rintro rfl
      exact proposal_ne_executeCall (hproposes.1.symm.trans ht.1)
    rcases List.append_eq_append_iff.1 hsplit with ⟨a,rfl,htail⟩ | ⟨c,rfl,htail⟩
    · cases a with
      | nil => exact (hother (List.cons.inj htail).1).elim
      | cons x part =>
        obtain ⟨rfl,rfl⟩ := List.cons.inj htail
        exact ⟨part,v,rest,item,rfl,hproposes⟩
    · cases c with
      | nil => exact (hother (List.cons.inj htail).1.symm).elim
      | cons x part =>
        obtain ⟨rfl,rfl⟩ := List.cons.inj htail
        have hstill := (hheld (part ++ [t]) ⟨mid,by simp⟩).1
        rw [← List.cons_append,← List.append_assoc,hgone] at hstill
        cases hstill
  longest pre operations op _ hop := by
    have hle := elementDelay_le (run execTimelock st pre) hop
    unfold Store.elementDelay at hle
    constructor
    · intro h
      rwa [if_pos h] at hle
    · intro h
      rwa [if_neg h] at hle

/-- The administrator `9` of an oracle with one required source. -/
def timelockStore : Store := { config := { admin := some 9, minSources := some 1 } }

/-- An operation and a batch are proposed; the delays are shortened while they wait. -/
def shortenedRun : List TimelockTx :=
  [⟨.concrete 100 5 [9], .call (.setPriorityDelay .normal 30)⟩,
    ⟨.concrete 100 5 [9], .call (.proposeOperationWithPriority .setDecimals [] .normal)⟩,
    ⟨.concrete 101 5 [9], .call (.proposeBatch [⟨5, [0, 0, 0, 7]⟩, ⟨1, []⟩])⟩,
    ⟨.concrete 102 5 [9], .call (.setPriorityDelay .normal 1)⟩,
    ⟨.concrete 129 5 [9], .call (.executeOperation 1)⟩,
    ⟨.concrete 130 5 [9], .call (.executeOperation 1)⟩,
    ⟨.concrete 200 5 [9], .call (.executeBatch 1)⟩,
    ⟨.concrete 201 5 [9], .call (.executeBatch 1)⟩]

/-- The operation waits 30 ledgers and the batch 100, each for its longer delay. -/
theorem shortened_run_respected :
    Respected timelockStore shortenedRun ∧
      (run execTimelock timelockStore (shortenedRun.take 5)).timelock.pendingOp 1 ≠ none ∧
      (run execTimelock timelockStore (shortenedRun.take 6)).timelock.pendingOp 1 = none ∧
      (run execTimelock timelockStore (shortenedRun.take 7)).timelock.pendingBatch 1 ≠ none ∧
      (run execTimelock timelockStore shortenedRun).timelock.pendingBatch 1 = none ∧
      (run execTimelock timelockStore shortenedRun).config.decimals = some 7 :=
  ⟨timelock_respected timelockStore shortenedRun ⟨rfl,rfl⟩ (by decide),by decide,by decide,
    by decide,by decide,by decide⟩

end Runs

end PriceOracle.Timelock

/-! ## Expired operations

An operation expires in the ledger after the last one in which its delays have just passed. -/

namespace PriceOracle.Timelock

open Model Lib.Transaction Lib.MachineInt Lib.Run

/-- The administrator has authorized the invocation. -/
def AdminSigns (env : Env) (st : Store) : Prop := (st.config.admin.any env.authorized) = true

deriving instance Decidable for AdminSigns

section Calls

variable {env : Env} {st : Store} {id : Nat}

theorem adminSigns_of_success (h : failure (Model.executeOperation id) env st = none) :
    AdminSigns env st := by
  have hsat : Sat (Model.executeOperation id) (World.enter env st) fun _ _ => AdminSigns env st :=
    (sat_asAdmin _).2 fun admin hadmin hauth _ _ _ => by
      have hadmin' : st.config.admin = some admin := hadmin
      have hauth' : env.authorized admin = true := hauth
      simp [AdminSigns,hadmin',hauth']
  rcases invoke_cases (Q := fun _ => AdminSigns env st) hsat with h' | ⟨_,_,hsigns,_⟩
  · exact (h'.1 h).elim
  · exact hsigns

theorem mature_of_expired {op : PendingOperation} (hop : st.timelock.pendingOp id = some op)
    (hexpired : st.isOperationExpired env id = true) (hledger : env.sequence ≤ u32Max) :
    st.operationDelay op id ≤ wrapSub32 env.sequence op.proposedLedger := by
  simp only [Store.isOperationExpired,Store.operationExpiryLedger,hop,Option.map_some,
    Option.any_some,decide_eq_true_eq] at hexpired
  unfold satAdd32 at hexpired
  unfold u32Max at hexpired hledger
  unfold wrapSub32
  omega

theorem executeOperation_fails (hexpired : st.isOperationExpired env id = true)
    (hledger : env.sequence ≤ u32Max) :
    Fails (Model.executeOperation id) (World.enter env st) fun _ _ => ¬AdminSigns env st := by
  refine (fails_asAdmin _).2 ⟨fun hnone => ?_,fun admin hadmin => ⟨fun hauth => ?_,fun _ => ?_⟩⟩
  · have hnone' : st.config.admin = none := hnone
    simp [AdminSigns,hnone']
  · have hadmin' : st.config.admin = some admin := hadmin
    have hauth' : env.authorized admin = false := hauth
    simp [AdminSigns,hadmin',hauth']
  · cases hop : st.timelock.pendingOp id with
    | none => simp [Store.isOperationExpired,Store.operationExpiryLedger,hop] at hexpired
    | some op =>
      rw [fails_bind]
      refine ⟨(getPendingOperation_fails id).mono fun _ _ hnone => ?_,
        (getPendingOperation_sat id).mono fun d v ⟨hd,hv⟩ => ?_⟩
      · have hnone' : st.timelock.pendingOp id = none := hnone
        rw [hop] at hnone'
        cases hnone'
      · have hd' : st.timelock.pendingOp id = some d := hd
        rw [hop,Option.some.injEq] at hd'
        subst hd'
        subst hv
        simp only [fails_bind,fails_readStore,sat_readStore,fails_getSequence,sat_getSequence,
          fails_ensure,sat_ensure,modifyTimelock,fails_update,true_and,implies_true,and_true]
        intro hearly
        exact (hearly (mature_of_expired hop hexpired hledger)).elim

theorem expired_execution_fails_iff (hexpired : st.isOperationExpired env id = true)
    (hledger : env.sequence ≤ u32Max) :
    failure (Model.executeOperation id) env st ≠ none ↔ ¬AdminSigns env st := by
  constructor
  · intro hfails
    obtain ⟨e,he⟩ := Option.ne_none_iff_exists'.1 hfails
    exact failure_of_fails he (executeOperation_fails hexpired hledger)
  · intro hunsigned hok
    exact hunsigned (adminSigns_of_success hok)

end Calls

/-- The step executes no operation that has expired. -/
def ExpiryEnforced (s : Store) (t : TimelockTx) : Prop :=
  ∀ id, t.act = .call (.executeOperation id) → s.isOperationExpired t.env id = true →
    failure (Model.executeOperation id) t.env s ≠ none

/-- The step is not an execution of an expired operation that the administrator has authorized. -/
def ExpiredUnsigned (s : Store) (t : TimelockTx) : Prop :=
  ∀ id, t.act = .call (.executeOperation id) → s.isOperationExpired t.env id = true →
    ¬AdminSigns t.env s

/-- In a run the expiry is enforced exactly as long as the administrator never asks for the
execution of an expired operation. -/
theorem expiry_enforced_iff (st : Store) (ts : List TimelockTx)
    (hledgers : ∀ t ∈ ts, t.env.sequence ≤ u32Max) :
    (∀ x ∈ steps execTimelock st ts, ExpiryEnforced x.1 x.2) ↔
      ∀ x ∈ steps execTimelock st ts, ExpiredUnsigned x.1 x.2 := by
  refine forall₂_congr fun x hx => forall₃_congr fun id _ hexpired => ?_
  exact expired_execution_fails_iff hexpired (hledgers x.2 (snd_mem_of_mem_steps hx))

/-- An operation of normal priority, proposed at ledger 100, is executed at ledger 5000. -/
def staleRun : List TimelockTx :=
  [⟨.concrete 100 5 [9], .call (.proposeOperationWithPriority .upgrade [] .normal)⟩,
    ⟨.concrete 5000 5 [9], .call (.executeOperation 1)⟩]

theorem stale_operation_executed :
    ¬∀ x ∈ steps execTimelock timelockStore staleRun, ExpiryEnforced x.1 x.2 := by
  intro h
  have hlast := h (run execTimelock timelockStore (staleRun.take 1),
    ⟨.concrete 5000 5 [9],.call (.executeOperation 1)⟩) (by simp [staleRun])
  exact hlast 1 rfl (by decide) (by decide)

def strangersRun : List TimelockTx :=
  [⟨.concrete 100 5 [9], .call (.proposeOperationWithPriority .upgrade [] .normal)⟩,
    ⟨.concrete 5000 5 [4], .call (.executeOperation 1)⟩]

theorem strangers_run_enforced :
    ((run execTimelock timelockStore strangersRun).timelock.pendingOp 1).isSome = true ∧
      ∀ x ∈ steps execTimelock timelockStore strangersRun, ExpiryEnforced x.1 x.2 := by
  refine ⟨by decide,?_⟩
  refine (expiry_enforced_iff timelockStore strangersRun (by decide)).2 ?_
  simp only [strangersRun,steps_cons,steps_nil,List.forall_mem_cons]
  refine ⟨?_,?_,by simp⟩
  · intro id hact
    cases hact
  · intro id _ _
    decide

end PriceOracle.Timelock
