import Mathlib.Data.List.Nodup
import PriceOracle.Lib.Run
import PriceOracle.Model.Invocation
import PriceOracle.Model.Recovery

/-! # The recovery in flight

A recovery is installed only with a quorum of distinct guardians whose approvals still stand, after
the delay. The memory of a veto is one slot: it holds the last candidate whose recovery was
cancelled with a quorum, until a recovery is executed. -/

namespace PriceOracle.Recovery

open Lib.Transaction Lib.MachineInt Lib.Run Model

inductive RecoveryCall
  | setGuardians (guardians : List Address) (threshold : Nat)
  | setRecoveryDelay (delayLedgers : Nat)
  | approveRecovery (guardian newAdmin : Address)
  | cancelRecovery
  | executeRecovery

def RecoveryCall.body : RecoveryCall → Contract Unit
  | setGuardians guardians threshold => Model.setGuardians guardians threshold
  | setRecoveryDelay delayLedgers => Model.setRecoveryDelay delayLedgers
  | approveRecovery guardian newAdmin => Model.approveRecovery guardian newAdmin
  | cancelRecovery => Model.cancelRecovery
  | executeRecovery => Model.executeRecovery

/-- A call, or a change of storage that leaves the recovery as it is and some administrator in
place. -/
inductive RecoveryAct
  | call (call : RecoveryCall)
  | elsewhere (rest : Store)

structure RecoveryTx where
  env : Env
  act : RecoveryAct

def execRecovery (st : Store) (t : RecoveryTx) : Store :=
  match t.act with
  | .call call => invoke call.body t.env st
  | .elsewhere rest => { rest with
      recovery := st.recovery
      config := { rest.config with admin := rest.config.admin <|> st.config.admin } }

def RecoveryTx.Performs (st : Store) (t : RecoveryTx) (call : RecoveryCall) : Prop :=
  t.act = .call call ∧ failure call.body t.env st = none

def AdminSigns (env : Env) (st : Store) : Prop :=
  ∃ admin, st.config.admin = some admin ∧ env.authorized admin = true

section Calls

variable {w : World}

theorem setGuardians_sat (guardians : List Address) (threshold : Nat) :
    Sat (Model.setGuardians guardians threshold) w fun _ w' =>
      AdminSigns w.env w.store ∧ w.store.recovery.pending = none ∧ 0 < threshold ∧
      w'.store.recovery = { w.store.recovery with
        guardians := some guardians
        threshold := some threshold } := by
  refine (sat_asAdmin _).2 fun admin hadmin hauth => ?_
  simp only [checkRecoveryConfigUnlocked,sat_bind,sat_readStore,sat_ensure,modifyRecovery,
    sat_update,authorizedBy_store]
  intro hpending _ hvalid
  exact ⟨⟨admin,hadmin,hauth⟩,hpending,by omega,trivial⟩

theorem setRecoveryDelay_sat (delayLedgers : Nat) :
    Sat (Model.setRecoveryDelay delayLedgers) w fun _ w' =>
      AdminSigns w.env w.store ∧ w.store.recovery.pending = none ∧
      w'.store.recovery = { w.store.recovery with delay := some delayLedgers } := by
  refine (sat_asAdmin _).2 fun admin hadmin hauth => ?_
  simp only [checkRecoveryConfigUnlocked,sat_bind,sat_readStore,sat_ensure,modifyRecovery,
    sat_update,authorizedBy_store]
  intro hpending _ _
  exact ⟨⟨admin,hadmin,hauth⟩,hpending,trivial⟩

theorem approveRecovery_sat (guardian newAdmin : Address) :
    Sat (Model.approveRecovery guardian newAdmin) w fun _ w' =>
      ∃ r, r = w.store.recovery.pending.getD ⟨newAdmin,[],w.env.sequence,0⟩ ∧
        r.newAdmin = newAdmin ∧ guardian ∈ w.store.getGuardians ∧ guardian ∉ r.approvals ∧
        w'.store.recovery = { w.store.recovery with
          pending := some (r.approve guardian w.store.getRecoveryThreshold w.env.sequence) } := by
  simp only [Model.approveRecovery,sat_bind,sat_requireAuth,sat_readStore,sat_getSequence,
    sat_ensure,modifyRecovery,sat_update]
  intro _ hguardian hsame hnew
  exact ⟨_,rfl,hsame,hguardian,hnew,rfl⟩

theorem readPendingRecovery_sat :
    Sat readPendingRecovery w fun r w' => w.store.recovery.pending = some r ∧ w' = w :=
  sat_lookup (by cases w.store.recovery.pending <;> rfl)

theorem readPendingRecovery_fails :
    Fails readPendingRecovery w fun _ _ => w.store.recovery.pending = none :=
  fails_lookup (by cases w.store.recovery.pending <;> rfl)

theorem cancelRecovery_sat :
    Sat Model.cancelRecovery w fun _ w' => ∃ r, w.store.recovery.pending = some r ∧
      (r.readyLedger = 0 ∧ w'.store.recovery = { w.store.recovery with pending := none } ∨
        r.readyLedger ≠ 0 ∧ (∀ veto ∈ w.store.recovery.veto, veto.1 ≠ r.newAdmin) ∧
        w'.store.recovery = { w.store.recovery with
          pending := none
          veto := some (r.newAdmin,satAdd32 w.env.sequence w.store.getRecoveryDelay) }) := by
  refine (sat_asAdmin _).2 fun admin _ _ => readPendingRecovery_sat.andThen ?_
  rintro r t ⟨hr,ht⟩
  rw [ht]
  simp only [vetoRecovery,sat_bind]
  refine sat_ite _ (fun hready => ?_) fun hready => ?_
  · simp only [sat_pure,modifyRecovery,sat_update]
    exact ⟨r,hr,.inl ⟨hready,rfl⟩⟩
  · simp only [sat_bind,sat_readStore,sat_ensure,modifyRecovery,sat_update]
    intro hvetoed
    refine ⟨r,hr,.inr ⟨hready,fun veto hveto hsame => ?_,rfl⟩⟩
    rw [show (w.authorizedBy admin).store.recovery.veto = some veto from hveto] at hvetoed
    simp [hsame] at hvetoed

theorem executeRecovery_sat :
    Sat Model.executeRecovery w fun _ w' => ∃ r, w.store.recovery.pending = some r ∧
      r.readyLedger ≠ 0 ∧ satAdd32 r.readyLedger w.store.getRecoveryDelay ≤ w.env.sequence ∧
      w'.store.config.admin = some r.newAdmin ∧
      w'.store.recovery = { w.store.recovery with pending := none, veto := none } := by
  refine readPendingRecovery_sat.andThen ?_
  rintro r t ⟨hr,ht⟩
  rw [ht]
  simp only [sat_bind,sat_ensure,sat_readStore,sat_getSequence]
  intro hready hdelay
  refine (getAdmin_frame (T := []) w).mono fun _ u hu => ?_
  have hrecovery : u.store.recovery = w.store.recovery := hu .recovery (by simp)
  simp only [modifyConfig,sat_update,modifyRecovery]
  rw [hrecovery]
  exact ⟨r,hr,hready,hdelay,rfl,rfl⟩

end Calls

/-- The guardian's approval of the candidate is accepted. -/
def Approves (guardian newAdmin : Address) (st : Store) (t : RecoveryTx) : Prop :=
  t.Performs st (.approveRecovery guardian newAdmin)

/-- The approval that gives the candidate a quorum, in the given ledger. -/
def ReachesQuorum (newAdmin : Address) (ledger : Nat) (st : Store) (t : RecoveryTx) : Prop :=
  t.env.sequence = ledger ∧ ∃ guardian, Approves guardian newAdmin st t ∧
    ∃ r, (execRecovery st t).recovery.pending = some r ∧
      (execRecovery st t).getRecoveryThreshold ≤ r.approvals.length

/-- A cancellation of the candidate's recovery after it had a quorum. -/
def Vetoes (newAdmin : Address) (st : Store) (t : RecoveryTx) : Prop :=
  t.Performs st .cancelRecovery ∧
    ∃ r, st.recovery.pending = some r ∧ r.newAdmin = newAdmin ∧ r.readyLedger ≠ 0

def PendingFor (newAdmin : Address) (st : Store) : Prop :=
  ∃ r, st.recovery.pending = some r ∧ r.newAdmin = newAdmin

/-- What a step does to the recovery. -/
inductive Effect (st : Store) (t : RecoveryTx) (r' : Model.Recovery) : Prop
  | quiet (h : r' = st.recovery) (hno : ∀ call, ¬t.Performs st call)
  | configured (hsigned : AdminSigns t.env st) (hpending : r'.pending = none)
      (hveto : r'.veto = st.recovery.veto)
      (hno : ¬t.Performs st .cancelRecovery ∧ ¬t.Performs st .executeRecovery)
  | approved (guardian newAdmin : Address) (r : GuardianRecovery)
      (hcall : Approves guardian newAdmin st t)
      (hr : r = st.recovery.pending.getD ⟨newAdmin, [], t.env.sequence, 0⟩)
      (hsame : r.newAdmin = newAdmin) (hguardian : guardian ∈ st.getGuardians)
      (hnew : guardian ∉ r.approvals)
      (h : r' = { st.recovery with
        pending := some (r.approve guardian st.getRecoveryThreshold t.env.sequence) })
  | cancelled (r : GuardianRecovery) (hcall : t.Performs st .cancelRecovery)
      (hr : st.recovery.pending = some r) (hready : r.readyLedger = 0)
      (h : r' = { st.recovery with pending := none })
  | vetoed (r : GuardianRecovery) (hcall : t.Performs st .cancelRecovery)
      (hr : st.recovery.pending = some r) (hready : r.readyLedger ≠ 0)
      (h : r' = { st.recovery with
        pending := none
        veto := some (r.newAdmin, satAdd32 t.env.sequence st.getRecoveryDelay) })
  | executed (r : GuardianRecovery) (hcall : t.Performs st .executeRecovery)
      (hr : st.recovery.pending = some r)
      (h : r' = { st.recovery with pending := none, veto := none })

section Effects

variable {st : Store} {t : RecoveryTx}

theorem RecoveryTx.Performs.eq {call other : RecoveryCall} (h : t.Performs st call)
    (h' : t.Performs st other) : call = other :=
  RecoveryAct.call.inj (h.1.symm.trans h'.1)

/-- A call panics and changes nothing, or it ends in a world that its function reaches. -/
theorem execRecovery_call (st : Store) {call : RecoveryCall} (hact : t.act = .call call) {Q : World → Prop}
    (hbody : Sat call.body (World.enter t.env st) fun _ w => Q w) :
    ((execRecovery st t).recovery = st.recovery ∧ ∀ other, ¬t.Performs st other) ∨
      t.Performs st call ∧ ∃ w, Q w ∧ w.store = execRecovery st t := by
  unfold execRecovery
  rw [hact]
  rcases invoke_cases hbody with ⟨hfail,hst,-⟩ | ⟨hok,w,hw,hst,-⟩
  · refine .inl ⟨congrArg Store.recovery hst,fun other hother => hfail ?_⟩
    have hsame : call = other := RecoveryAct.call.inj (hact.symm.trans hother.1)
    rw [hsame]
    exact hother.2
  · exact .inr ⟨⟨hact,hok⟩,w,hw,hst⟩

theorem execRecovery_effect (st : Store) (t : RecoveryTx) :
    Effect st t (execRecovery st t).recovery := by
  cases hact : t.act with
  | elsewhere rest =>
    refine .quiet ?_ fun call hcall => ?_
    · unfold execRecovery
      rw [hact]
    · have hother := hcall.1
      rw [hact] at hother
      cases hother
  | call call =>
    cases call with
    | setGuardians guardians threshold =>
      rcases execRecovery_call st hact (setGuardians_sat guardians threshold) with
        ⟨h,hno⟩ | ⟨hcall,w,⟨hsigned,hnone,-,h⟩,hw⟩
      · exact .quiet h hno
      · rw [hw] at h
        refine .configured hsigned ?_ ?_ ⟨fun hc => ?_,fun hc => ?_⟩
        · rw [h]
          exact hnone
        · rw [h]
          rfl
        · cases hcall.eq hc
        · cases hcall.eq hc
    | setRecoveryDelay delayLedgers =>
      rcases execRecovery_call st hact (setRecoveryDelay_sat delayLedgers) with
        ⟨h,hno⟩ | ⟨hcall,w,⟨hsigned,hnone,h⟩,hw⟩
      · exact .quiet h hno
      · rw [hw] at h
        refine .configured hsigned ?_ ?_ ⟨fun hc => ?_,fun hc => ?_⟩
        · rw [h]
          exact hnone
        · rw [h]
          rfl
        · cases hcall.eq hc
        · cases hcall.eq hc
    | approveRecovery guardian newAdmin =>
      rcases execRecovery_call st hact (approveRecovery_sat guardian newAdmin) with
        ⟨h,hno⟩ | ⟨hcall,w,⟨r,hr,hsame,hguardian,hnew,h⟩,hw⟩
      · exact .quiet h hno
      · rw [hw] at h
        exact .approved guardian newAdmin r hcall hr hsame hguardian hnew h
    | cancelRecovery =>
      rcases execRecovery_call st hact cancelRecovery_sat with
        ⟨h,hno⟩ | ⟨hcall,w,⟨r,hr,hcases⟩,hw⟩
      · exact .quiet h hno
      · rw [hw] at hcases
        rcases hcases with ⟨hready,h⟩ | ⟨hready,-,h⟩
        · exact .cancelled r hcall hr hready h
        · exact .vetoed r hcall hr hready h
    | executeRecovery =>
      rcases execRecovery_call st hact executeRecovery_sat with
        ⟨h,hno⟩ | ⟨hcall,w,⟨r,hr,-,-,-,h⟩,hw⟩
      · exact .quiet h hno
      · rw [hw] at h
        exact .executed r hcall hr h

end Effects

section Veto

variable {st : Store} {t : RecoveryTx} {ts : List RecoveryTx} {newAdmin : Address}

def Remembers (newAdmin : Address) (st : Store) : Prop :=
  ∃ untilLedger, st.recovery.veto = some (newAdmin, untilLedger)

theorem remembers_of_vetoes (h : Vetoes newAdmin st t) :
    Remembers newAdmin (execRecovery st t) := by
  obtain ⟨hcall,r,hr,hsame,hready⟩ := h
  cases execRecovery_effect st t with
  | quiet _ hno => exact (hno _ hcall).elim
  | configured _ _ _ hno => exact (hno.1 hcall).elim
  | approved _ _ _ hother => cases hcall.eq hother
  | cancelled x _ hx hzero =>
    rw [hr,Option.some.injEq] at hx
    rw [← hx] at hzero
    exact (hready hzero).elim
  | vetoed x _ hx _ h =>
    rw [hr,Option.some.injEq] at hx
    rw [← hx,hsame] at h
    exact ⟨_,congrArg Model.Recovery.veto h⟩
  | executed _ hother => cases hcall.eq hother

theorem veto_of_executes (h : t.Performs st .executeRecovery) :
    (execRecovery st t).recovery.veto = none := by
  cases execRecovery_effect st t with
  | quiet _ hno => exact (hno _ h).elim
  | configured _ _ _ hno => exact (hno.2 h).elim
  | approved _ _ _ hother => cases h.eq hother
  | cancelled _ hother => cases h.eq hother
  | vetoed _ hother => cases h.eq hother
  | executed _ _ _ heffect => exact congrArg Model.Recovery.veto heffect

theorem veto_of_neither (hno : ¬t.Performs st .executeRecovery)
    (hveto : ∀ candidate, ¬Vetoes candidate st t) :
    (execRecovery st t).recovery.veto = st.recovery.veto := by
  cases execRecovery_effect st t with
  | quiet h => exact congrArg Model.Recovery.veto h
  | configured _ _ h => exact h
  | approved _ _ _ _ _ _ _ _ h => rw [h]
  | cancelled _ _ _ _ h => rw [h]
  | vetoed r hcall hr hready => exact (hveto r.newAdmin ⟨hcall,r,hr,rfl,hready⟩).elim
  | executed _ hcall => exact (hno hcall).elim

/-- The candidate was vetoed, and since its last veto no other candidate was and nothing was
executed. -/
def VetoStands (newAdmin : Address) (st : Store) (ts : List RecoveryTx) : Prop :=
  Unended execRecovery st (Vetoes newAdmin)
    (fun s t => t.Performs s .executeRecovery ∨ ∃ other ≠ newAdmin, Vetoes other s t) ts

theorem remembers_iff (hst : st.recovery.veto = none) :
    Remembers newAdmin (run execRecovery st ts) ↔ VetoStands newAdmin st ts := by
  refine latch_iff ?_ (fun s t => remembers_of_vetoes) (fun s t hend => ?_) fun s t hno hend => ?_
  · rintro ⟨untilLedger,h⟩
    rw [hst] at h
    cases h
  · rintro ⟨untilLedger,h⟩
    rcases hend with hexecutes | ⟨other,hne,hother⟩
    · rw [veto_of_executes hexecutes] at h
      cases h
    · obtain ⟨_,hafter⟩ := remembers_of_vetoes hother
      rw [h,Option.some.injEq,Prod.mk.injEq] at hafter
      exact hne hafter.1.symm
  · unfold Remembers
    rw [veto_of_neither (fun h => hend (.inl h)) fun candidate h => ?_]
    by_cases hc : candidate = newAdmin
    · rw [hc] at h
      exact hno h
    · exact hend (.inr ⟨candidate,hc,h⟩)

end Veto

section Quorum

variable {st : Store} {ts : List RecoveryTx} {r : GuardianRecovery}

/-- The approvals of `r` were given by distinct guardians while it was in flight, and it became
ready with the approval that completed the quorum. -/
structure Supported (st : Store) (ts : List RecoveryTx) (r : GuardianRecovery) : Prop where
  distinct : r.approvals.Nodup
  approved : ∀ guardian ∈ r.approvals, guardian ∈ (run execRecovery st ts).getGuardians ∧
    Since execRecovery st (Approves guardian r.newAdmin) (PendingFor r.newAdmin) ts
  quorum : r.readyLedger ≠ 0 →
    (run execRecovery st ts).getRecoveryThreshold ≤ r.approvals.length ∧
      Since execRecovery st (ReachesQuorum r.newAdmin r.readyLedger) (PendingFor r.newAdmin) ts

theorem supported_fresh (newAdmin : Address) (sequence : Nat) :
    Supported st ts ⟨newAdmin,[],sequence,0⟩ where
  distinct := List.nodup_nil
  approved _ h := by cases h
  quorum h := (h rfl).elim

/-- A step that keeps the recovery keeps its support. -/
theorem Supported.keep (h : Supported st ts r) {t : RecoveryTx}
    (hpending : (run execRecovery st ts).recovery.pending = some r)
    (hkeep : (run execRecovery st (ts ++ [t])).recovery = (run execRecovery st ts).recovery) :
    Supported st (ts ++ [t]) r := by
  have hsame : (execRecovery (run execRecovery st ts) t).recovery =
      (run execRecovery st ts).recovery := by rw [← hkeep,run_concat]
  have hafter : PendingFor r.newAdmin (execRecovery (run execRecovery st ts) t) :=
    ⟨r,(congrArg Model.Recovery.pending hsame).trans hpending,rfl⟩
  refine ⟨h.distinct,fun guardian hg => ?_,fun hready => ?_⟩
  · rw [Store.getGuardians,hkeep]
    exact ⟨(h.approved guardian hg).1,(h.approved guardian hg).2.extend hafter⟩
  · rw [Store.getRecoveryThreshold,hkeep]
    exact ⟨(h.quorum hready).1,(h.quorum hready).2.extend hafter⟩

/-- One more approval keeps the support, and may complete the quorum. -/
theorem Supported.approve (h : Supported st ts r) {t : RecoveryTx} {guardian : Address}
    (hcall : Approves guardian r.newAdmin (run execRecovery st ts) t)
    (hguardian : guardian ∈ (run execRecovery st ts).getGuardians) (hnew : guardian ∉ r.approvals)
    (heffect : (execRecovery (run execRecovery st ts) t).recovery =
      { (run execRecovery st ts).recovery with
        pending := some (r.approve guardian (run execRecovery st ts).getRecoveryThreshold
          t.env.sequence) }) :
    Supported st (ts ++ [t]) (r.approve guardian (run execRecovery st ts).getRecoveryThreshold
      t.env.sequence) := by
  have hafter : PendingFor r.newAdmin (execRecovery (run execRecovery st ts) t) := by
    rw [PendingFor,heffect]
    exact ⟨_,rfl,rfl⟩
  have hguardians : (run execRecovery st (ts ++ [t])).getGuardians =
      (run execRecovery st ts).getGuardians := by
    rw [run_concat,Store.getGuardians,heffect]
    rfl
  have hthreshold : (execRecovery (run execRecovery st ts) t).getRecoveryThreshold =
      (run execRecovery st ts).getRecoveryThreshold := by
    rw [Store.getRecoveryThreshold,heffect]
    rfl
  refine ⟨?_,fun g hg => ?_,fun hready => ?_⟩
  · exact List.nodup_append.2 ⟨h.distinct,List.nodup_singleton _,fun a ha b hb hab => by
      rw [List.mem_singleton.1 hb] at hab
      exact hnew (hab ▸ ha)⟩
  · rw [hguardians]
    rcases List.mem_append.1 hg with hold | hg
    · exact ⟨(h.approved g hold).1,(h.approved g hold).2.extend hafter⟩
    · rw [List.mem_singleton.1 hg]
      exact ⟨hguardian,since_begin hcall hafter⟩
  · rw [run_concat,hthreshold]
    unfold GuardianRecovery.approve at hready ⊢
    dsimp only at hready ⊢
    split_ifs at hready ⊢ with hquorum
    · have hpending := congrArg Model.Recovery.pending heffect
      refine ⟨hquorum.2,since_begin ⟨rfl,guardian,hcall,_,hpending,?_⟩ hafter⟩
      rw [hthreshold]
      exact hquorum.2
    · obtain ⟨hthreshold,hsince⟩ := h.quorum hready
      refine ⟨?_,hsince.extend hafter⟩
      rw [List.length_append]
      omega

/-- The recovery in flight is supported, in every run from a contract that had none. -/
theorem run_supported (hst : st.recovery.pending = none)
    (hr : (run execRecovery st ts).recovery.pending = some r) : Supported st ts r := by
  induction ts using List.reverseRecOn generalizing r with
  | nil =>
    rw [run_nil,hst] at hr
    cases hr
  | append_singleton ts t ih =>
    rw [run_concat] at hr
    cases execRecovery_effect (run execRecovery st ts) t with
    | quiet h =>
      rw [h] at hr
      exact (ih hr).keep hr (by rw [run_concat,h])
    | configured _ hpending =>
      rw [hpending] at hr
      cases hr
    | approved guardian newAdmin x hcall hx hsame hguardian hnew h =>
      have hsupported : Supported st ts x := by
        rw [hx]
        cases hpending : (run execRecovery st ts).recovery.pending with
        | none => exact supported_fresh _ _
        | some y => exact ih hpending
      rw [h,Option.some.injEq] at hr
      rw [← hr]
      rw [← hsame] at hcall
      exact hsupported.approve hcall hguardian hnew h
    | cancelled _ _ _ _ h =>
      rw [h] at hr
      cases hr
    | vetoed _ _ _ _ h =>
      rw [h] at hr
      cases hr
    | executed _ _ _ h =>
      rw [h] at hr
      cases hr

end Quorum

section Outcomes

variable {st : Store} {env : Env} {r : GuardianRecovery}

/-- The administrator cancels a recovery with a quorum unless its candidate is remembered. -/
theorem cancel_succeeds_iff (hr : st.recovery.pending = some r) (hready : r.readyLedger ≠ 0) :
    failure Model.cancelRecovery env st = none ↔
      AdminSigns env st ∧ ¬Remembers r.newAdmin st := by
  constructor
  · intro hok
    obtain ⟨_,w,hw⟩ := failure_eq_none_iff.1 hok
    have hadmin : Sat Model.cancelRecovery (World.enter env st) fun _ _ => AdminSigns env st :=
      (sat_asAdmin _).2 fun admin hadmin hauth _ _ _ => ⟨admin,hadmin,hauth⟩
    refine ⟨hadmin _ _ hw,?_⟩
    rintro ⟨untilLedger,hveto⟩
    obtain ⟨x,hx,hcases⟩ := cancelRecovery_sat (w := World.enter env st) _ _ hw
    have hsame : x = r := Option.some.inj (hx.symm.trans hr)
    rw [hsame] at hcases
    rcases hcases with ⟨hzero,-⟩ | ⟨-,hno,-⟩
    · exact hready hzero
    · exact hno _ hveto rfl
  · rintro ⟨⟨admin,hadmin,hauth⟩,hno⟩
    have hvetoed : (st.recovery.veto.any fun veto => veto.1 = r.newAdmin) = false := by
      cases hveto : st.recovery.veto with
      | none => rfl
      | some veto =>
        refine decide_eq_false fun hsame => hno ⟨veto.2,?_⟩
        rw [hveto,← hsame]
    refine succeeds_of_no_failure ?_
    refine (fails_asAdmin _).2 ⟨fun hnone => ?_,fun other hother => ⟨fun hdenied => ?_,fun _ => ?_⟩⟩
    · rw [show st.config.admin = none from hnone] at hadmin
      cases hadmin
    · rw [show other = admin from Option.some.inj (hother.symm.trans hadmin)] at hdenied
      rw [show env.authorized admin = false from hdenied] at hauth
      cases hauth
    · refine (fails_bind _).2 ⟨readPendingRecovery_fails.mono fun _ _ hnone => ?_,
        readPendingRecovery_sat.mono fun x t ⟨hx,ht⟩ => ?_⟩
      · rw [show st.recovery.pending = none from hnone] at hr
        cases hr
      · rw [ht,show x = r from Option.some.inj (hx.symm.trans hr),vetoRecovery,if_neg hready]
        simpa [World.enter] using hvetoed

/-- What an execution was based on: distinct guardians whose approvals stood until then, as many as
the threshold, and the delay since the quorum. -/
structure Justified (st : Store) (ts : List RecoveryTx) (env : Env) (newAdmin : Address) : Prop where
  approvers : ∃ approvers : List Address, approvers.Nodup ∧
    (run execRecovery st ts).getRecoveryThreshold ≤ approvers.length ∧
    ∀ guardian ∈ approvers, guardian ∈ (run execRecovery st ts).getGuardians ∧
      Since execRecovery st (Approves guardian newAdmin) (PendingFor newAdmin) ts
  waited : ∃ quorumLedger,
    Since execRecovery st (ReachesQuorum newAdmin quorumLedger) (PendingFor newAdmin) ts ∧
      (env.sequence < u32Max →
        quorumLedger + (run execRecovery st ts).getRecoveryDelay ≤ env.sequence)

theorem execute_justified {ts : List RecoveryTx} (hst : st.recovery.pending = none)
    (hok : failure Model.executeRecovery env (run execRecovery st ts) = none) :
    ∃ newAdmin, (invoke Model.executeRecovery env (run execRecovery st ts)).config.admin =
      some newAdmin ∧ Justified st ts env newAdmin := by
  rcases invoke_cases (executeRecovery_sat (w := World.enter env (run execRecovery st ts))) with
    ⟨hfail,-⟩ | ⟨-,w,⟨r,hr,hready,hdelay,hadmin,-⟩,hw,-⟩
  · exact (hfail hok).elim
  · have hsupported := run_supported hst hr
    obtain ⟨hthreshold,hsince⟩ := hsupported.quorum hready
    rw [hw] at hadmin
    refine ⟨r.newAdmin,hadmin,⟨r.approvals,hsupported.distinct,hthreshold,
      hsupported.approved⟩,r.readyLedger,hsince,fun hlt => ?_⟩
    have hwaited : satAdd32 r.readyLedger (run execRecovery st ts).getRecoveryDelay ≤ env.sequence :=
      hdelay
    unfold satAdd32 at hwaited
    omega

end Outcomes

/-- In every run of a contract without a recovery, an administrator is installed only on the
approvals of a quorum and after the delay, and a recovery with a quorum withstands the
administrator exactly if its candidate was vetoed and since then neither another candidate was
vetoed nor a recovery executed. -/
theorem recovery_rules (st : Store) (hst : st.recovery = {}) (ts : List RecoveryTx) (env : Env) :
    (failure Model.executeRecovery env (run execRecovery st ts) = none →
      ∃ newAdmin, (invoke Model.executeRecovery env (run execRecovery st ts)).config.admin =
        some newAdmin ∧ Justified st ts env newAdmin) ∧
    ∀ r, (run execRecovery st ts).recovery.pending = some r → r.readyLedger ≠ 0 →
      (failure Model.cancelRecovery env (run execRecovery st ts) = none ↔
        AdminSigns env (run execRecovery st ts) ∧ ¬VetoStands r.newAdmin st ts) := by
  refine ⟨execute_justified (by rw [hst]),fun r hr hready => ?_⟩
  rw [cancel_succeeds_iff hr hready,remembers_iff (by rw [hst])]

def guardedStore : Store where
  config := { admin := some 7 }

/-- A call that the signer makes in the given ledger. -/
def step (sequence : Nat) (signer : Address) (call : RecoveryCall) : RecoveryTx :=
  ⟨.concrete sequence 0 [signer], .call call⟩

/-- Guardians `1` and `2` give the candidate a quorum of two of three. -/
def bothApprove (sequence : Nat) (newAdmin : Address) : List RecoveryTx :=
  [step sequence 1 (.approveRecovery 1 newAdmin), step sequence 2 (.approveRecovery 2 newAdmin)]

def quorumRun : List RecoveryTx :=
  step 10 7 (.setGuardians [1, 2, 3] 2) :: bothApprove 20 8

/-- After the delay the candidate is installed; before that the administrator cancels it once. -/
theorem quorum_executes :
    (∃ newAdmin, (invoke Model.executeRecovery (.concrete 17300 0 [])
        (run execRecovery guardedStore quorumRun)).config.admin = some newAdmin ∧
      Justified guardedStore quorumRun (.concrete 17300 0 []) newAdmin) ∧
    ∀ r, (run execRecovery guardedStore quorumRun).recovery.pending = some r → r.readyLedger ≠ 0 →
      (failure Model.cancelRecovery (.concrete 17300 0 [])
          (run execRecovery guardedStore quorumRun) = none ↔
        AdminSigns (.concrete 17300 0 []) (run execRecovery guardedStore quorumRun) ∧
          ¬VetoStands r.newAdmin guardedStore quorumRun) :=
  ⟨(recovery_rules guardedStore rfl quorumRun (.concrete 17300 0 [])).1 (by decide),
    (recovery_rules guardedStore rfl quorumRun (.concrete 17300 0 [])).2⟩

/-- The veto of candidate `9` wipes out the memory of the veto of candidate `8`. -/
def secondVetoRun : List RecoveryTx :=
  quorumRun ++ [step 30 7 .cancelRecovery] ++ bothApprove 40 9 ++ [step 50 7 .cancelRecovery] ++
    bothApprove 60 8

/-- The administrator cancels a recovery of candidate `8` with a quorum for the second time. -/
theorem second_veto_accepted :
    (run execRecovery guardedStore quorumRun).recovery.pending = some ⟨8, [1, 2], 20, 20⟩ ∧
      failure Model.cancelRecovery (.concrete 30 0 [7]) (run execRecovery guardedStore quorumRun) =
        none ∧
      (run execRecovery guardedStore secondVetoRun).recovery.pending = some ⟨8, [1, 2], 60, 60⟩ ∧
      failure Model.cancelRecovery (.concrete 70 0 [7])
        (run execRecovery guardedStore secondVetoRun) = none := by
  decide

end PriceOracle.Recovery
