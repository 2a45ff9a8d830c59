import PriceOracle.Lib.Run
import PriceOracle.Model.AutoRenewal
import PriceOracle.Model.Invocation

/-! # What the calls do to a consumer's right to renew

The record, the authorizations and the marks of one consumer change only by calls for that
consumer; and tokens leave the consumer only by a renewal that succeeds. -/

namespace PriceOracle.AutoRenewal

open Lib.Transaction Lib.MachineInt Model

inductive RenewalCall
  | enableAutoRenewal (consumer token : Address) (planDuration : Nat) (maxAmountPerPeriod : Int)
    (periodsAuthorized : Nat)
  | disableAutoRenewal (consumer : Address)
  | authorizeRenewal (consumer : Address) (periodId nonce : Nat)
  | tryAutoRenew (consumer : Address)
  | revokeOnCancel (consumer : Address)
  | setSubscriptionPrice (duration : Nat) (amount : Int)
deriving DecidableEq

def RenewalCall.body : RenewalCall → Contract Unit
  | enableAutoRenewal consumer token planDuration maxAmountPerPeriod periodsAuthorized =>
    Model.enableAutoRenewal consumer token planDuration maxAmountPerPeriod periodsAuthorized
  | disableAutoRenewal consumer => Model.disableAutoRenewal consumer
  | authorizeRenewal consumer periodId nonce => Model.authorizeRenewal consumer periodId nonce
  | tryAutoRenew consumer => do
    let _ ← Model.tryAutoRenew consumer
    pure ()
  | revokeOnCancel consumer => Model.revokeOnCancel consumer
  | setSubscriptionPrice duration amount => Model.setSubscriptionPrice duration amount

/-- A call, or a change of storage that leaves the rights to renew as they are. -/
inductive RenewalAct
  | call (call : RenewalCall)
  | elsewhere (rest : Store)

structure RenewalTx where
  env : Env
  act : RenewalAct

def execRenewal (st : Store) (t : RenewalTx) : Store :=
  match t.act with
  | .call call => invoke call.body t.env st
  | .elsewhere rest => { rest with
      subscriptions := { rest.subscriptions with
        record := st.subscriptions.record
        authorization := st.subscriptions.authorization
        spent := st.subscriptions.spent } }

def RenewalTx.Performs (st : Store) (t : RenewalTx) (call : RenewalCall) : Prop :=
  t.act = .call call ∧ failure call.body t.env st = none

def Enables (consumer : Address) (st : Store) (t : RenewalTx) : Prop :=
  ∃ token planDuration maxAmountPerPeriod periodsAuthorized, t.Performs st
    (.enableAutoRenewal consumer token planDuration maxAmountPerPeriod periodsAuthorized)

/-- The consumer signs the authorization, and it is stored. -/
def Issues (consumer : Address) (auth : RenewalAuthorization) (st : Store) (t : RenewalTx) :
    Prop :=
  t.Performs st (.authorizeRenewal consumer auth.periodId auth.nonce) ∧
    (execRenewal st t).subscriptions.authorization (consumer, auth.periodId) = some auth

/-- A renewal of the record by the authorization. -/
def PullsBy (consumer : Address) (record : AutoRenewRecord) (auth : RenewalAuthorization)
    (st : Store) (t : RenewalTx) : Prop :=
  t.Performs st (.tryAutoRenew consumer) ∧
    ∃ expiry, checkRenewal t.env st consumer = .ok (record, auth, expiry)

def Pulls (consumer : Address) (st : Store) (t : RenewalTx) : Prop :=
  ∃ record auth, PullsBy consumer record auth st t

def Revokes (consumer : Address) (st : Store) (t : RenewalTx) : Prop :=
  t.Performs st (.disableAutoRenewal consumer) ∨ t.Performs st (.revokeOnCancel consumer)

/-- What leaves the consumer's balance of a token in a call. -/
def pulled (token consumer : Address) (st : Store) (t : RenewalTx) : Int :=
  match t.act with
  | .call _ => st.custody.balance token consumer -
      (execRenewal st t).custody.balance token consumer
  | .elsewhere _ => 0

/-- The authorization that a renewal of the record can use. -/
def usable (s : Subscriptions) (consumer : Address) (record : AutoRenewRecord) :
    Option RenewalAuthorization :=
  (s.authorization (consumer, record.nextRenewalTimestamp)).filter fun auth =>
    auth.consumed = false ∧ auth.nonce = record.authorizationNonce ∧ 0 < auth.amount ∧
      record.periodsUsed < record.periodsAuthorized ∧
      s.spent (consumer, record.nextRenewalTimestamp) = false

def Keyed (st : Store) : Prop :=
  ∀ consumer record, st.subscriptions.record consumer = some record → record.consumer = consumer

/-- A token contract moves what it is told to move. -/
def Honest (host : Host) : Prop :=
  ∀ token spender owner recipient amount b b',
    host.transferFrom token spender owner recipient amount b = some b' →
      b' = b.move token owner recipient amount

section Calls

variable {w : World} (consumer : Address)

theorem enableAutoRenewal_sat (consumer token : Address) (planDuration : Nat)
    (maxAmountPerPeriod : Int) (periodsAuthorized : Nat) :
    Sat (Model.enableAutoRenewal consumer token planDuration maxAmountPerPeriod periodsAuthorized)
      w fun _ w' =>
        0 < maxAmountPerPeriod ∧ periodsAuthorized ≤ maxPeriodsAuthorized ∧
        w'.store.custody = w.store.custody ∧
        w'.store.subscriptions = { w.store.subscriptions with
          record := Function.update w.store.subscriptions.record consumer
            (some ⟨consumer,token,planDuration,maxAmountPerPeriod,periodsAuthorized,0,0,
              w.env.timestamp,true,false⟩) } := by
  simp only [Model.enableAutoRenewal,writeRenewalRecord,sat_bind,sat_requireAuth,sat_ensure,
    sat_getTimestamp,modifySubscriptions,sat_update]
  intro _ hvalid
  refine ⟨?_,?_,trivial,trivial⟩
  · omega
  · omega

theorem disableAutoRenewal_sat :
    Sat (Model.disableAutoRenewal consumer) w fun _ w' => w'.store.custody = w.store.custody ∧
      (w.store.subscriptions.record consumer = none ∧
          w'.store.subscriptions = w.store.subscriptions ∨
        ∃ record, w.store.subscriptions.record consumer = some record ∧
          w'.store.subscriptions = { w.store.subscriptions with
            record := Function.update w.store.subscriptions.record record.consumer
              (some { record with active := false }) }) := by
  simp only [Model.disableAutoRenewal,readRenewalRecord,sat_bind,sat_requireAuth,sat_readStore]
  cases hrecord : w.store.subscriptions.record consumer with
  | none => simp
  | some record => simp [writeRenewalRecord]

theorem authorizeRenewal_sat (periodId nonce : Nat) :
    Sat (Model.authorizeRenewal consumer periodId nonce) w fun _ w' =>
      w'.store.custody = w.store.custody ∧
      ∃ record, w.store.subscriptions.record consumer = some record ∧
        periodId = record.nextRenewalTimestamp ∧ record.authorizationNonce < nonce ∧
        w'.store.subscriptions = { w.store.subscriptions with
          record := Function.update w.store.subscriptions.record record.consumer
            (some { record with authorizationNonce := nonce })
          authorization := Function.update w.store.subscriptions.authorization (consumer,periodId)
            (some ⟨periodId,nonce,w.store.authorizedAmount record,false⟩)
          spent := Function.update w.store.subscriptions.spent (consumer,periodId) false } := by
  simp only [Model.authorizeRenewal,requireRenewalRecord,writeRenewalAuth,writeRenewalRecord,
    clearSpent,sat_bind,sat_requireAuth,sat_consult,sat_ensure,sat_readStore,
    modifySubscriptions,sat_update]
  intro _ record hread _ _ hperiod hnonce
  cases hrecord : w.store.subscriptions.record consumer with
  | none => simp [hrecord] at hread
  | some r =>
    simp only [hrecord,Except.ok.injEq] at hread
    rw [hread]
    exact ⟨trivial,record,rfl,hperiod,hnonce,rfl⟩

theorem transferFromToken_sat (token spender owner recipient : Address) (amount : Int) :
    Sat (transferFromToken token spender owner recipient amount) w fun _ w' =>
      ∃ b, w.env.host.transferFrom token spender owner recipient amount w.store.custody.balance =
          some b ∧
        w'.store.custody.balance = b ∧ w'.store.subscriptions = w.store.subscriptions := by
  simp only [transferFromToken,sat_bind,sat_consult,modifyCustody,sat_update]
  intro b hmoved
  cases hrun : w.env.host.transferFrom token spender owner recipient amount
      w.store.custody.balance with
  | none => simp [hrun] at hmoved
  | some b' =>
    simp only [hrun,Except.ok.injEq] at hmoved
    exact ⟨b',rfl,hmoved.symm,trivial⟩

/-- The rights to renew after a renewal by the authorization. -/
def renewedRights (s : Subscriptions) (consumer : Address) (record : AutoRenewRecord)
    (auth : RenewalAuthorization) (expiry : Nat) : Subscriptions :=
  let periodId := record.nextRenewalTimestamp
  { s with
    expiry := Function.update s.expiry consumer (some (satAdd64 expiry record.planDuration))
    record := Function.update s.record record.consumer (some (record.renewed auth))
    authorization := Function.update s.authorization (consumer, periodId)
      (some ⟨periodId, auth.nonce, auth.amount, true⟩)
    spent := Function.update s.spent (consumer, periodId) true }

theorem renew_sat (record : AutoRenewRecord) (auth : RenewalAuthorization) (expiry : Nat) :
    Sat (renew consumer record auth expiry) w fun _ w' =>
      w'.store.subscriptions = renewedRights w.store.subscriptions consumer record auth expiry ∧
      ∃ b, w.env.host.transferFrom record.token w.env.host.contractAddress consumer
          w.env.host.contractAddress auth.amount w.store.custody.balance = some b ∧
        w'.store.custody.balance = b := by
  simp only [renew,writeRenewalAuth,markSpent,writeRenewalRecord,sat_bind,sat_readStore,
    modifySubscriptions,sat_update,sat_enterReentrancyGuard,sat_exitReentrancyGuard]
  intro _
  refine (transferFromToken_sat _ _ _ _ _).mono ?_
  rintro _ u ⟨b,hmoved,hbalance,hrights⟩
  rw [sat_pure]
  exact ⟨hrights,b,hmoved,hbalance⟩

theorem tryAutoRenew_sat : Sat (Model.tryAutoRenew consumer) w fun _ w' =>
      (∃ refusal, checkRenewal w.env w.store consumer = .error refusal) ∧ w' = w ∨
      ∃ record auth expiry, checkRenewal w.env w.store consumer = .ok (record,auth,expiry) ∧
        w'.store.subscriptions = renewedRights w.store.subscriptions consumer record auth expiry ∧
        ∃ b, w.env.host.transferFrom record.token w.env.host.contractAddress consumer
            w.env.host.contractAddress auth.amount w.store.custody.balance = some b ∧
          w'.store.custody.balance = b := by
  simp only [Model.tryAutoRenew,sat_bind,sat_readStore]
  cases hchecked : checkRenewal w.env w.store consumer with
  | error refusal =>
    simp
  | ok renewal =>
    obtain ⟨record,auth,expiry⟩ := renewal
    refine (renew_sat consumer record auth expiry).mono fun _ w' hw => .inr ?_
    exact ⟨record,auth,expiry,rfl,hw⟩

def consumed (periodId : Nat) (auth : RenewalAuthorization) : RenewalAuthorization :=
  if auth.consumed = false then ⟨periodId, auth.nonce, auth.amount, true⟩ else auth

theorem consumed_nonce (periodId : Nat) (auth : RenewalAuthorization) :
    (consumed periodId auth).nonce = auth.nonce := by
  unfold consumed
  split_ifs <;> rfl

theorem consumeAuth_sat (periodId : Nat) :
    Sat (consumeAuth consumer periodId) w fun _ w' => w'.store.custody = w.store.custody ∧
      w'.store.subscriptions = { w.store.subscriptions with
        authorization := Function.update w.store.subscriptions.authorization (consumer,periodId)
          ((w.store.subscriptions.authorization (consumer,periodId)).map (consumed periodId)) } := by
  have hkept (auth : Option RenewalAuthorization)
      (h : w.store.subscriptions.authorization (consumer,periodId) = auth) :
      w.store.subscriptions = { w.store.subscriptions with
        authorization :=
          Function.update w.store.subscriptions.authorization (consumer,periodId) auth } := by
    rw [← h,Function.update_eq_self]
  simp only [consumeAuth,sat_bind,sat_readStore]
  cases hauth : w.store.subscriptions.authorization (consumer,periodId) with
  | none => exact (sat_pure _).2 ⟨rfl,hkept none hauth⟩
  | some auth =>
    dsimp only [Option.map_some]
    refine sat_ite _ (fun hlive => ?_) fun hdead => (sat_pure _).2 ⟨rfl,?_⟩
    · rw [consumed,if_pos hlive]
      simp only [writeRenewalAuth,modifySubscriptions,sat_update]
      exact ⟨trivial,trivial⟩
    · rw [consumed,if_neg hdead]
      exact hkept _ hauth

theorem consumeCurrentAuthorization_sat {consumer : Address} {record : AutoRenewRecord}
    (hrecord : w.store.subscriptions.record consumer = some record) :
    Sat (consumeCurrentAuthorization consumer) w fun _ w' => w'.store.custody = w.store.custody ∧
      w'.store.subscriptions = { w.store.subscriptions with
        authorization := Function.update w.store.subscriptions.authorization
          (consumer,record.nextRenewalTimestamp) ((w.store.subscriptions.authorization
            (consumer,record.nextRenewalTimestamp)).map (consumed record.nextRenewalTimestamp))
        spent := Function.update w.store.subscriptions.spent
          (consumer,record.nextRenewalTimestamp) true } := by
  simp only [consumeCurrentAuthorization,readRenewalRecord,sat_bind,sat_readStore]
  rw [hrecord]
  refine (consumeAuth_sat consumer record.nextRenewalTimestamp).andThen ?_
  rintro _ u ⟨hcustody,hrights⟩
  simp only [markSpent,modifySubscriptions,sat_update]
  rw [hrights]
  exact ⟨hcustody,rfl⟩

theorem revokeOnCancel_sat {consumer : Address} (hkeyed : Keyed w.store) :
    Sat (Model.revokeOnCancel consumer) w fun _ w' => w'.store.custody = w.store.custody ∧
      (w.store.subscriptions.record consumer = none ∧
          w'.store.subscriptions = w.store.subscriptions ∨
        ∃ record, w.store.subscriptions.record consumer = some record ∧
          w'.store.subscriptions = { w.store.subscriptions with
            record := Function.update w.store.subscriptions.record consumer
              (some { record with cancelled := true, active := false })
            authorization := Function.update w.store.subscriptions.authorization
              (consumer,record.nextRenewalTimestamp) ((w.store.subscriptions.authorization
                (consumer,record.nextRenewalTimestamp)).map (consumed record.nextRenewalTimestamp))
            spent := Function.update w.store.subscriptions.spent
              (consumer,record.nextRenewalTimestamp) true }) := by
  simp only [Model.revokeOnCancel,readRenewalRecord,sat_bind,sat_readStore]
  cases hrecord : w.store.subscriptions.record consumer with
  | none => simp
  | some record =>
    have hself := hkeyed consumer record hrecord
    have hafter : Function.update w.store.subscriptions.record record.consumer
        (some { record with cancelled := true, active := false }) consumer =
          some { record with cancelled := true, active := false } := by
      rw [hself,Function.update_self]
    refine (consumeCurrentAuthorization_sat hafter).mono ?_
    rintro _ w' ⟨hcustody,hrights⟩
    refine ⟨hcustody,.inr ⟨record,rfl,?_⟩⟩
    rw [hrights,hself]

theorem setSubscriptionPrice_sat (duration : Nat) (amount : Int) :
    Sat (Model.setSubscriptionPrice duration amount) w fun _ w' =>
      w'.store.custody = w.store.custody ∧ w'.store.subscriptions = { w.store.subscriptions with
        plan := Function.update w.store.subscriptions.plan duration (some amount) } := by
  refine (sat_asAdmin _).2 fun _ _ _ => ?_
  simp

end Calls

/-- The consumer's rights in `s'` are those in `s`. -/
structure SameRights (consumer : Address) (s s' : Subscriptions) : Prop where
  record : s'.record consumer = s.record consumer
  authorization : ∀ periodId, s'.authorization (consumer, periodId) =
    s.authorization (consumer, periodId)
  spent : ∀ periodId, s'.spent (consumer, periodId) = s.spent (consumer, periodId)

theorem SameRights.of_writes {consumer : Address} {s s' u : Subscriptions} (hs : s' = u)
    (hrecord : u.record consumer = s.record consumer)
    (hauth : ∀ periodId, u.authorization (consumer,periodId) = s.authorization (consumer,periodId))
    (hspent : ∀ periodId, u.spent (consumer,periodId) = s.spent (consumer,periodId)) :
    SameRights consumer s s' := by
  rw [hs]
  exact ⟨hrecord,hauth,hspent⟩

theorem SameRights.of_eq {consumer : Address} {s s' : Subscriptions} (h : s' = s) :
    SameRights consumer s s' :=
  .of_writes h rfl (fun _ => rfl) fun _ => rfl

theorem usable_congr {consumer : Address} {s s' : Subscriptions} {record : AutoRenewRecord}
    (hauth : s'.authorization (consumer,record.nextRenewalTimestamp) =
      s.authorization (consumer,record.nextRenewalTimestamp))
    (hspent : s'.spent (consumer,record.nextRenewalTimestamp) =
      s.spent (consumer,record.nextRenewalTimestamp)) :
    usable s' consumer record = usable s consumer record := by
  unfold usable
  rw [hauth,hspent]

theorem SameRights.usable {consumer : Address} {s s' : Subscriptions}
    (h : SameRights consumer s s') (record : AutoRenewRecord) :
    usable s' consumer record = usable s consumer record :=
  usable_congr (h.authorization _) (h.spent _)

/-- What a step does to the rights of one consumer. -/
inductive Effect (consumer : Address) (st st' : Store) (t : RenewalTx) : Prop
  | quiet (hrights : SameRights consumer st.subscriptions st'.subscriptions)
      (hno : ¬Enables consumer st t) (hnot : ¬Pulls consumer st t)
  | enabled (record : AutoRenewRecord) (hcall : Enables consumer st t)
      (hself : record.consumer = consumer) (hnonce : record.authorizationNonce = 0)
      (hrights : SameRights consumer { st.subscriptions with
        record := Function.update st.subscriptions.record consumer (some record) }
        st'.subscriptions)
  | disabled (record : AutoRenewRecord)
      (hrecord : st.subscriptions.record consumer = some record)
      (hrights : SameRights consumer { st.subscriptions with
        record := Function.update st.subscriptions.record consumer
          (some { record with active := false }) } st'.subscriptions)
      (hno : ¬Enables consumer st t) (hnot : ¬Pulls consumer st t)
  | authorized (record : AutoRenewRecord) (auth : RenewalAuthorization)
      (hrecord : st.subscriptions.record consumer = some record)
      (hcall : Issues consumer auth st t) (hperiod : auth.periodId = record.nextRenewalTimestamp)
      (hnonce : record.authorizationNonce < auth.nonce)
      (hamount : auth.amount ≤ record.maxAmountPerPeriod)
      (hrights : SameRights consumer { st.subscriptions with
        record := Function.update st.subscriptions.record consumer
          (some { record with authorizationNonce := auth.nonce })
        authorization := Function.update st.subscriptions.authorization
          (consumer, record.nextRenewalTimestamp) (some auth)
        spent := Function.update st.subscriptions.spent
          (consumer, record.nextRenewalTimestamp) false } st'.subscriptions)
      (hno : ¬Enables consumer st t) (hnot : ¬Pulls consumer st t)
  | pulled (record : AutoRenewRecord) (auth : RenewalAuthorization) (expiry : Nat)
      (hrecord : st.subscriptions.record consumer = some record)
      (hcall : PullsBy consumer record auth st t)
      (hrights : SameRights consumer (renewedRights st.subscriptions consumer record auth expiry)
        st'.subscriptions) (hno : ¬Enables consumer st t)
  | revoked (record : AutoRenewRecord)
      (hrecord : st.subscriptions.record consumer = some record)
      (hrights : SameRights consumer { st.subscriptions with
        record := Function.update st.subscriptions.record consumer
          (some { record with cancelled := true, active := false })
        authorization := Function.update st.subscriptions.authorization
          (consumer, record.nextRenewalTimestamp) ((st.subscriptions.authorization
            (consumer, record.nextRenewalTimestamp)).map (consumed record.nextRenewalTimestamp))
        spent := Function.update st.subscriptions.spent
          (consumer, record.nextRenewalTimestamp) true } st'.subscriptions)
      (hno : ¬Enables consumer st t) (hnot : ¬Pulls consumer st t)

section Checks

variable {env : Env} {st : Store} {consumer : Address} {record : AutoRenewRecord}
  {auth : RenewalAuthorization} {expiry : Nat}

theorem usable_iff {s : Subscriptions} : usable s consumer record = some auth ↔
    s.authorization (consumer,record.nextRenewalTimestamp) = some auth ∧
      auth.consumed = false ∧ auth.nonce = record.authorizationNonce ∧ 0 < auth.amount ∧
      record.periodsUsed < record.periodsAuthorized ∧
      s.spent (consumer,record.nextRenewalTimestamp) = false := by
  rw [usable,Option.filter_eq_some_iff,decide_eq_true_eq]

theorem checkRenewalAuth_ok {r : AutoRenewRecord} {a : RenewalAuthorization}
    (h : checkRenewalAuth env st consumer record auth = .ok (r,a,expiry)) :
    r = record ∧ a = auth ∧ auth.consumed = false ∧ auth.nonce = record.authorizationNonce ∧
      0 < auth.amount := by
  unfold checkRenewalAuth at h
  split_ifs at h with hused hamount hallowance
  rw [not_or,Bool.not_eq_true,not_not] at hused
  cases hexpiry : st.subscriptions.expiry consumer with
  | none =>
    rw [hexpiry] at h
    cases h
  | some e =>
    rw [hexpiry] at h
    dsimp only at h
    split_ifs at h with hlapsed
    cases h
    exact ⟨rfl,rfl,hused.1,hused.2,Int.not_le.1 hamount⟩

/-- A renewal that passes its checks is one of an active record by its usable authorization. -/
theorem checkRenewal_ok (h : checkRenewal env st consumer = .ok (record,auth,expiry)) :
    st.subscriptions.record consumer = some record ∧ record.active = true ∧
      usable st.subscriptions consumer record = some auth := by
  unfold checkRenewal at h
  cases hrecord : st.subscriptions.record consumer with
  | none =>
    rw [hrecord] at h
    cases h
  | some r =>
    rw [hrecord] at h
    dsimp only at h
    split_ifs at h with hcancelled hinactive hperiods hspent hearly
    cases hauth : st.subscriptions.authorization (consumer,r.nextRenewalTimestamp) with
    | none =>
      rw [hauth] at h
      cases h
    | some a =>
      rw [hauth] at h
      obtain ⟨rfl,rfl,hlive,hnonce,hamount⟩ := checkRenewalAuth_ok h
      rw [Bool.not_eq_true] at hspent
      exact ⟨rfl,by simpa using hinactive,usable_iff.2
        ⟨hauth,hlive,hnonce,hamount,Nat.not_le.1 hperiods,hspent⟩⟩

end Checks

section Effects

variable {env : Env} {st : Store} {consumer other : Address} {call : RenewalCall}

theorem not_enables (h : ∀ token planDuration maxAmountPerPeriod periodsAuthorized,
    call ≠ .enableAutoRenewal consumer token planDuration maxAmountPerPeriod periodsAuthorized) :
    ¬Enables consumer st ⟨env,.call call⟩ := by
  rintro ⟨token,planDuration,maxAmountPerPeriod,periodsAuthorized,hact,-⟩
  exact h _ _ _ _ (RenewalAct.call.inj hact)

theorem not_pulls (h : call ≠ .tryAutoRenew consumer) :
    ¬Pulls consumer st ⟨env,.call call⟩ := by
  rintro ⟨record,auth,⟨hact,-⟩,-⟩
  exact h (RenewalAct.call.inj hact)

theorem quiet_of_failure (hfail : failure call.body env st ≠ none)
    (hst : invoke call.body env st = st) :
    Effect consumer st (execRenewal st ⟨env,.call call⟩) ⟨env,.call call⟩ := by
  refine .quiet (.of_eq (congrArg Store.subscriptions hst)) ?_ ?_
  · rintro ⟨token,planDuration,maxAmountPerPeriod,periodsAuthorized,hact,hok⟩
    rw [RenewalAct.call.inj hact] at hfail
    exact hfail hok
  · rintro ⟨record,auth,⟨hact,hok⟩,-⟩
    rw [RenewalAct.call.inj hact] at hfail
    exact hfail hok

theorem effect_enable (token : Address) (planDuration : Nat) (maxAmountPerPeriod : Int)
    (periodsAuthorized : Nat)
    (hcall : call = .enableAutoRenewal other token planDuration maxAmountPerPeriod
      periodsAuthorized) :
    Effect consumer st (execRenewal st ⟨env,.call call⟩) ⟨env,.call call⟩ := by
  rw [hcall]
  rcases invoke_cases (enableAutoRenewal_sat (w := World.enter env st) other token planDuration
    maxAmountPerPeriod periodsAuthorized) with ⟨hfail,hst,-⟩ | ⟨hok,w,⟨-,-,-,hs⟩,hw,-⟩
  · exact quiet_of_failure hfail hst
  · rw [hw] at hs
    by_cases hsame : consumer = other
    · rw [hsame]
      exact .enabled _ ⟨token,planDuration,maxAmountPerPeriod,periodsAuthorized,rfl,hok⟩ rfl rfl
        (.of_eq hs)
    · refine .quiet (.of_writes hs (Function.update_of_ne hsame _ _) (fun _ => rfl) fun _ => rfl)
        (not_enables fun _ _ _ _ h => ?_) (not_pulls fun h => by cases h)
      cases h
      exact hsame rfl

theorem effect_disable (hkeyed : Keyed st) (hcall : call = .disableAutoRenewal other) :
    Effect consumer st (execRenewal st ⟨env,.call call⟩) ⟨env,.call call⟩ := by
  have hno : ¬Enables consumer st ⟨env,.call call⟩ :=
    not_enables fun _ _ _ _ h => by rw [hcall] at h; cases h
  have hnot : ¬Pulls consumer st ⟨env,.call call⟩ :=
    not_pulls fun h => by rw [hcall] at h; cases h
  subst hcall
  rcases invoke_cases (disableAutoRenewal_sat (w := World.enter env st) other) with
    ⟨hfail,hst,-⟩ | ⟨-,w,⟨-,⟨-,hs⟩ | ⟨record,hrecord,hs⟩⟩,hw,-⟩
  · exact quiet_of_failure hfail hst
  · rw [hw] at hs
    exact .quiet (.of_eq hs) hno hnot
  · rw [hw] at hs
    obtain rfl := hkeyed other record hrecord
    by_cases hsame : consumer = record.consumer
    · subst hsame
      exact .disabled record hrecord (.of_eq hs) hno hnot
    · exact .quiet (.of_writes hs (Function.update_of_ne hsame _ _) (fun _ => rfl) fun _ => rfl)
        hno hnot

theorem effect_authorize (hkeyed : Keyed st) (periodId nonce : Nat)
    (hcall : call = .authorizeRenewal other periodId nonce) :
    Effect consumer st (execRenewal st ⟨env,.call call⟩) ⟨env,.call call⟩ := by
  have hno : ¬Enables consumer st ⟨env,.call call⟩ :=
    not_enables fun _ _ _ _ h => by rw [hcall] at h; cases h
  have hnot : ¬Pulls consumer st ⟨env,.call call⟩ :=
    not_pulls fun h => by rw [hcall] at h; cases h
  subst hcall
  rcases invoke_cases (authorizeRenewal_sat (w := World.enter env st) other periodId nonce) with
    ⟨hfail,hst,-⟩ | ⟨hok,w,⟨-,record,hrecord,rfl,hnonce,hs⟩,hw,-⟩
  · exact quiet_of_failure hfail hst
  · rw [hw] at hs
    obtain rfl := hkeyed other record hrecord
    by_cases hsame : consumer = record.consumer
    · subst hsame
      have hstored : (execRenewal st ⟨env,.call (.authorizeRenewal record.consumer
          record.nextRenewalTimestamp nonce)⟩).subscriptions.authorization
            (record.consumer,record.nextRenewalTimestamp) =
          some ⟨record.nextRenewalTimestamp,nonce,st.authorizedAmount record,false⟩ :=
        (congrArg (fun s : Subscriptions => s.authorization _) hs).trans
          (Function.update_self _ _ _)
      exact .authorized record ⟨record.nextRenewalTimestamp,nonce,st.authorizedAmount record,false⟩
        hrecord ⟨⟨rfl,hok⟩,hstored⟩ rfl hnonce (Int.min_le_right _ _) (.of_eq hs) hno hnot
    · have hkey (p q : Nat) : (consumer,p) ≠ (record.consumer,q) :=
        fun h => hsame (congrArg Prod.fst h)
      exact .quiet (.of_writes hs (Function.update_of_ne hsame _ _)
        (fun p => Function.update_of_ne (hkey p _) _ _)
        fun p => Function.update_of_ne (hkey p _) _ _) hno hnot

theorem effect_try (hkeyed : Keyed st) (hcall : call = .tryAutoRenew other) :
    Effect consumer st (execRenewal st ⟨env,.call call⟩) ⟨env,.call call⟩ := by
  have hno : ¬Enables consumer st ⟨env,.call call⟩ :=
    not_enables fun _ _ _ _ h => by rw [hcall] at h; cases h
  subst hcall
  have hsat : Sat (RenewalCall.tryAutoRenew other).body (World.enter env st) fun _ w' =>
      (∃ refusal, checkRenewal env st other = .error refusal) ∧ w'.store = st ∨
      ∃ record auth expiry, checkRenewal env st other = .ok (record,auth,expiry) ∧
        w'.store.subscriptions = renewedRights st.subscriptions other record auth expiry := by
    simp only [RenewalCall.body,sat_bind,sat_pure]
    refine (tryAutoRenew_sat other).mono fun _ w' hw => ?_
    rcases hw with ⟨hrefused,rfl⟩ | ⟨record,auth,expiry,hchecked,hs,-⟩
    · exact .inl ⟨hrefused,rfl⟩
    · exact .inr ⟨record,auth,expiry,hchecked,hs⟩
  rcases invoke_cases hsat with ⟨hfail,hst,-⟩ |
    ⟨hok,w,⟨⟨refusal,hrefused⟩,hst⟩ | ⟨record,auth,expiry,hchecked,hs⟩,hw,-⟩
  · exact quiet_of_failure hfail hst
  · rw [hw] at hst
    refine .quiet (.of_eq (congrArg Store.subscriptions hst)) hno ?_
    rintro ⟨record,auth,⟨hact,-⟩,expiry,hchecked⟩
    cases hact
    rw [show checkRenewal env st consumer = .ok _ from hchecked] at hrefused
    cases hrefused
  · rw [hw] at hs
    obtain ⟨hrecord,-,-⟩ := checkRenewal_ok hchecked
    obtain rfl := hkeyed other record hrecord
    by_cases hsame : consumer = record.consumer
    · subst hsame
      exact .pulled record auth expiry hrecord ⟨⟨rfl,hok⟩,expiry,hchecked⟩ (.of_eq hs) hno
    · have hkey (p q : Nat) : (consumer,p) ≠ (record.consumer,q) :=
        fun h => hsame (congrArg Prod.fst h)
      refine .quiet (.of_writes hs (Function.update_of_ne hsame _ _)
        (fun p => Function.update_of_ne (hkey p _) _ _)
        fun p => Function.update_of_ne (hkey p _) _ _) hno (not_pulls fun h => ?_)
      cases h
      exact hsame rfl

theorem effect_revoke (hkeyed : Keyed st) (hcall : call = .revokeOnCancel other) :
    Effect consumer st (execRenewal st ⟨env,.call call⟩) ⟨env,.call call⟩ := by
  have hno : ¬Enables consumer st ⟨env,.call call⟩ :=
    not_enables fun _ _ _ _ h => by rw [hcall] at h; cases h
  have hnot : ¬Pulls consumer st ⟨env,.call call⟩ :=
    not_pulls fun h => by rw [hcall] at h; cases h
  subst hcall
  rcases invoke_cases (revokeOnCancel_sat (w := World.enter env st) hkeyed) with
    ⟨hfail,hst,-⟩ | ⟨-,w,⟨-,⟨-,hs⟩ | ⟨record,hrecord,hs⟩⟩,hw,-⟩
  · exact quiet_of_failure hfail hst
  · rw [hw] at hs
    exact .quiet (.of_eq hs) hno hnot
  · rw [hw] at hs
    by_cases hsame : consumer = other
    · subst hsame
      exact .revoked record hrecord (.of_eq hs) hno hnot
    · have hkey (p q : Nat) : (consumer,p) ≠ (other,q) :=
        fun h => hsame (congrArg Prod.fst h)
      exact .quiet (.of_writes hs (Function.update_of_ne hsame _ _)
        (fun p => Function.update_of_ne (hkey p _) _ _)
        fun p => Function.update_of_ne (hkey p _) _ _) hno hnot

theorem execRenewal_effect (consumer : Address) (hkeyed : Keyed st) (t : RenewalTx) :
    Effect consumer st (execRenewal st t) t := by
  obtain ⟨env,act⟩ := t
  cases act with
  | elsewhere rest =>
    refine .quiet ⟨rfl,fun _ => rfl,fun _ => rfl⟩ ?_ ?_
    · rintro ⟨_,_,_,_,hact,-⟩
      cases hact
    · rintro ⟨_,_,⟨hact,-⟩,-⟩
      cases hact
  | call call =>
    cases hcall : call with
    | enableAutoRenewal other token planDuration maxAmountPerPeriod periodsAuthorized =>
      exact effect_enable token planDuration maxAmountPerPeriod periodsAuthorized rfl
    | disableAutoRenewal other => exact effect_disable hkeyed rfl
    | authorizeRenewal other periodId nonce => exact effect_authorize hkeyed periodId nonce rfl
    | tryAutoRenew other => exact effect_try hkeyed rfl
    | revokeOnCancel other => exact effect_revoke hkeyed rfl
    | setSubscriptionPrice duration amount =>
      have hrights : SameRights consumer st.subscriptions
          (invoke (Model.setSubscriptionPrice duration amount) env st).subscriptions := by
        refine invoke_of_sat (P := fun s => SameRights consumer st.subscriptions s.subscriptions)
          (.of_eq rfl) ((setSubscriptionPrice_sat duration amount).mono fun _ w hw => ?_)
        exact .of_writes hw.2 rfl (fun _ => rfl) fun _ => rfl
      exact .quiet hrights (not_enables fun _ _ _ _ h => by cases h)
        (not_pulls fun h => by cases h)

theorem keyed_step (hkeyed : Keyed st) (t : RenewalTx) : Keyed (execRenewal st t) := by
  intro consumer r hr
  have hupdated (s : Subscriptions) (record : AutoRenewRecord)
      (hrecord : (execRenewal st t).subscriptions.record consumer =
        ({ s with record := Function.update s.record consumer (some record) } :
          Subscriptions).record consumer) (hself : record.consumer = consumer) :
      r.consumer = consumer := by
    rw [hr] at hrecord
    dsimp only at hrecord
    rw [Function.update_self,Option.some.injEq] at hrecord
    rw [hrecord,hself]
  cases execRenewal_effect consumer hkeyed t with
  | quiet hrights _ _ => exact hkeyed consumer r (hrights.record ▸ hr)
  | enabled record _ hself _ hrights => exact hupdated st.subscriptions record hrights.record hself
  | disabled record hrecord hrights _ _ =>
    exact hupdated st.subscriptions _ hrights.record (hkeyed consumer record hrecord)
  | authorized record _ hrecord _ _ _ _ hrights _ _ =>
    exact hupdated st.subscriptions _ hrights.record (hkeyed consumer record hrecord)
  | pulled record auth _ hrecord _ hrights _ =>
    have hself := hkeyed consumer record hrecord
    refine hupdated st.subscriptions (record.renewed auth) (hrights.record.trans ?_) hself
    rw [renewedRights,hself]
  | revoked record hrecord hrights _ _ =>
    exact hupdated st.subscriptions _ hrights.record (hkeyed consumer record hrecord)

theorem custody_of_call (hkeyed : Keyed st) (hcall : ∀ other, call ≠ .tryAutoRenew other) :
    (invoke call.body env st).custody = st.custody := by
  refine invoke_of_sat (P := fun s => s.custody = st.custody) rfl ?_
  cases call with
  | enableAutoRenewal other token planDuration maxAmountPerPeriod periodsAuthorized =>
    exact (enableAutoRenewal_sat other token planDuration maxAmountPerPeriod
      periodsAuthorized).mono fun _ _ hw => hw.2.2.1
  | disableAutoRenewal other => exact (disableAutoRenewal_sat other).mono fun _ _ hw => hw.1
  | authorizeRenewal other periodId nonce =>
    exact (authorizeRenewal_sat other periodId nonce).mono fun _ _ hw => hw.1
  | tryAutoRenew other => exact (hcall other rfl).elim
  | revokeOnCancel other => exact (revokeOnCancel_sat hkeyed).mono fun _ _ hw => hw.1
  | setSubscriptionPrice duration amount =>
    exact (setSubscriptionPrice_sat duration amount).mono fun _ _ hw => hw.1

theorem move_takes (b : Balances) (token owner recipient holder coin : Address) {amount : Int}
    (hamount : 0 ≤ amount) :
    b coin holder - b.move token owner recipient amount coin holder ≤
      if holder = owner then amount else 0 := by
  unfold Balances.move
  by_cases hcoin : coin = token
  · rw [hcoin,Function.update_self]
    by_cases hrecipient : holder = recipient
    · rw [hrecipient,Function.update_self]
      by_cases howner : recipient = owner
      · rw [howner,Function.update_self,if_pos rfl]
        omega
      · rw [Function.update_of_ne howner,if_neg howner]
        omega
    · rw [Function.update_of_ne hrecipient]
      by_cases howner : holder = owner
      · rw [howner,Function.update_self,if_pos rfl]
        omega
      · rw [Function.update_of_ne howner,if_neg howner]
        omega
  · rw [Function.update_of_ne hcoin]
    split_ifs
    · omega
    · omega

/-- What leaves a consumer is at most what a renewal for the consumer is authorized to take. -/
theorem pulled_le (hkeyed : Keyed st) {t : RenewalTx} (hhonest : Honest t.env.host)
    (token consumer : Address) :
    pulled token consumer st t ≤ 0 ∨
      ∃ record auth, PullsBy consumer record auth st t ∧
        pulled token consumer st t ≤ auth.amount := by
  obtain ⟨env,act⟩ := t
  cases act with
  | elsewhere rest => exact .inl (Int.le_refl 0)
  | call call =>
    have hkept (h : (invoke call.body env st).custody.balance = st.custody.balance) :
        pulled token consumer st ⟨env,.call call⟩ ≤ 0 := by
      change st.custody.balance token consumer -
        (invoke call.body env st).custody.balance token consumer ≤ 0
      rw [h]
      omega
    by_cases htry : ∃ other, call = .tryAutoRenew other
    · obtain ⟨other,rfl⟩ := htry
      have hsat : Sat (RenewalCall.tryAutoRenew other).body (World.enter env st) fun _ w' =>
          w'.store.custody.balance = st.custody.balance ∨
          ∃ record auth expiry, checkRenewal env st other = .ok (record,auth,expiry) ∧
            w'.store.custody.balance = st.custody.balance.move record.token other
              env.host.contractAddress auth.amount := by
        simp only [RenewalCall.body,sat_bind,sat_pure]
        refine (tryAutoRenew_sat other).mono fun _ w' hw => ?_
        rcases hw with ⟨-,rfl⟩ | ⟨record,auth,expiry,hchecked,-,b,hmoved,hb⟩
        · exact .inl rfl
        · exact .inr ⟨record,auth,expiry,hchecked,hb.trans (hhonest _ _ _ _ _ _ _ hmoved)⟩
      rcases invoke_cases hsat with ⟨-,hst,-⟩ |
        ⟨hok,w,hbalance | ⟨record,auth,expiry,hchecked,hbalance⟩,hw,-⟩
      · exact .inl (hkept (congrArg (·.custody.balance) hst))
      · rw [hw] at hbalance
        exact .inl (hkept hbalance)
      · rw [hw] at hbalance
        obtain ⟨-,-,husable⟩ := checkRenewal_ok hchecked
        have hamount := (usable_iff.1 husable).2.2.2.1
        have htakes := move_takes st.custody.balance record.token other env.host.contractAddress
          consumer token (Int.le_of_lt hamount)
        have hpulled : pulled token consumer st ⟨env,.call (.tryAutoRenew other)⟩ =
            st.custody.balance token consumer - st.custody.balance.move record.token other
              env.host.contractAddress auth.amount token consumer := by
          rw [← hbalance]
          rfl
        rw [← hpulled] at htakes
        by_cases hsame : consumer = other
        · subst hsame
          rw [if_pos rfl] at htakes
          exact .inr ⟨record,auth,⟨⟨rfl,hok⟩,expiry,hchecked⟩,htakes⟩
        · rw [if_neg hsame] at htakes
          exact .inl htakes
    · exact .inl (hkept (congrArg Custody.balance
        (custody_of_call hkeyed fun other h => htry ⟨other,h⟩)))

end Effects

end PriceOracle.AutoRenewal
