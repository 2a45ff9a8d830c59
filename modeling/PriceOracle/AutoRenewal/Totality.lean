import PriceOracle.AutoRenewal.Rights

/-! # The answers of a renewal

Every check of a renewal returns a failed attempt, and none of them looks at the balance of the
consumer: an allowance that the balance does not cover lets the call through to a transfer that
fails, and the failure is a panic. -/

namespace PriceOracle.AutoRenewal

open Lib.Transaction Lib.Run Model

/-- A transfer out of an allowance fails exactly if the allowance or the balance is too small. -/
def PullsHonestly (host : Host) : Prop :=
  ∀ token spender owner recipient amount b, 0 < amount →
    (host.transferFrom token spender owner recipient amount b = none ↔
      host.allowance token owner spender < amount ∨ b token owner < amount)

/-- The record, its authorization and the subscription that every check of a renewal lets
through. -/
structure Renewable (env : Env) (st : Store) (consumer : Address) (record : AutoRenewRecord)
    (auth : RenewalAuthorization) (expiry : Nat) : Prop where
  granted : st.subscriptions.record consumer = some record
  kept : record.cancelled = false
  active : record.active = true
  due : record.nextRenewalTimestamp ≤ env.timestamp
  usable : AutoRenewal.usable st.subscriptions consumer record = some auth
  allowed : auth.amount ≤ env.host.allowance record.token consumer env.host.contractAddress
  subscribed : st.subscriptions.expiry consumer = some expiry
  running : env.timestamp ≤ expiry

/-- The call renews by what is stored, or it returns a failed attempt and leaves the storage as it
was. -/
def Answers (env : Env) (st : Store) (consumer : Address) : Prop :=
  ∃ attempt w, Model.tryAutoRenew consumer (World.enter env st) = .ok attempt w ∧
    ((∃ record auth expiry, Renewable env st consumer record auth expiry ∧
        attempt.renewed = true ∧ attempt.amount = auth.amount ∧
        w.store.subscriptions = renewedRights st.subscriptions consumer record auth expiry) ∨
      attempt.renewed = false ∧ w.store = st)

/-- A call that the other functions of the contract make leaves the guard that it enters. -/
def RenewalTx.Exits (t : RenewalTx) : Prop :=
  ∀ rest, t.act = .elsewhere rest → rest.entered = false

section Checks

variable {env : Env} {st : Store} {consumer : Address} {record : AutoRenewRecord}
  {auth : RenewalAuthorization} {expiry : Nat}

theorem checkRenewalAuth_ok_iff {r : AutoRenewRecord} {a : RenewalAuthorization} :
    checkRenewalAuth env st consumer record auth = .ok (r,a,expiry) ↔
      (record = r ∧ auth = a) ∧ auth.consumed = false ∧ auth.nonce = record.authorizationNonce ∧
        0 < auth.amount ∧
        auth.amount ≤ env.host.allowance record.token consumer env.host.contractAddress ∧
        st.subscriptions.expiry consumer = some expiry ∧ env.timestamp ≤ expiry := by
  unfold checkRenewalAuth
  split_ifs with hdead hamount hallowed
  · rw [false_iff]
    rintro ⟨-,hlive,hnonce,-⟩
    rcases hdead with hconsumed | hother
    · rw [hlive] at hconsumed
      cases hconsumed
    · exact hother hnonce
  · rw [false_iff]
    rintro ⟨-,-,-,hpositive,-⟩
    omega
  · rw [false_iff]
    rintro ⟨-,-,-,-,henough,-⟩
    omega
  · rw [not_or,Bool.not_eq_true,not_not] at hdead
    cases hexpiry : st.subscriptions.expiry consumer with
    | none => simp
    | some limit =>
      dsimp only
      split_ifs with hlapsed
      · rw [false_iff]
        rintro ⟨-,-,-,-,-,hlimit,hrunning⟩
        cases hlimit
        omega
      · simp only [Except.ok.injEq,Prod.mk.injEq,Option.some.injEq]
        constructor
        · rintro ⟨hrecord,hauth,hlimit⟩
          refine ⟨⟨hrecord,hauth⟩,hdead.1,hdead.2,by omega,by omega,hlimit,by omega⟩
        · rintro ⟨⟨hrecord,hauth⟩,-,-,-,-,hlimit,-⟩
          exact ⟨hrecord,hauth,hlimit⟩

theorem checkRenewal_ok_iff :
    checkRenewal env st consumer = .ok (record,auth,expiry) ↔
      Renewable env st consumer record auth expiry := by
  constructor
  · intro hchecked
    obtain ⟨hrecord,hactive,husable⟩ := checkRenewal_ok hchecked
    unfold checkRenewal at hchecked
    rw [hrecord] at hchecked
    dsimp only at hchecked
    split_ifs at hchecked with hcancelled hinactive hperiods hspent hearly
    rw [(usable_iff.1 husable).1] at hchecked
    obtain ⟨-,-,-,-,hallowed,hexpiry,hrunning⟩ := checkRenewalAuth_ok_iff.1 hchecked
    exact ⟨hrecord,by simpa using hcancelled,hactive,by omega,husable,hallowed,hexpiry,hrunning⟩
  · intro h
    obtain ⟨hstored,hlive,hnonce,hamount,hperiods,hspent⟩ := usable_iff.1 h.usable
    unfold checkRenewal
    rw [h.granted]
    dsimp only
    rw [if_neg (by simp [h.kept]),if_neg (by simp [h.active]),if_neg (by omega),
      if_neg (by simp [hspent]),if_neg (Nat.not_lt.2 h.due),hstored]
    exact checkRenewalAuth_ok_iff.2
      ⟨⟨rfl,rfl⟩,hlive,hnonce,hamount,h.allowed,h.subscribed,h.running⟩

end Checks

section Attempts

variable {w : World} {consumer : Address} {record : AutoRenewRecord} {auth : RenewalAuthorization}
  {expiry : Nat}

theorem transferFromToken_fails (token spender owner recipient : Address) (amount : Int) :
    Fails (transferFromToken token spender owner recipient amount) w fun _ _ =>
      w.env.host.transferFrom token spender owner recipient amount w.store.custody.balance =
        none := by
  simp only [transferFromToken,fails_bind,fails_consult,sat_consult,modifyCustody,
    fails_update,implies_true,and_true]
  intro e he
  cases hrun : w.env.host.transferFrom token spender owner recipient amount
      w.store.custody.balance with
  | none => rfl
  | some b => simp [hrun] at he

theorem renew_fails (hclear : w.store.entered = false) :
    Fails (renew consumer record auth expiry) w fun _ _ =>
      w.env.host.transferFrom record.token w.env.host.contractAddress consumer
        w.env.host.contractAddress auth.amount w.store.custody.balance = none := by
  simp only [renew,writeRenewalAuth,markSpent,writeRenewalRecord,fails_bind,fails_readStore,
    sat_readStore,modifySubscriptions,fails_update,sat_update,fails_enterReentrancyGuard,
    sat_enterReentrancyGuard,fails_exitReentrancyGuard,sat_exitReentrancyGuard,fails_pure,
    true_and,and_true,hclear]
  refine ⟨fun h => (Bool.false_ne_true h).elim,fun _ => ⟨transferFromToken_fails _ _ _ _ _,?_⟩⟩
  exact (transferFromToken_sat _ _ _ _ _).mono fun _ _ _ => trivial

theorem renew_attempt :
    Sat (renew consumer record auth expiry) w fun attempt w' =>
      attempt.renewed = true ∧ attempt.amount = auth.amount ∧ w'.store.entered = false := by
  simp only [renew,writeRenewalAuth,markSpent,writeRenewalRecord,sat_bind,sat_readStore,
    modifySubscriptions,sat_update,sat_enterReentrancyGuard,sat_exitReentrancyGuard,sat_pure]
  intro _
  exact (transferFromToken_sat _ _ _ _ _).mono fun _ _ _ => ⟨trivial,trivial,trivial⟩

theorem tryAutoRenew_fails (hclear : w.store.entered = false) :
    Fails (Model.tryAutoRenew consumer) w fun _ _ => ∃ record auth expiry,
      Renewable w.env w.store consumer record auth expiry ∧
      w.env.host.transferFrom record.token w.env.host.contractAddress consumer
        w.env.host.contractAddress auth.amount w.store.custody.balance = none := by
  simp only [Model.tryAutoRenew,fails_bind,fails_readStore,sat_readStore,true_and]
  cases hchecked : checkRenewal w.env w.store consumer with
  | error refusal => exact fails_pure _
  | ok renewal =>
    obtain ⟨record,auth,expiry⟩ := renewal
    exact (renew_fails hclear).mono fun _ _ hrefused =>
      ⟨record,auth,expiry,checkRenewal_ok_iff.1 hchecked,hrefused⟩

theorem tryAutoRenew_answers :
    Sat (Model.tryAutoRenew consumer) w fun attempt w' =>
      (∃ record auth expiry, Renewable w.env w.store consumer record auth expiry ∧
        attempt.renewed = true ∧ attempt.amount = auth.amount ∧
        w'.store.subscriptions =
          renewedRights w.store.subscriptions consumer record auth expiry ∧
        w'.store.entered = false) ∨
      attempt.renewed = false ∧ w' = w := by
  simp only [Model.tryAutoRenew,sat_bind,sat_readStore]
  cases hchecked : checkRenewal w.env w.store consumer with
  | error refusal => exact (sat_pure _).2 (.inr ⟨rfl,rfl⟩)
  | ok renewal =>
    obtain ⟨record,auth,expiry⟩ := renewal
    refine (renew_attempt.and (renew_sat consumer record auth expiry)).mono ?_
    rintro attempt w' ⟨⟨hrenewed,hamount,hclear⟩,hrights,-⟩
    exact .inl ⟨record,auth,expiry,checkRenewal_ok_iff.1 hchecked,hrenewed,hamount,hrights,hclear⟩

theorem tryAutoRenew_pulls (h : Renewable w.env w.store consumer record auth expiry) :
    Sat (Model.tryAutoRenew consumer) w fun _ _ =>
      w.env.host.transferFrom record.token w.env.host.contractAddress consumer
        w.env.host.contractAddress auth.amount w.store.custody.balance ≠ none := by
  have hchecked := checkRenewal_ok_iff.2 h
  refine (tryAutoRenew_sat consumer).mono fun _ w' hw => ?_
  rcases hw with ⟨⟨refusal,hrefused⟩,-⟩ | ⟨r,a,e,hok,-,b,hmoved,-⟩
  · rw [hchecked] at hrefused
    cases hrefused
  · rw [hchecked] at hok
    cases hok
    rw [hmoved]
    exact Option.some_ne_none b

end Attempts

theorem signed_frame (signer : Address) : Frame [.auths,.subscriptions] (requireAuth signer) :=
  (requireAuth_frame signer).mono (by simp)

theorem written_frame (f : Subscriptions → Subscriptions) :
    Frame [.auths,.subscriptions] (modifySubscriptions f) :=
  (modifySubscriptions_frame f).mono (by simp)

theorem consumeCurrentAuthorization_frame (consumer : Address) :
    Frame [.auths,.subscriptions] (consumeCurrentAuthorization consumer) := by
  apply Preserves.read
  intro stored
  cases stored with
  | none => exact preserves_pure ()
  | some record =>
    have hconsume : Frame [.auths,.subscriptions]
        (consumeAuth consumer record.nextRenewalTimestamp) := by
      apply Preserves.read
      intro auth
      cases auth with
      | none => exact preserves_pure ()
      | some auth => exact preserves_ite _ (written_frame _) (preserves_pure ())
    exact hconsume.bind fun _ => written_frame _

/-- Apart from a renewal, a call changes the subscriptions only. -/
theorem call_frame {call : RenewalCall} (h : ∀ consumer, call ≠ .tryAutoRenew consumer) :
    Frame [.auths,.subscriptions] call.body := by
  cases call with
  | enableAutoRenewal consumer token planDuration maxAmountPerPeriod periodsAuthorized =>
    exact (signed_frame consumer).bind fun _ => .check fun _ => .read fun _ => written_frame _
  | disableAutoRenewal consumer =>
    apply (signed_frame consumer).bind
    intro _
    apply Preserves.read
    intro stored
    cases stored with
    | none => exact preserves_pure ()
    | some record => exact written_frame _
  | authorizeRenewal consumer periodId nonce =>
    exact (signed_frame consumer).bind fun _ => .lookup fun _ => .check fun _ => .check fun _ =>
      .check fun _ => .check fun _ =>
      .read fun _ => (written_frame _).bind fun _ =>
      (written_frame _).bind fun _ => written_frame _
  | tryAutoRenew consumer => exact (h consumer rfl).elim
  | revokeOnCancel consumer =>
    apply Preserves.read
    intro stored
    cases stored with
    | none => exact preserves_pure ()
    | some record =>
      exact (written_frame _).bind fun _ => consumeCurrentAuthorization_frame consumer
  | setSubscriptionPrice duration amount =>
    exact getAdmin_frame.bind fun admin => (signed_frame admin).bind fun _ => written_frame _

section Runs

variable {st : Store} {ts : List RenewalTx} {env : Env}

theorem entered_call (hclear : st.entered = false) (call : RenewalCall) :
    (invoke call.body env st).entered = false := by
  by_cases htry : ∃ consumer, call = .tryAutoRenew consumer
  · obtain ⟨consumer,rfl⟩ := htry
    refine invoke_of_sat (P := fun s => s.entered = false) hclear ?_
    simp only [RenewalCall.body,sat_bind,sat_pure]
    refine tryAutoRenew_answers.mono fun _ w hw => ?_
    rcases hw with ⟨_,_,_,-,-,-,-,hafter⟩ | ⟨-,rfl⟩
    · exact hafter
    · exact hclear
  · have hframe := call_frame fun consumer h => htry ⟨consumer,h⟩
    exact (invoke_view hframe (r := .entered) (by decide)).trans hclear

theorem entered_run (hclear : st.entered = false) (hexits : ∀ t ∈ ts, t.Exits) :
    (run execRenewal st ts).entered = false := by
  induction ts using List.reverseRecOn with
  | nil => exact hclear
  | append_singleton ts t ih =>
    rw [List.forall_mem_append,List.forall_mem_singleton] at hexits
    rw [run_concat]
    obtain ⟨env,act⟩ := t
    cases act with
    | call call => exact entered_call (ih hexits.1) call
    | elsewhere rest => exact hexits.2 rest rfl

end Runs

/-- In every state that a run reaches, a renewal answers every consumer exactly if the balance of
the consumer covers the authorization that the checks let through. -/
theorem answers_iff_covered (st : Store) (hclear : st.entered = false) (ts : List RenewalTx)
    (hexits : ∀ t ∈ ts, t.Exits) (env : Env) (hhonest : PullsHonestly env.host)
    (consumer : Address) :
    Answers env (run execRenewal st ts) consumer ↔
      ∀ record auth expiry,
        Renewable env (run execRenewal st ts) consumer record auth expiry →
          auth.amount ≤ (run execRenewal st ts).custody.balance record.token consumer := by
  have hguard := entered_run hclear hexits
  generalize run execRenewal st ts = s at hguard
  have hpositive {record : AutoRenewRecord} {auth : RenewalAuthorization} {expiry : Nat}
      (h : Renewable env s consumer record auth expiry) : 0 < auth.amount :=
    (usable_iff.1 h.usable).2.2.2.1
  constructor
  · rintro ⟨attempt,w,hrun,-⟩ record auth expiry hrenewable
    have hpulled := (tryAutoRenew_pulls (w := World.enter env s) hrenewable) attempt w hrun
    have hneither := (hhonest _ _ _ _ _ _ (hpositive hrenewable)).not.1 hpulled
    rw [not_or,not_lt,not_lt] at hneither
    exact hneither.2
  · intro hcovered
    have hsucceeds : failure (Model.tryAutoRenew consumer) env s = none := by
      refine succeeds_of_no_failure ((tryAutoRenew_fails (w := World.enter env s) hguard).mono ?_)
      rintro _ _ ⟨record,auth,expiry,hrenewable,hrefused⟩
      rcases (hhonest _ _ _ _ _ _ (hpositive hrenewable)).1 hrefused with hless | hless
      · exact (Int.not_lt.2 hrenewable.allowed hless).elim
      · exact (Int.not_lt.2 (hcovered record auth expiry hrenewable) hless).elim
    obtain ⟨attempt,w,hrun⟩ := failure_eq_none_iff.1 hsucceeds
    refine ⟨attempt,w,hrun,?_⟩
    rcases tryAutoRenew_answers attempt w hrun with
      ⟨record,auth,expiry,hrenewable,hrenewed,hamount,hrights,-⟩ | ⟨hfailed,rfl⟩
    · exact .inl ⟨record,auth,expiry,hrenewable,hrenewed,hamount,hrights⟩
    · exact .inr ⟨hfailed,rfl⟩

/-- A host whose tokens move what an allowance of a thousand and the balance cover. -/
def pullHost : Host :=
  { checksumHost with
    allowance := fun _ _ _ => 1000
    transferFrom := fun token _ owner recipient amount b =>
      if 1000 < amount ∨ b token owner < amount then none
      else some (b.move token owner recipient amount) }

theorem pullHost_honest : PullsHonestly pullHost := by
  intro token spender owner recipient amount b _
  simp only [pullHost,ite_eq_left_iff,reduceCtorEq,imp_false,not_not]

def signedAt (signer : Address) (call : RenewalCall) : RenewalTx :=
  ⟨⟨pullHost, 10, 100, fun a => a = signer⟩, .call call⟩

/-- A consumer that holds `held` subscribes, grants three periods and authorizes the first. -/
def grantRun (held : Int) : List RenewalTx :=
  [⟨.concrete 9 90 [], .elsewhere { ({} : Store) with
      custody := { ({} : Store).custody with balance := fun _ _ => held }
      subscriptions := { ({} : Store).subscriptions with
        plan := fun _ => some 40, expiry := fun _ => some 500 } }⟩,
    signedAt 5 (.enableAutoRenewal 5 7 60 50 3), signedAt 5 (.authorizeRenewal 5 100 1)]

theorem grantRun_exits {held : Int} : ∀ t ∈ grantRun held, t.Exits := by
  intro t ht rest hact
  simp only [grantRun,signedAt,List.mem_cons,List.not_mem_nil,or_false] at ht
  rcases ht with rfl | rfl | rfl
  · cases hact
    rfl
  · cases hact
  · cases hact

theorem covered_answers :
    Answers (.mk pullHost 11 110 fun _ => false) (run execRenewal {} (grantRun 100)) 5 :=
  (answers_iff_covered {} rfl (grantRun 100) grantRun_exits (.mk pullHost 11 110 fun _ => false)
    pullHost_honest 5).2 (by
      intro record auth expiry hrenewable
      have hchecked : ∀ x ∈ (checkRenewal (.mk pullHost 11 110 fun _ => false)
          (run execRenewal {} (grantRun 100)) 5).toOption, x.2.1.amount ≤
          (run execRenewal {} (grantRun 100)).custody.balance x.1.token 5 := by decide +kernel
      rw [checkRenewal_ok_iff.2 hrenewable] at hchecked
      exact hchecked _ rfl)

/-- The allowance covers the renewal, and the consumer holds nothing. -/
theorem uncovered_panics : PullsHonestly pullHost ∧ (∀ t ∈ grantRun 0, t.Exits) ∧
    ¬Answers (.mk pullHost 11 110 fun _ => false) (run execRenewal {} (grantRun 0)) 5 := by
  refine ⟨pullHost_honest,grantRun_exits,?_⟩
  rintro ⟨attempt,w,hrun,-⟩
  have hsucceeds : failure (Model.tryAutoRenew 5) (.mk pullHost 11 110 fun _ => false)
      (run execRenewal {} (grantRun 0)) = none := failure_eq_none_iff.2 ⟨attempt,w,hrun⟩
  revert hsucceeds
  decide +kernel

end PriceOracle.AutoRenewal
