import PriceOracle.Model.Invocation
import PriceOracle.Model.Subscription

/-! # What a subscription call does

The calls on subscriptions, and the effect of one of them on what is stored for a given consumer and
on the balances of the tokens. -/

namespace PriceOracle.Subscriptions

open Model Lib.Transaction Lib.MachineInt

inductive SubscriptionCall
  | subscribe (consumer : Address) (duration : Nat)
  | renew (consumer : Address)
  | cancel (consumer : Address)
  | distribute (consumer : Address)
  | refund (consumer : Address)
  | setToken (token : Address)
  | setXlmToken (token : Address)
  | setPrice (duration : Nat) (amount : Int)

/-- Whose subscription a call is about. -/
def SubscriptionCall.consumer : SubscriptionCall → Option Address
  | subscribe consumer _ => some consumer
  | renew consumer => some consumer
  | cancel consumer => some consumer
  | distribute consumer => some consumer
  | refund consumer => some consumer
  | setToken _ => none
  | setXlmToken _ => none
  | setPrice _ _ => none

def SubscriptionCall.body : SubscriptionCall → Contract Unit
  | subscribe consumer duration => Model.subscribe consumer duration
  | renew consumer => renewSubscription consumer
  | cancel consumer => cancelSubscription consumer
  | distribute consumer => distributeSubscriptionFees consumer
  | refund consumer => refundSubscriptionPayment consumer
  | setToken token => setSubscriptionToken token
  | setXlmToken token => setXlmTokenContract token
  | setPrice duration amount => setSubscriptionPrice duration amount

/-- A call, or a change elsewhere: it may set the tokens and the plans, and move balances, but
touches neither the expiries nor the payments. -/
inductive SubscriptionAct
  | call (call : SubscriptionCall)
  | elsewhere (rest : Store)

structure SubscriptionTx where
  env : Env
  act : SubscriptionAct

def execSubscription (st : Store) (t : SubscriptionTx) : Store :=
  match t.act with
  | .call call => invoke call.body t.env st
  | .elsewhere rest =>
    { rest with
      subscriptions := { rest.subscriptions with
        expiry := st.subscriptions.expiry
        payment := st.subscriptions.payment
        tokenDeposit := st.subscriptions.tokenDeposit } }

def Makes (call : SubscriptionCall) (st : Store) (t : SubscriptionTx) : Prop :=
  t.act = .call call ∧ failure call.body t.env st = none

/-- The step records a payment of `c`, collected in the token if there is one. -/
def Records (c : Address) (amount : Int) (token : Option Address) (st : Store)
    (t : SubscriptionTx) : Prop :=
  ∃ duration, Makes (.subscribe c duration) st t ∧ st.subscriptions.plan duration = some amount ∧
    0 < amount ∧ st.paymentToken = token

/-- The step distributes or refunds the payment of `c`. -/
def Settles (c : Address) (st : Store) (t : SubscriptionTx) : Prop :=
  Makes (.distribute c) st t ∨ Makes (.refund c) st t

/-- The step settles the payment of `c` or records another one. -/
def Closes (c : Address) (st : Store) (t : SubscriptionTx) : Prop :=
  Settles c st t ∨ ∃ amount token, Records c amount token st t

def left (c : Address) (st : Store) (now : Nat) : Nat :=
  (st.subscriptions.expiry c).getD 0 - now

/-- The duration that `c` subscribes for in one step. -/
def boughtBy (c : Address) (st : Store) (t : SubscriptionTx) : Nat :=
  match t.act with
  | .call (.subscribe consumer duration) =>
    if consumer = c ∧ failure (Model.subscribe consumer duration) t.env st = none then duration
    else 0
  | _ => 0

/-- The time that `c` has left when it renews. -/
def renewedBy (c : Address) (st : Store) (t : SubscriptionTx) : Nat :=
  match t.act with
  | .call (.renew consumer) =>
    if consumer = c ∧ failure (renewSubscription consumer) t.env st = none then
      left c st t.env.timestamp
    else 0
  | _ => 0

/-- The step gives no time to `c`, and leaves its payment open. -/
structure Idle (c : Address) (st : Store) (t : SubscriptionTx) : Prop where
  bought : boughtBy c st t = 0
  renewed : renewedBy c st t = 0
  keepsOpen : ¬Closes c st t

/-- What is stored for a consumer. -/
structure Entry where
  expiry : Option Nat
  payment : Option SubscriptionPayment

def entryOf (st : Store) (c : Address) : Entry :=
  ⟨st.subscriptions.expiry c, st.subscriptions.payment c⟩

/-- Tokens move between the two accounts, if there is a token. -/
def Transferred (host : Host) (token : Option Address) (sender recipient : Address) (amount : Int)
    (b b' : Balances) : Prop :=
  match token with
  | some token => host.transfer token sender recipient amount b = some b'
  | none => b' = b

/-- What one step does to the entry of one consumer. -/
inductive EntryEffect (c : Address) (st : Store) (t : SubscriptionTx) (e' : Entry) : Prop
  | kept (hidle : Idle c st t) (hkept : e' = entryOf st c)
  | subscribed (duration : Nat) (hbought : boughtBy c st t = duration)
    (hrenewed : renewedBy c st t = 0)
    (hexpiry : e'.expiry = some (satAdd64 t.env.timestamp duration))
    (hpayment : ¬Closes c st t ∧ e'.payment = (entryOf st c).payment ∨
      ∃ amount, Records c amount st.paymentToken st t ∧
        e'.payment = some ⟨c, amount, t.env.timestamp, 1⟩)
  | renewed (expiry : Nat) (hbought : boughtBy c st t = 0)
    (hrenewed : renewedBy c st t = left c st t.env.timestamp) (hopen : ¬Closes c st t)
    (hfound : (entryOf st c).expiry = some expiry) (hnow : t.env.timestamp ≤ expiry)
    (hextended : e' =
      ⟨some (satAdd64 expiry (expiry - t.env.timestamp)), (entryOf st c).payment⟩)
  | cancelled (hidle : Idle c st t) (hremoved : e' = ⟨none, (entryOf st c).payment⟩)
  | settled (payment : SubscriptionPayment) (hbought : boughtBy c st t = 0)
    (hrenewed : renewedBy c st t = 0) (hsettles : Settles c st t)
    (hfound : (entryOf st c).payment = some payment) (hstatus : payment.status = 1)
    (hmarked : e' = ⟨(entryOf st c).expiry, some { payment with status := 2 }⟩)

/-- What one call does to the balances. -/
inductive MoneyEffect (st : Store) (t : SubscriptionTx) (b' : Balances) : Prop
  | still (hnone : ∀ c amount token, ¬Records c amount token st t) (hstill : b' = st.custody.balance)
  | collected (c : Address) (amount : Int) (hrecords : Records c amount st.paymentToken st t)
    (hmoved : Transferred t.env.host st.paymentToken c t.env.host.contractAddress amount
      st.custody.balance b')
  | paid (c recipient : Address) (payment : SubscriptionPayment) (amount : Int)
    (hsettles : Settles c st t) (hfound : (entryOf st c).payment = some payment)
    (hamount : amount ≤ payment.amount)
    (hmoved : Transferred t.env.host st.subscriptions.xlmToken t.env.host.contractAddress recipient
      amount st.custody.balance b')

section Specs

variable {env : Env} {st : Store} {w : World} {c s : Address}

theorem transferIn_sat (token : Option Address) (sender recipient : Address) (amount : Int) :
    Sat (transferIn token sender recipient amount) w fun _ w' =>
      w'.env = w.env ∧ w'.store.subscriptions = w.store.subscriptions ∧
        Transferred w.env.host token sender recipient amount w.store.custody.balance
          w'.store.custody.balance := by
  cases token with
  | none => exact (sat_pure _).2 ⟨rfl,rfl,rfl⟩
  | some token => exact (sat_transferToken _ _ _ _ _).2 fun b hb => ⟨rfl,rfl,hb⟩

theorem readSubscriptionExpiry_sat (missing : ErrorCode) :
    Sat (readSubscriptionExpiry s missing) w fun expiry w' =>
      w.store.subscriptions.expiry s = some expiry ∧ w' = w := by
  refine sat_lookup ?_
  cases w.store.subscriptions.expiry s <;> rfl

theorem readOpenPayment_sat :
    Sat (readOpenPayment s) w fun payment w' =>
      w.store.subscriptions.payment s = some payment ∧ payment.status = 1 ∧ w' = w := by
  rw [readOpenPayment,sat_bind]
  refine (sat_lookup (o := w.store.subscriptions.payment s) ?_).mono ?_
  · cases w.store.subscriptions.payment s <;> rfl
  · rintro payment u ⟨hfound,hu⟩
    rw [hu,sat_bind,sat_ensure]
    exact fun hstatus => (sat_pure _).2 ⟨hfound,hstatus,rfl⟩

theorem collectPayment_sat (amount : Int) :
    Sat (collectPayment s amount) w fun _ w' =>
      w'.env = w.env ∧
        w'.store.subscriptions = { w.store.subscriptions with
          payment := Function.update w.store.subscriptions.payment s
            (some ⟨s,amount,w.env.timestamp,1⟩) } ∧
        Transferred w.env.host w.store.paymentToken s w.env.host.contractAddress amount
          w.store.custody.balance w'.store.custody.balance := by
  simp only [collectPayment,getContractAddress,sat_bind,sat_readStore]
  refine (transferIn_sat _ _ _ _).mono ?_
  rintro _ u ⟨henv,hsubs,hmoved⟩
  rw [sat_getTimestamp,writeSubscriptionPayment,modifySubscriptions,sat_update,hsubs]
  refine ⟨henv,?_,hmoved⟩
  rw [henv]

/-- The payment of a subscription, if it costs anything, and its expiry are stored. -/
theorem subscribe_sat (duration : Nat) :
    Sat (subscribe s duration) (World.enter env st) fun _ w =>
      ∃ amount, st.subscriptions.plan duration = some amount ∧
        w.store.subscriptions.expiry =
          Function.update st.subscriptions.expiry s (some (satAdd64 env.timestamp duration)) ∧
        w.store.subscriptions.tokenDeposit = st.subscriptions.tokenDeposit ∧
        if 0 < amount then
          w.store.subscriptions.payment = Function.update st.subscriptions.payment s
            (some ⟨s,amount,env.timestamp,1⟩) ∧
          Transferred env.host st.paymentToken s env.host.contractAddress amount st.custody.balance
            w.store.custody.balance
        else w.store.subscriptions.payment = st.subscriptions.payment ∧
          w.store.custody.balance = st.custody.balance := by
  rw [subscribe,sat_bind,sat_requireAuth]
  intro _
  rw [sat_bind]
  refine (sat_lookup (o := st.subscriptions.plan duration) ?_).mono ?_
  · dsimp only [authorizedBy_store,World.enter]
    cases st.subscriptions.plan duration <;> rfl
  · rintro amount u ⟨hplan,rfl⟩
    refine sat_ite _ (fun hcosts => ?_) fun hfree => ?_
    · rw [sat_bind]
      refine (collectPayment_sat amount).mono ?_
      rintro _ v ⟨henv,hsubs,hmoved⟩
      rw [sat_bind,sat_getTimestamp,writeSubscriptionExpiry,modifySubscriptions,sat_update,
        hsubs,henv]
      refine ⟨amount,hplan,rfl,rfl,?_⟩
      rw [if_pos hcosts]
      exact ⟨rfl,hmoved⟩
    · rw [sat_bind,sat_getTimestamp,writeSubscriptionExpiry,modifySubscriptions,sat_update]
      refine ⟨amount,hplan,rfl,rfl,?_⟩
      rw [if_neg hfree]
      exact ⟨rfl,rfl⟩

theorem renewSubscription_sat :
    Sat (renewSubscription s) (World.enter env st) fun _ w =>
      w.store.custody.balance = st.custody.balance ∧
        ∃ expiry, st.subscriptions.expiry s = some expiry ∧ env.timestamp ≤ expiry ∧
          w.store.subscriptions = { st.subscriptions with
            expiry := Function.update st.subscriptions.expiry s
              (some (satAdd64 expiry (expiry - env.timestamp))) } := by
  rw [renewSubscription,sat_bind,sat_requireAuth]
  intro _
  rw [sat_bind]
  refine (readSubscriptionExpiry_sat .noData).mono ?_
  rintro expiry u ⟨hfound,hu⟩
  subst hu
  simp only [sat_bind,sat_getTimestamp,sat_ensure,writeSubscriptionExpiry,modifySubscriptions,
    sat_update]
  exact fun hnow => ⟨rfl,expiry,hfound,hnow,rfl⟩

/-- What is stored for the consumers, and the balances, are as before. -/
def SameAccounts (w w' : World) : Prop :=
  w'.store.custody = w.store.custody ∧
    w'.store.subscriptions.expiry = w.store.subscriptions.expiry ∧
    w'.store.subscriptions.payment = w.store.subscriptions.payment ∧
    w'.store.subscriptions.tokenDeposit = w.store.subscriptions.tokenDeposit

instance : Std.Refl SameAccounts := ⟨fun _ => ⟨rfl, rfl, rfl, rfl⟩⟩

instance : IsTrans World SameAccounts :=
  ⟨fun _ _ _ h h' => ⟨h'.1.trans h.1, h'.2.1.trans h.2.1, h'.2.2.1.trans h.2.2.1,
    h'.2.2.2.trans h.2.2.2⟩⟩

theorem revokeOnCancel_same : Preserves SameAccounts (revokeOnCancel s) := by
  have hrecord (record : AutoRenewRecord) : Preserves SameAccounts (writeRenewalRecord record) :=
    preserves_update fun _ => ⟨rfl,rfl,rfl,rfl⟩
  have hauth (auth : RenewalAuthorization) : Preserves SameAccounts (writeRenewalAuth s auth) :=
    preserves_update fun _ => ⟨rfl,rfl,rfl,rfl⟩
  have hspent (periodId : Nat) : Preserves SameAccounts (markSpent s periodId) :=
    preserves_update fun _ => ⟨rfl,rfl,rfl,rfl⟩
  have hconsume (periodId : Nat) : Preserves SameAccounts (consumeAuth s periodId) := by
    refine .read fun auth => ?_
    cases auth with
    | none => exact preserves_pure _
    | some auth => exact preserves_ite _ (hauth _) (preserves_pure _)
  have hcurrent : Preserves SameAccounts (consumeCurrentAuthorization s) := by
    refine .read fun record => ?_
    cases record with
    | none => exact preserves_pure _
    | some record => exact (hconsume _).bind fun _ => hspent _
  refine .read fun record => ?_
  cases record with
  | none => exact preserves_pure _
  | some record => exact (hrecord _).bind fun _ => hcurrent

def NoDeposits (st : Store) : Prop := st.subscriptions.tokenDeposit = fun _ => none

theorem refundDeposit_sat (hnone : NoDeposits w.store) (expiry : Nat) :
    Sat (refundDeposit s expiry) w fun _ w' => w' = w := by
  rw [refundDeposit,sat_bind,sat_readStore,sat_bind,sat_readStore,hnone]
  cases w.store.subscriptions.subscriptionToken <;> exact (sat_pure _).2 rfl

theorem cancelSubscription_sat (hnone : NoDeposits st) :
    Sat (cancelSubscription s) (World.enter env st) fun _ w =>
      w.store.custody = st.custody ∧ NoDeposits w.store ∧
        w.store.subscriptions.expiry = Function.update st.subscriptions.expiry s none ∧
        w.store.subscriptions.payment = st.subscriptions.payment := by
  rw [cancelSubscription,sat_bind,sat_requireAuth]
  intro _
  rw [sat_bind]
  refine (readSubscriptionExpiry_sat .noActiveSubscription).mono ?_
  rintro expiry u ⟨_,hu⟩
  subst hu
  rw [sat_bind]
  refine (refundDeposit_sat hnone expiry).mono fun _ v hv => ?_
  subst hv
  rw [sat_bind]
  refine (revokeOnCancel_same _).mono ?_
  rintro _ x ⟨hcustody,hexpiry,hpayment,hdeposit⟩
  rw [removeSubscriptionExpiry,modifySubscriptions,sat_update]
  refine ⟨hcustody,hdeposit.trans hnone,?_,hpayment⟩
  rw [hexpiry]
  rfl

/-- What the two ways to settle a payment have in common. -/
def SettledWith (env : Env) (st : Store) (s : Address) (w : World) : Prop :=
  ∃ payment recipient amount, st.subscriptions.payment s = some payment ∧ payment.status = 1 ∧
    amount ≤ payment.amount ∧
    w.store.subscriptions = { st.subscriptions with
      payment := Function.update st.subscriptions.payment s (some { payment with status := 2 }) } ∧
    (w.store.custody.balance = st.custody.balance ∨
      Transferred env.host st.subscriptions.xlmToken env.host.contractAddress recipient amount
        st.custody.balance w.store.custody.balance)

theorem transferXlm_sat (recipient : Address) (amount : Int) :
    Sat (transferXlm recipient amount) w fun _ w' =>
      w'.env = w.env ∧ w'.store.subscriptions = w.store.subscriptions ∧
        Transferred w.env.host w.store.subscriptions.xlmToken w.env.host.contractAddress recipient
          amount w.store.custody.balance w'.store.custody.balance := by
  exact transferIn_sat _ _ _ _

theorem quarter_le {amount : Int} (h : 0 < amount.tdiv 4) : amount.tdiv 4 ≤ amount := by
  rcases le_or_gt 0 amount with hnonneg | hneg
  · exact Int.tdiv_le_self 4 hnonneg
  · have hopposite := Int.tdiv_nonneg (neg_nonneg.2 hneg.le) (by decide : (0 : Int) ≤ 4)
    rw [Int.neg_tdiv] at hopposite
    omega

theorem distributeSubscriptionFees_sat :
    Sat (distributeSubscriptionFees s) (World.enter env st) fun _ w => SettledWith env st s w := by
  rw [distributeSubscriptionFees,sat_asAdmin]
  intro admin hadmin _
  rw [sat_bind]
  refine readOpenPayment_sat.mono ?_
  rintro payment u ⟨hfound,hstatus,hu⟩
  subst hu
  rw [sat_bind]
  refine (sat_lookup (o := st.config.admin) ?_).mono ?_
  · change (match st.config.admin with | some a => _ | none => _ : Except _ _).toOption = _
    cases st.config.admin <;> rfl
  · rintro treasury u ⟨-,rfl⟩
    refine sat_ite _ (fun hshare => ?_) fun _ => ?_
    · rw [sat_bind]
      refine (transferXlm_sat treasury _).mono ?_
      rintro _ v ⟨_,hsubs,hmoved⟩
      rw [writeSubscriptionPayment,modifySubscriptions,sat_update,hsubs]
      exact ⟨payment,treasury,_,hfound,hstatus,quarter_le hshare,rfl,.inr hmoved⟩
    · rw [writeSubscriptionPayment,modifySubscriptions,sat_update]
      exact ⟨payment,treasury,payment.amount,hfound,hstatus,le_refl _,rfl,.inl rfl⟩

theorem refundSubscriptionPayment_sat :
    Sat (refundSubscriptionPayment s) (World.enter env st) fun _ w => SettledWith env st s w := by
  rw [refundSubscriptionPayment,sat_asAdmin]
  intro admin hadmin _
  rw [sat_bind]
  refine readOpenPayment_sat.mono ?_
  rintro payment u ⟨hfound,hstatus,hu⟩
  subst hu
  rw [sat_bind]
  refine (transferXlm_sat s payment.amount).mono ?_
  rintro _ v ⟨_,hsubs,hmoved⟩
  rw [writeSubscriptionPayment,modifySubscriptions,sat_update,hsubs]
  exact ⟨payment,s,payment.amount,hfound,hstatus,le_refl _,rfl,.inr hmoved⟩

end Specs

section Steps

variable {env : Env} {st : Store} {c s : Address} {call : SubscriptionCall}

/-- A step has its effect on the entry of each consumer and, if it is a call, on the balances. -/
def Stepped (st : Store) (t : SubscriptionTx) (st' : Store) : Prop :=
  NoDeposits st' ∧ (∀ c, EntryEffect c st t (entryOf st' c)) ∧
    ∀ call, t.act = .call call → MoneyEffect st t st'.custody.balance

/-- A call for another consumer is idle. -/
theorem idle_of_ne (h : call.consumer ≠ some c) : Idle c st ⟨env,.call call⟩ := by
  refine ⟨?_,?_,?_⟩
  · cases call with
    | subscribe consumer duration => exact if_neg fun hs => h (congrArg some hs.1)
    | _ => rfl
  · cases call with
    | renew consumer => exact if_neg fun hs => h (congrArg some hs.1)
    | _ => rfl
  · rintro ((⟨⟨⟩,-⟩ | ⟨⟨⟩,-⟩) | ⟨_,_,_,⟨⟨⟩,-⟩,-⟩)
    · exact h rfl
    · exact h rfl
    · exact h rfl

/-- A call that panics is idle for everybody. -/
theorem idle_of_failure (h : failure call.body env st ≠ none) : Idle c st ⟨env,.call call⟩ := by
  refine ⟨?_,?_,?_⟩
  · cases call with
    | subscribe consumer duration => exact if_neg fun hs => h hs.2
    | _ => rfl
  · cases call with
    | renew consumer => exact if_neg fun hs => h hs.2
    | _ => rfl
  · rintro ((⟨⟨⟩,hok⟩ | ⟨⟨⟩,hok⟩) | ⟨_,_,_,⟨⟨⟩,hok⟩,-⟩)
    · exact h hok
    · exact h hok
    · exact h hok

theorem stepped_of_failure (hnone : NoDeposits st) (h : failure call.body env st ≠ none) :
    Stepped st ⟨env,.call call⟩ (invoke call.body env st) := by
  have hstore : invoke call.body env st = st := by
    obtain ⟨e,he⟩ := Option.ne_none_iff_exists'.1 h
    exact invoke_of_failure he
  rw [hstore]
  refine ⟨hnone,fun c => .kept (idle_of_failure h) rfl,fun _ _ => .still ?_ rfl⟩
  exact fun c amount token hrecords => (idle_of_failure (c := c) h).keepsOpen (.inr ⟨_,_,hrecords⟩)

theorem entryEffect_of_call {st' : Store}
    (hother : call.consumer ≠ some c → entryOf st' c = entryOf st c)
    (hself : call.consumer = some c → EntryEffect c st ⟨env,.call call⟩ (entryOf st' c)) :
    EntryEffect c st ⟨env,.call call⟩ (entryOf st' c) := by
  by_cases h : call.consumer = some c
  · exact hself h
  · exact .kept (idle_of_ne h) (hother h)

theorem subscribe_effect (hnone : NoDeposits st) (duration : Nat)
    (hok : failure (subscribe s duration) env st = none) :
    Stepped st ⟨env,.call (.subscribe s duration)⟩ (invoke (subscribe s duration) env st) := by
  refine invoke_of_success (Q := Stepped st ⟨env,.call (.subscribe s duration)⟩) hok
    ((subscribe_sat duration).mono ?_)
  rintro _ w ⟨amount,hplan,hexpiry,hdeposit,hpaid⟩
  have hfree (c : Address) (hcosts : ¬0 < amount) (amount' : Int) (token : Option Address) :
      ¬Records c amount' token st ⟨env,.call (.subscribe s duration)⟩ := by
    rintro ⟨_,⟨⟨⟩,-⟩,hplan',hpositive,-⟩
    rw [hplan,Option.some.injEq] at hplan'
    exact hcosts (hplan' ▸ hpositive)
  refine ⟨hdeposit.trans hnone,fun c => entryEffect_of_call (fun hc => ?_) ?_,fun call hcall => ?_⟩
  · have hc : c ≠ s := fun hs => hc (congrArg some hs.symm)
    split_ifs at hpaid
    · rw [entryOf,hexpiry,hpaid.1,Function.update_of_ne hc,Function.update_of_ne hc,entryOf]
    · rw [entryOf,hexpiry,hpaid.1,Function.update_of_ne hc,entryOf]
  · rintro ⟨⟩
    refine .subscribed duration (if_pos ⟨rfl,hok⟩) rfl ?_ ?_
    · rw [entryOf,hexpiry,Function.update_self]
    · split_ifs at hpaid with hcosts
      · refine .inr ⟨amount,⟨duration,⟨rfl,hok⟩,hplan,hcosts,rfl⟩,?_⟩
        rw [entryOf,hpaid.1,Function.update_self]
      · refine .inl ⟨?_,by rw [entryOf,hpaid.1,entryOf]⟩
        rintro ((⟨⟨⟩,-⟩ | ⟨⟨⟩,-⟩) | ⟨amount',token,hrecords⟩)
        exact hfree s hcosts amount' token hrecords
  · split_ifs at hpaid with hcosts
    · exact .collected s amount ⟨duration,⟨rfl,hok⟩,hplan,hcosts,rfl⟩ hpaid.2
    · exact .still (fun c => hfree c hcosts) hpaid.2

theorem renewSubscription_effect (hnone : NoDeposits st)
    (hok : failure (renewSubscription s) env st = none) :
    Stepped st ⟨env,.call (.renew s)⟩ (invoke (renewSubscription s) env st) := by
  refine invoke_of_success (Q := Stepped st ⟨env,.call (.renew s)⟩) hok
    (renewSubscription_sat.mono ?_)
  rintro _ w ⟨hbalance,expiry,hfound,hnow,hsubs⟩
  have hdeposit : NoDeposits w.store := by rwa [NoDeposits,hsubs]
  refine ⟨hdeposit,fun c => entryEffect_of_call (fun hc => ?_) ?_,fun call _ => ?_⟩
  · have hc : c ≠ s := fun hs => hc (congrArg some hs.symm)
    simp [entryOf,hsubs,hc]
  · rintro ⟨⟩
    refine .renewed expiry rfl (if_pos ⟨rfl,hok⟩) ?_ hfound hnow ?_
    · rintro ((⟨⟨⟩,-⟩ | ⟨⟨⟩,-⟩) | ⟨_,_,_,⟨⟨⟩,-⟩,-⟩)
    · simp [entryOf,hsubs]
  · refine .still ?_ hbalance
    rintro _ _ _ ⟨_,⟨⟨⟩,-⟩,-⟩

theorem cancelSubscription_effect (hnone : NoDeposits st)
    (hok : failure (cancelSubscription s) env st = none) :
    Stepped st ⟨env,.call (.cancel s)⟩ (invoke (cancelSubscription s) env st) := by
  refine invoke_of_success (Q := Stepped st ⟨env,.call (.cancel s)⟩) hok
    ((cancelSubscription_sat hnone).mono ?_)
  rintro _ w ⟨hcustody,hdeposit,hexpiry,hpayment⟩
  refine ⟨hdeposit,fun c => entryEffect_of_call (fun hc => ?_) ?_,fun call _ => ?_⟩
  · have hc : c ≠ s := fun hs => hc (congrArg some hs.symm)
    rw [entryOf,hexpiry,hpayment,Function.update_of_ne hc,entryOf]
  · rintro ⟨⟩
    refine .cancelled ⟨rfl,rfl,?_⟩ ?_
    · rintro ((⟨⟨⟩,-⟩ | ⟨⟨⟩,-⟩) | ⟨_,_,_,⟨⟨⟩,-⟩,-⟩)
    · rw [entryOf,hexpiry,hpayment,Function.update_self,entryOf]
  · refine .still ?_ (congrArg Custody.balance hcustody)
    rintro _ _ _ ⟨_,⟨⟨⟩,-⟩,-⟩

/-- The two ways to settle a payment have the same effect. -/
theorem settle_effect (hnone : NoDeposits st)
    (hcall : call = .distribute s ∨ call = .refund s) (hok : failure call.body env st = none)
    (hsat : Sat call.body (World.enter env st) fun _ w => SettledWith env st s w) :
    Stepped st ⟨env,.call call⟩ (invoke call.body env st) := by
  have hsettles : Settles s st ⟨env,.call call⟩ := by
    rcases hcall with rfl | rfl
    · exact .inl ⟨rfl,hok⟩
    · exact .inr ⟨rfl,hok⟩
  have hconsumer : call.consumer = some s := by
    rcases hcall with rfl | rfl <;> rfl
  have hnothing : boughtBy s st ⟨env,.call call⟩ = 0 ∧ renewedBy s st ⟨env,.call call⟩ = 0 := by
    rcases hcall with rfl | rfl <;> exact ⟨rfl,rfl⟩
  have hrecord (c : Address) (amount : Int) (token : Option Address) :
      ¬Records c amount token st ⟨env,.call call⟩ := by
    rcases hcall with rfl | rfl
    · rintro ⟨_,⟨⟨⟩,-⟩,-⟩
    · rintro ⟨_,⟨⟨⟩,-⟩,-⟩
  refine invoke_of_success (Q := Stepped st ⟨env,.call call⟩) hok (hsat.mono ?_)
  rintro _ w ⟨payment,recipient,amount,hfound,hstatus,hamount,hsubs,hmoved⟩
  have hdeposit : NoDeposits w.store := by rwa [NoDeposits,hsubs]
  refine ⟨hdeposit,fun c => entryEffect_of_call (fun hc => ?_) fun hc => ?_,fun _ _ => ?_⟩
  · have hc : c ≠ s := fun hs => hc (hs ▸ hconsumer)
    simp [entryOf,hsubs,hc]
  · rw [hconsumer,Option.some.injEq] at hc
    subst hc
    refine .settled payment hnothing.1 hnothing.2 hsettles hfound hstatus ?_
    simp [entryOf,hsubs]
  · rcases hmoved with hstill | hmoved
    · exact .still hrecord hstill
    · exact .paid s recipient payment amount hsettles hfound hamount hmoved

/-- Setting a token or a price changes no entry and moves nothing. -/
theorem setting_effect (hnone : NoDeposits st) (hcall : call.consumer = none)
    (hok : failure call.body env st = none) :
    Stepped st ⟨env,.call call⟩ (invoke call.body env st) := by
  have hsame : Sat call.body (World.enter env st) fun _ w => SameAccounts (World.enter env st) w := by
    cases call with
    | setToken token =>
      refine (sat_asAdmin _).2 fun admin _ _ => ?_
      exact (sat_update _ _).2 ⟨rfl,rfl,rfl,rfl⟩
    | setXlmToken token =>
      refine (sat_asAdmin _).2 fun admin _ _ => ?_
      exact (sat_update _ _).2 ⟨rfl,rfl,rfl,rfl⟩
    | setPrice duration amount =>
      refine (sat_asAdmin _).2 fun admin _ _ => ?_
      exact (sat_update _ _).2 ⟨rfl,rfl,rfl,rfl⟩
    | _ => cases hcall
  refine invoke_of_success (Q := Stepped st ⟨env,.call call⟩) hok (hsame.mono ?_)
  rintro _ w ⟨hcustody,hexpiry,hpayment,hdeposit⟩
  refine ⟨hdeposit.trans hnone,fun c => entryEffect_of_call (fun _ => ?_) fun hc => ?_,fun _ _ => ?_⟩
  · rw [entryOf,hexpiry,hpayment]
    rfl
  · rw [hcall] at hc
    cases hc
  · refine .still ?_ (congrArg Custody.balance hcustody)
    rintro c _ _ hrecords
    exact (idle_of_ne (c := c) (by simp [hcall])).keepsOpen (.inr ⟨_,_,hrecords⟩)

/-- Every step has its effect. -/
theorem execSubscription_effect (hnone : NoDeposits st) (t : SubscriptionTx) :
    Stepped st t (execSubscription st t) := by
  obtain ⟨env,act⟩ := t
  cases act with
  | elsewhere rest =>
    refine ⟨hnone,fun c => .kept ⟨rfl,rfl,?_⟩ rfl,by rintro _ ⟨⟩⟩
    rintro ((⟨⟨⟩,-⟩ | ⟨⟨⟩,-⟩) | ⟨_,_,_,⟨⟨⟩,-⟩,-⟩)
  | call call =>
    by_cases hok : failure call.body env st = none
    · cases call with
      | subscribe consumer duration => exact subscribe_effect hnone duration hok
      | renew consumer => exact renewSubscription_effect hnone hok
      | cancel consumer => exact cancelSubscription_effect hnone hok
      | distribute consumer =>
        exact settle_effect hnone (.inl rfl) hok distributeSubscriptionFees_sat
      | refund consumer => exact settle_effect hnone (.inr rfl) hok refundSubscriptionPayment_sat
      | setToken token => exact setting_effect hnone rfl hok
      | setXlmToken token => exact setting_effect hnone rfl hok
      | setPrice duration amount => exact setting_effect hnone rfl hok
    · exact stepped_of_failure hnone hok

end Steps

end PriceOracle.Subscriptions
