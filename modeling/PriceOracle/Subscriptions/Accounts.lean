import PriceOracle.Lib.Run
import PriceOracle.Subscriptions.Effects

/-! # Subscription time and payments over whole runs

A consumer obtains no more time than it subscribed for and its renewals added. Each payment is
settled once, for no more than its amount. -/

namespace PriceOracle.Subscriptions

open Model Lib.MachineInt Lib.Run

/-- The contract together with the time of the last step. -/
def execClocked : Nat × Store → SubscriptionTx → Nat × Store :=
  clocked (fun t => t.env.timestamp) execSubscription

/-- How long the subscription of `c` is active between the last step and this one. -/
def usedBy (c : Address) (x : Nat × Store) (t : SubscriptionTx) : Int :=
  ↑(min ((x.2.subscriptions.expiry c).getD 0) t.env.timestamp - x.1)

/-- The time for which the subscription of `c` is active in the run or still will be after it. -/
def obtained (c : Address) (st : Store) (ts : List SubscriptionTx) : Int :=
  total execClocked (usedBy c) (0, st) ts +
    left c (run execClocked (0, st) ts).2 (run execClocked (0, st) ts).1

/-- The durations of the plans that `c` subscribes to. -/
def bought (c : Address) (st : Store) (ts : List SubscriptionTx) : Int :=
  total execClocked (fun x t => boughtBy c x.2 t) (0, st) ts

def added (c : Address) (st : Store) (ts : List SubscriptionTx) : Int :=
  total execClocked (fun x t => renewedBy c x.2 t) (0, st) ts

/-- What is paid out for a payment is at most its amount. If it was collected in what is the native
token now, it is paid out in that token. -/
def PaysOut (amount : Int) (collectedIn : Option Address) (st : Store) (t : SubscriptionTx) : Prop :=
  (execSubscription st t).custody.balance = st.custody.balance ∨
    ∃ token recipient paid, paid ≤ amount ∧
      t.env.host.transfer token t.env.host.contractAddress recipient paid st.custody.balance =
        some (execSubscription st t).custody.balance ∧
      (collectedIn = st.subscriptions.xlmToken → collectedIn = some token)

/-- A payment is recorded, and collected if there is a token, or nothing moves. -/
def Collects (st : Store) (t : SubscriptionTx) : Prop :=
  (∀ c amount token, ¬Records c amount token st t) ∧
      (execSubscription st t).custody.balance = st.custody.balance ∨
    ∃ c amount token, Records c amount token st t ∧
      Transferred t.env.host token c t.env.host.contractAddress amount st.custody.balance
        (execSubscription st t).custody.balance

/-- Time is bounded by what was bought and added, a payment is settled only if it is recorded and has
not been settled since, and no other call pays out. -/
structure SubscriptionsSound (st : Store) (ts : List SubscriptionTx) : Prop where
  time : ∀ c, obtained c st ts ≤ bought c st ts + added c st ts
  settled : ∀ c pre t post, ts = pre ++ t :: post → Settles c (run execSubscription st pre) t →
    ∃ amount token, Unended execSubscription st (Records c amount token) (Closes c) pre ∧
      PaysOut amount token (run execSubscription st pre) t
  collected : ∀ pre t post, ts = pre ++ t :: post → (∃ call, t.act = .call call) →
    (∀ c, ¬Settles c (run execSubscription st pre) t) →
    Collects (run execSubscription st pre) t

section Time

variable {st : Store} {t : SubscriptionTx} {c : Address}

/-- What is used and what is left afterwards come from what was left, bought and added. -/
theorem used_add_left_le (hnone : NoDeposits st) {n : Nat} (hn : n ≤ t.env.timestamp) :
    usedBy c (n,st) t + left c (execSubscription st t) t.env.timestamp ≤
      left c st n + (boughtBy c st t + renewedBy c st t) := by
  have hleft : ∀ e', (entryOf (execSubscription st t) c).expiry = e' →
      left c (execSubscription st t) t.env.timestamp = e'.getD 0 - t.env.timestamp := by
    rintro _ rfl
    rfl
  have hbefore : ∀ e, (entryOf st c).expiry = some e → (st.subscriptions.expiry c).getD 0 = e := by
    intro e he
    exact congrArg (Option.getD · 0) he
  cases (execSubscription_effect hnone t).2.1 c with
  | kept hidle hkept =>
    rw [hidle.bought,hidle.renewed,hleft _ (congrArg Entry.expiry hkept)]
    unfold usedBy left entryOf
    dsimp only
    omega
  | subscribed duration hbought hrenewed hexpiry hpayment =>
    rw [hbought,hrenewed,hleft _ hexpiry,Option.getD_some]
    unfold usedBy left satAdd64
    dsimp only
    omega
  | renewed expiry hbought hrenewed hopen hfound hnow hextended =>
    rw [hbought,hrenewed,hleft _ (congrArg Entry.expiry hextended),Option.getD_some]
    have he := hbefore expiry hfound
    unfold usedBy left satAdd64
    omega
  | cancelled hidle hremoved =>
    rw [hidle.bought,hidle.renewed,hleft _ (congrArg Entry.expiry hremoved)]
    unfold usedBy left
    simp only [Option.getD_none]
    omega
  | settled payment hbought hrenewed hsettles hfound hstatus hmarked =>
    rw [hbought,hrenewed,hleft _ (congrArg Entry.expiry hmarked)]
    unfold usedBy left entryOf
    dsimp only
    omega

end Time

section Payments

variable {st : Store} {t : SubscriptionTx} {c c' : Address}

theorem Settles.unique (h : Settles c st t) (h' : Settles c' st t) : c' = c := by
  rcases h with ⟨h,-⟩ | ⟨h,-⟩
  · rcases h' with ⟨h',-⟩ | ⟨h',-⟩
    · rw [h] at h'
      cases h'
      rfl
    · rw [h] at h'
      cases h'
  · rcases h' with ⟨h',-⟩ | ⟨h',-⟩
    · rw [h] at h'
      cases h'
    · rw [h] at h'
      cases h'
      rfl

theorem Settles.not_records (h : Settles c st t) {amount : Int} {token : Option Address} :
    ¬Records c' amount token st t := by
  rintro ⟨duration,⟨hsubscribe,-⟩,-⟩
  rcases h with ⟨h,-⟩ | ⟨h,-⟩
  · rw [hsubscribe] at h
    cases h
  · rw [hsubscribe] at h
    cases h

/-- A payment that is open has been recorded, and neither settled nor replaced since. -/
theorem open_payment (hst : NoDeposits st) (hnone : st.subscriptions.payment = fun _ => none)
    (ts : List SubscriptionTx) : NoDeposits (run execSubscription st ts) ∧
      ∀ c payment, (entryOf (run execSubscription st ts) c).payment = some payment →
        payment.status = 1 →
        ∃ token, Unended execSubscription st (Records c payment.amount token) (Closes c) ts := by
  induction ts using List.reverseRecOn with
  | nil =>
    refine ⟨hst,fun c payment hfound => ?_⟩
    change st.subscriptions.payment c = some payment at hfound
    rw [hnone] at hfound
    cases hfound
  | append_singleton ts t ih =>
    obtain ⟨hdeposits,hopen⟩ := ih
    rw [run_concat]
    refine ⟨(execSubscription_effect hdeposits t).1,fun c payment hfound hstatus => ?_⟩
    have hextend (hkept : ¬Closes c (run execSubscription st ts) t)
        (hbefore : (entryOf (run execSubscription st ts) c).payment = some payment) :
        ∃ token, Unended execSubscription st (Records c payment.amount token) (Closes c)
          (ts ++ [t]) := by
      obtain ⟨token,h⟩ := hopen c payment hbefore hstatus
      exact ⟨token,unended_concat.2 (.inr ⟨h,hkept⟩)⟩
    cases (execSubscription_effect hdeposits t).2.1 c with
    | kept hidle hkept => exact hextend hidle.keepsOpen (hkept ▸ hfound)
    | subscribed duration _ _ _ hpayment =>
      rcases hpayment with ⟨hkept,hsame⟩ | ⟨amount,hrecords,hpayment⟩
      · exact hextend hkept (hsame ▸ hfound)
      · rw [hpayment,Option.some.injEq] at hfound
        subst hfound
        exact ⟨_,unended_concat.2 (.inl hrecords)⟩
    | renewed expiry _ _ hkept _ _ hextended =>
      rw [hextended] at hfound
      exact hextend hkept hfound
    | cancelled hidle hremoved =>
      rw [hremoved] at hfound
      exact hextend hidle.keepsOpen hfound
    | settled payment' _ _ _ _ _ hmarked =>
      rw [hmarked,Option.some.injEq] at hfound
      subst hfound
      cases hstatus

/-- A settlement finds the payment open, and pays out at most its amount. -/
theorem paysOut_of_settles (hnone : NoDeposits st) (h : Settles c st t) :
    ∃ payment, (entryOf st c).payment = some payment ∧ payment.status = 1 ∧
      ∀ collectedIn, PaysOut payment.amount collectedIn st t := by
  obtain ⟨-,hentry,hmoney⟩ := execSubscription_effect hnone t
  have hcall : ∃ call, t.act = .call call := h.elim (fun h => ⟨_,h.1⟩) fun h => ⟨_,h.1⟩
  cases hentry c with
  | kept hidle => exact (hidle.keepsOpen (.inl h)).elim
  | cancelled hidle => exact (hidle.keepsOpen (.inl h)).elim
  | renewed _ _ _ hkept => exact (hkept (.inl h)).elim
  | subscribed _ _ _ _ hpayment =>
    rcases hpayment with ⟨hkept,-⟩ | ⟨amount,hrecords,-⟩
    · exact (hkept (.inl h)).elim
    · exact (h.not_records hrecords).elim
  | settled payment _ _ _ hfound hstatus _ =>
    refine ⟨payment,hfound,hstatus,fun collectedIn => ?_⟩
    obtain ⟨call,hcall⟩ := hcall
    cases hmoney call hcall with
    | still _ hstill => exact .inl hstill
    | collected c' amount hrecords => exact (h.not_records hrecords).elim
    | paid c' recipient payment' amount hsettles hfound' hamount hmoved =>
      have hsame := h.unique hsettles
      subst hsame
      rw [hfound,Option.some.injEq] at hfound'
      subst hfound'
      cases htoken : st.subscriptions.xlmToken with
      | none =>
        rw [htoken] at hmoved
        exact .inl hmoved
      | some token =>
        rw [htoken] at hmoved
        exact .inr ⟨token,recipient,amount,hamount,hmoved,fun hin => hin.trans htoken⟩

theorem collects_of_call (hnone : NoDeposits st) (hcall : ∃ call, t.act = .call call)
    (hno : ∀ c, ¬Settles c st t) : Collects st t := by
  obtain ⟨call,hcall⟩ := hcall
  cases (execSubscription_effect hnone t).2.2 call hcall with
  | still hrecords hstill => exact .inl ⟨hrecords,hstill⟩
  | collected c amount hrecords hmoved => exact .inr ⟨c,amount,_,hrecords,hmoved⟩
  | paid c _ _ _ hsettles => exact (hno c hsettles).elim

end Payments

section Runs

variable {st : Store}

/-- Nobody has subscribed yet. -/
structure Unsubscribed (st : Store) : Prop where
  expiry : st.subscriptions.expiry = fun _ => none
  payment : st.subscriptions.payment = fun _ => none
  deposits : NoDeposits st

/-- From a contract without subscribers, in every run along the clock, the time and the payments are
in order. -/
theorem subscriptions_sound (ts : List SubscriptionTx) (hst : Unsubscribed st)
    (hclock : ts.Pairwise fun t u => t.env.timestamp ≤ u.env.timestamp) :
    SubscriptionsSound st ts := by
  refine ⟨fun c => ?_,fun c pre t post _ hsettles => ?_,fun pre t post _ hcall hno => ?_⟩
  · have hpotential : obtained c st ts ≤ left c st 0 +
        total execClocked (fun x t => ↑(boughtBy c x.2 t) + ↑(renewedBy c x.2 t)) (0,st) ts := by
      unfold obtained
      exact total_le_of_potential (I := fun x : Nat × Store => NoDeposits x.2)
        (C := fun x t => x.1 ≤ t.env.timestamp) (V := fun x : Nat × Store => ↑(left c x.2 x.1))
        (fun x t hx hn => ⟨(execSubscription_effect hx t).1,used_add_left_le hx hn⟩) hst.deposits
        (clocked_le (fun _ _ => Nat.zero_le _) hclock)
    have hstart : left c st 0 = 0 := by
      unfold left
      rw [hst.expiry]
      rfl
    rw [hstart] at hpotential
    unfold bought added
    rw [← total_add]
    simpa using hpotential
  · obtain ⟨hdeposits,hopen⟩ := open_payment hst.deposits hst.payment pre
    obtain ⟨payment,hfound,hstatus,hpays⟩ := paysOut_of_settles hdeposits hsettles
    obtain ⟨token,hunended⟩ := hopen c payment hfound hstatus
    exact ⟨payment.amount,token,hunended,hpays token⟩
  · exact collects_of_call (open_payment hst.deposits hst.payment pre).1 hcall hno

/-- A day costs 100. Consumer 7 has 1000 of the native token 4, and so does the contract. -/
def subscriptionStore : Store where
  config := { admin := some 9 }
  subscriptions := { plan := fun duration => if duration = 86400 then some 100 else none }
  custody :=
    { balance := fun token holder => if token = 4 ∧ (holder = 7 ∨ holder = 0) then 1000 else 0 }

def subscriptionTx (timestamp : Nat) (signer : Address) (call : SubscriptionCall) :
    SubscriptionTx :=
  ⟨.concrete 5 timestamp [signer], .call call⟩

/-- A subscription that is renewed, distributed and cancelled. -/
def paidSubscription : List SubscriptionTx :=
  [subscriptionTx 50 9 (.setXlmToken 4), subscriptionTx 100 7 (.subscribe 7 86400),
    subscriptionTx 80000 7 (.renew 7), subscriptionTx 80010 9 (.distribute 7),
    subscriptionTx 80020 7 (.cancel 7)]

theorem paidSubscription_sound :
    obtained 7 subscriptionStore paidSubscription = 79920 ∧
      SubscriptionsSound subscriptionStore paidSubscription :=
  ⟨by decide +kernel,subscriptions_sound paidSubscription ⟨rfl,rfl,rfl⟩ (by decide)⟩

def renewedTwice : List SubscriptionTx :=
  [subscriptionTx 50 9 (.setXlmToken 4), subscriptionTx 100 7 (.subscribe 7 86400),
    subscriptionTx 100 7 (.renew 7), subscriptionTx 100 7 (.renew 7)]

/-- A payment that nobody collects, refunded once there is a token. -/
def refundedAnyway : List SubscriptionTx :=
  [subscriptionTx 100 7 (.subscribe 7 86400), subscriptionTx 150 9 (.setXlmToken 4),
    subscriptionTx 200 9 (.refund 7)]

/-- Two renewals make four days of the one that was paid for, and a payment that was not collected is
refunded. -/
theorem renewals_exceed :
    ¬(∀ c, obtained c subscriptionStore renewedTwice ≤ bought c subscriptionStore renewedTwice) ∧
      Records 7 100 none subscriptionStore (subscriptionTx 100 7 (.subscribe 7 86400)) ∧
      (run execSubscription subscriptionStore refundedAnyway).custody.balance 4 7 = 1100 := by
  refine ⟨fun h => absurd (h 7) (by decide +kernel),⟨86400,⟨rfl,?_⟩,rfl,?_,rfl⟩,?_⟩
  · decide +kernel
  · decide
  · decide +kernel

end Runs

end PriceOracle.Subscriptions
