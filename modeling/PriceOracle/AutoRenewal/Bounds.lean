import PriceOracle.AutoRenewal.Rights

/-! # The bound on what a grant can take

Within a grant every period has a later due time, so an authorization is used once. An
authorization that an earlier grant left for a later period still counts: it is accepted when the
nonce of the new grant reaches it. -/

namespace PriceOracle.AutoRenewal

open Lib.Run Lib.MachineInt Model

def Ungranted (st : Store) : Prop :=
  st.subscriptions.record = (fun _ => none) ∧ st.subscriptions.authorization = fun _ => none

/-- A renewal does not turn an authorization that is stored already for the next period into a
usable one. -/
def RenewalTx.leavesNone (st : Store) (t : RenewalTx) : Bool :=
  match t.act with
  | .call (.tryAutoRenew consumer) =>
    match checkRenewal t.env st consumer with
    | .ok (record, auth, _) =>
      (record.renewed auth).nextRenewalTimestamp = record.nextRenewalTimestamp ∨
        usable st.subscriptions consumer (record.renewed auth) = none
    | .error _ => true
  | _ => true

/-- The consumer issued the authorization after the last grant and the last renewal. -/
def Issued (consumer : Address) (auth : RenewalAuthorization) (st : Store)
    (pre : List RenewalTx) : Prop :=
  Unended execRenewal st (Issues consumer auth)
    (fun s t => Enables consumer s t ∨ Pulls consumer s t) pre

/-- Every usable authorization of the consumer is for the due period, within the grant, and issued
for this renewal. -/
structure Live (consumer : Address) (st : Store) (pre : List RenewalTx) : Prop where
  positive : ∀ periodId auth, (run execRenewal st pre).subscriptions.authorization
    (consumer, periodId) = some auth → 0 < auth.nonce
  fresh : ∀ record auth,
    (run execRenewal st pre).subscriptions.record consumer = some record →
    usable (run execRenewal st pre).subscriptions consumer record = some auth →
    auth.periodId = record.nextRenewalTimestamp ∧ auth.amount ≤ record.maxAmountPerPeriod ∧
      Issued consumer auth st pre

section Runs

variable {st : Store} {pre : List RenewalTx} {t : RenewalTx} {consumer : Address}
  {planDuration periods : Nat} {auth : RenewalAuthorization} {limit : Int} {mid : List RenewalTx}
  {coin : Address}

theorem leavesNone_of_pullsBy {record : AutoRenewRecord}
    (h : t.leavesNone st = true) (hpull : PullsBy consumer record auth st t) :
    (record.renewed auth).nextRenewalTimestamp = record.nextRenewalTimestamp ∨
      usable st.subscriptions consumer (record.renewed auth) = none := by
  obtain ⟨⟨hact,-⟩,expiry,hchecked⟩ := hpull
  unfold RenewalTx.leavesNone at h
  rw [hact] at h
  dsimp only at h
  rw [hchecked] at h
  exact of_decide_eq_true h

theorem keyed_run (hst : Ungranted st) (pre : List RenewalTx) : Keyed (run execRenewal st pre) := by
  induction pre using List.reverseRecOn with
  | nil =>
    intro c record hrecord
    rw [run_nil,hst.1] at hrecord
    cases hrecord
  | append_singleton pre t ih =>
    rw [run_concat]
    exact keyed_step ih t

theorem Issued.extend (h : Issued consumer auth st pre)
    (hno : ¬Enables consumer (run execRenewal st pre) t)
    (hnot : ¬Pulls consumer (run execRenewal st pre) t) : Issued consumer auth st (pre ++ [t]) :=
  unended_concat.2 (.inr ⟨h,fun hend => hend.elim hno hnot⟩)

theorem positive_concat (hst : Ungranted st) (h : Live consumer st pre) (periodId : Nat)
    (a : RenewalAuthorization)
    (ha : (run execRenewal st (pre ++ [t])).subscriptions.authorization (consumer,periodId) =
      some a) : 0 < a.nonce := by
  rw [run_concat] at ha
  cases execRenewal_effect consumer (keyed_run hst pre) t with
  | quiet hrights _ _ => exact h.positive periodId a (hrights.authorization periodId ▸ ha)
  | enabled _ _ _ _ hrights => exact h.positive periodId a (hrights.authorization periodId ▸ ha)
  | disabled _ _ hrights _ _ => exact h.positive periodId a (hrights.authorization periodId ▸ ha)
  | authorized record auth _ _ _ hnonce _ hrights _ _ =>
    rw [hrights.authorization] at ha
    dsimp only at ha
    rw [Function.update_apply] at ha
    split_ifs at ha with hkey
    · cases ha
      exact Nat.zero_lt_of_lt hnonce
    · exact h.positive periodId a ha
  | pulled record auth _ _ hcall hrights _ =>
    obtain ⟨-,_,hchecked⟩ := hcall
    obtain ⟨-,-,husable⟩ := checkRenewal_ok hchecked
    rw [hrights.authorization] at ha
    dsimp only [renewedRights] at ha
    rw [Function.update_apply] at ha
    split_ifs at ha with hkey
    · cases ha
      exact h.positive _ auth (usable_iff.1 husable).1
    · exact h.positive periodId a ha
  | revoked record _ hrights _ _ =>
    rw [hrights.authorization] at ha
    dsimp only at ha
    rw [Function.update_apply] at ha
    split_ifs at ha with hkey
    · obtain ⟨auth,hauth,rfl⟩ := Option.map_eq_some_iff.1 ha
      rw [consumed_nonce]
      exact h.positive _ auth hauth
    · exact h.positive periodId a ha

theorem live_concat (hst : Ungranted st) (h : Live consumer st pre)
    (hleaves : t.leavesNone (run execRenewal st pre) = true) : Live consumer st (pre ++ [t]) := by
  refine ⟨fun _ _ => positive_concat hst h _ _,fun r a hr ha => ?_⟩
  have hpositive := positive_concat (t := t) hst h r.nextRenewalTimestamp a (usable_iff.1 ha).1
  rw [run_concat] at hr ha
  cases execRenewal_effect consumer (keyed_run hst pre) t with
  | quiet hrights hno hnot =>
    rw [hrights.record] at hr
    rw [hrights.usable] at ha
    obtain ⟨hperiod,hamount,hissued⟩ := h.fresh r a hr ha
    exact ⟨hperiod,hamount,hissued.extend hno hnot⟩
  | enabled record _ _ hnonce hrights =>
    simp only [hrights.record,Function.update_self,Option.some.injEq] at hr
    -- a new grant begins with the nonce zero, which no authorization has
    have hzero := (usable_iff.1 ha).2.2.1
    rw [← hr,hnonce] at hzero
    omega
  | disabled record hrecord hrights hno hnot =>
    simp only [hrights.record,Function.update_self,Option.some.injEq] at hr
    rw [hrights.usable,← hr] at ha
    obtain ⟨hperiod,hamount,hissued⟩ := h.fresh record a hrecord ha
    rw [← hr]
    exact ⟨hperiod,hamount,hissued.extend hno hnot⟩
  | authorized record auth _ hcall hperiod _ hamount hrights _ _ =>
    simp only [hrights.record,Function.update_self,Option.some.injEq] at hr
    rw [hrights.usable,← hr] at ha
    have hstored := (usable_iff.1 ha).1
    simp only [Function.update_self,Option.some.injEq] at hstored
    rw [← hr,← hstored]
    exact ⟨hperiod,hamount,unended_concat.2 (.inl hcall)⟩
  | pulled record auth expiry hrecord hcall hrights _ =>
    have hself := keyed_run hst pre consumer record hrecord
    simp only [hrights.record,renewedRights,hself,Function.update_self,Option.some.injEq] at hr
    rw [hrights.usable,← hr] at ha
    obtain ⟨hstored,hlive,-,-,-,hspent⟩ := usable_iff.1 ha
    by_cases hnext : (record.renewed auth).nextRenewalTimestamp = record.nextRenewalTimestamp
    · -- the authorization of this period is consumed
      simp only [hnext,renewedRights,Function.update_self,Option.some.injEq] at hstored
      rw [← hstored] at hlive
      cases hlive
    · have hkey : (consumer,(record.renewed auth).nextRenewalTimestamp) ≠
          (consumer,record.nextRenewalTimestamp) := fun hsame => hnext (congrArg Prod.snd hsame)
      have hnone := (leavesNone_of_pullsBy hleaves hcall).resolve_left hnext
      have hsame : usable (renewedRights (run execRenewal st pre).subscriptions consumer record auth
          expiry) consumer (record.renewed auth) =
          usable (run execRenewal st pre).subscriptions consumer (record.renewed auth) :=
        usable_congr (Function.update_of_ne hkey _ _) (Function.update_of_ne hkey _ _)
      rw [hsame,hnone] at ha
      cases ha
  | revoked record hrecord hrights _ _ =>
    simp only [hrights.record,Function.update_self,Option.some.injEq] at hr
    rw [hrights.usable,← hr] at ha
    have hspent := (usable_iff.1 ha).2.2.2.2.2
    simp only [Function.update_self] at hspent
    cases hspent

theorem live_run (hst : Ungranted st)
    (hleaves : ∀ x ∈ steps execRenewal st pre, x.2.leavesNone x.1 = true) : Live consumer st pre := by
  induction pre using List.reverseRecOn with
  | nil =>
    refine ⟨fun periodId a ha => ?_,fun r a hr _ => ?_⟩
    · rw [run_nil,hst.2] at ha
      cases ha
    · rw [run_nil,hst.1] at hr
      cases hr
  | append_singleton pre t ih =>
    rw [steps_append,List.forall_mem_append] at hleaves
    exact live_concat hst (ih hleaves.1) (hleaves.2 _ (List.mem_singleton_self _))

def Inactive (consumer : Address) (st : Store) : Prop :=
  ∀ record, st.subscriptions.record consumer = some record → record.active = false

theorem inactive_of_revokes (hkeyed : Keyed st) (h : Revokes consumer st t) :
    Inactive consumer (execRenewal st t) := by
  obtain ⟨env,act⟩ := t
  rcases h with ⟨hact,hok⟩ | ⟨hact,hok⟩
  · cases hact
    refine invoke_of_success (Q := Inactive consumer) hok
      ((disableAutoRenewal_sat consumer).mono fun _ w ⟨_,hw⟩ => ?_)
    rcases hw with ⟨hnone,hs⟩ | ⟨record,hrecord,hs⟩
    · intro r hr
      rw [hs,hnone] at hr
      cases hr
    · intro r hr
      have hself := hkeyed consumer record hrecord
      simp only [hs,hself,Function.update_self,Option.some.injEq] at hr
      rw [← hr]
  · cases hact
    refine invoke_of_success (Q := Inactive consumer) hok
      ((revokeOnCancel_sat (w := World.enter env st) hkeyed).mono fun _ w ⟨_,hw⟩ => ?_)
    rcases hw with ⟨hnone,hs⟩ | ⟨record,hrecord,hs⟩
    · intro r hr
      rw [hs,hnone] at hr
      cases hr
    · intro r hr
      simp only [hs,Function.update_self,Option.some.injEq] at hr
      rw [← hr]

theorem not_pulls_of_inactive (h : Inactive consumer st) : ¬Pulls consumer st t := by
  rintro ⟨record,auth,-,expiry,hchecked⟩
  obtain ⟨hrecord,hactive,-⟩ := checkRenewal_ok hchecked
  rw [h record hrecord] at hactive
  cases hactive

theorem inactive_step (hkeyed : Keyed st) (h : Inactive consumer st)
    (hno : ¬Enables consumer st t) : Inactive consumer (execRenewal st t) := by
  intro r hr
  cases execRenewal_effect consumer hkeyed t with
  | quiet hrights _ _ => exact h r (hrights.record ▸ hr)
  | enabled _ hcall _ _ _ => exact (hno hcall).elim
  | disabled record _ hrights _ _ =>
    simp only [hrights.record,Function.update_self,Option.some.injEq] at hr
    rw [← hr]
  | authorized record auth hrecord _ _ _ _ hrights _ _ =>
    simp only [hrights.record,Function.update_self,Option.some.injEq] at hr
    rw [← hr]
    exact h record hrecord
  | pulled record auth _ _ hcall _ _ => exact (not_pulls_of_inactive h ⟨record,auth,hcall⟩).elim
  | revoked record _ hrights _ _ =>
    simp only [hrights.record,Function.update_self,Option.some.injEq] at hr
    rw [← hr]

theorem inactive_run (hkeyed : Keyed st) (h : Inactive consumer st) {ts : List RenewalTx}
    (hno : ∀ x ∈ steps execRenewal st ts, ¬Enables consumer x.1 x.2) :
    Keyed (run execRenewal st ts) ∧ Inactive consumer (run execRenewal st ts) := by
  induction ts using List.reverseRecOn with
  | nil => exact ⟨hkeyed,h⟩
  | append_singleton ts t ih =>
    rw [steps_append,List.forall_mem_append] at hno
    obtain ⟨hkeyed',hinactive⟩ := ih hno.1
    rw [run_concat]
    exact ⟨keyed_step hkeyed' t,
      inactive_step hkeyed' hinactive (hno.2 _ (List.mem_singleton_self _))⟩

/-- What a run takes out of the consumer's balance of a token. -/
def total (token consumer : Address) (st : Store) (ts : List RenewalTx) : Int :=
  ((steps execRenewal st ts).map fun x => pulled token consumer x.1 x.2).sum

theorem total_concat (token : Address) (ts : List RenewalTx) :
    total token consumer st (ts ++ [t]) =
      total token consumer st ts + pulled token consumer (run execRenewal st ts) t := by
  rw [total,steps_append,List.map_append,List.sum_append]
  simp [total]

/-- The grant is in force, and no more was taken than its periods used account for. -/
structure Within (consumer : Address) (periods : Nat) (limit taken : Int) (st : Store) : Prop where
  few : periods ≤ maxPeriodsAuthorized
  positive : 0 < limit
  record : ∃ record, st.subscriptions.record consumer = some record ∧
    record.periodsAuthorized = periods ∧ record.maxAmountPerPeriod = limit ∧
    record.periodsUsed ≤ periods ∧ taken ≤ record.periodsUsed * limit

theorem within_of_enables {token coin : Address}
    (h : t.Performs st (.enableAutoRenewal consumer coin planDuration limit periods)) :
    Within consumer periods limit (total token consumer (execRenewal st t) [])
      (execRenewal st t) := by
  obtain ⟨env,act⟩ := t
  obtain ⟨hact,hok⟩ := h
  cases hact
  refine invoke_of_success (Q := fun s => Within consumer periods limit 0 s) hok
    ((enableAutoRenewal_sat consumer coin planDuration limit periods).mono fun _ w hw => ?_)
  obtain ⟨hlimit,hfew,-,hs⟩ := hw
  have hrecord : w.store.subscriptions.record consumer =
      some ⟨consumer,coin,planDuration,limit,periods,0,0,env.timestamp,true,false⟩ := by
    rw [hs]
    exact Function.update_self _ _ _
  exact ⟨hfew,hlimit,_,hrecord,rfl,rfl,Nat.zero_le _,by simp⟩

theorem within_step (hkeyed : Keyed st) {token : Address} {periods : Nat} {limit taken : Int}
    (h : Within consumer periods limit taken st) (hhonest : Honest t.env.host)
    (hno : ¬Enables consumer st t)
    (hfresh : ∀ record auth, st.subscriptions.record consumer = some record →
      usable st.subscriptions consumer record = some auth →
      auth.amount ≤ record.maxAmountPerPeriod) :
    Within consumer periods limit (taken + pulled token consumer st t) (execRenewal st t) := by
  obtain ⟨hfew,hlimit,r,hr,hperiods,hmax,hused,htaken⟩ := h
  refine ⟨hfew,hlimit,?_⟩
  have hsmall (hnot : ¬Pulls consumer st t) : taken + pulled token consumer st t ≤
      r.periodsUsed * limit := by
    rcases pulled_le hkeyed hhonest token consumer with hle | ⟨record,auth,hpull,-⟩
    · omega
    · exact (hnot ⟨record,auth,hpull⟩).elim
  cases execRenewal_effect consumer hkeyed t with
  | quiet hrights _ hnot =>
    exact ⟨r,hrights.record.trans hr,hperiods,hmax,hused,hsmall hnot⟩
  | enabled _ hcall _ _ _ => exact (hno hcall).elim
  | disabled record hrecord hrights _ hnot =>
    rw [hr,Option.some.injEq] at hrecord
    subst hrecord
    exact ⟨_,hrights.record.trans (Function.update_self _ _ _),hperiods,hmax,hused,hsmall hnot⟩
  | authorized record auth hrecord _ _ _ _ hrights _ hnot =>
    rw [hr,Option.some.injEq] at hrecord
    subst hrecord
    exact ⟨_,hrights.record.trans (Function.update_self _ _ _),hperiods,hmax,hused,hsmall hnot⟩
  | pulled record auth expiry hrecord hcall hrights _ =>
    have hself := hkeyed consumer record hrecord
    rw [hr,Option.some.injEq] at hrecord
    subst hrecord
    obtain ⟨-,_,hchecked⟩ := hcall
    obtain ⟨-,-,husable⟩ := checkRenewal_ok hchecked
    have hmore := (usable_iff.1 husable).2.2.2.2.1
    have hcount : (r.renewed auth).periodsUsed = r.periodsUsed+1 := by
      change min (r.periodsUsed+1) u32Max = r.periodsUsed+1
      unfold maxPeriodsAuthorized at hfew
      unfold u32Max
      omega
    have hpulled : pulled token consumer st t ≤ limit := by
      rcases pulled_le hkeyed hhonest token consumer with hle | ⟨record,a,hpull,hle⟩
      · omega
      · obtain ⟨-,_,hchecked'⟩ := hpull
        obtain ⟨hrecord,-,husable'⟩ := checkRenewal_ok hchecked'
        have hamount := hfresh record a hrecord husable'
        rw [hr,Option.some.injEq] at hrecord
        rw [← hrecord,hmax] at hamount
        omega
    have hafter : (execRenewal st t).subscriptions.record consumer = some (r.renewed auth) := by
      rw [hrights.record,renewedRights,hself]
      exact Function.update_self _ _ _
    refine ⟨_,hafter,hperiods,hmax,?_,?_⟩
    · omega
    · rw [hcount,Nat.cast_add,Nat.cast_one,Int.add_mul,Int.one_mul]
      omega
  | revoked record hrecord hrights _ hnot =>
    rw [hr,Option.some.injEq] at hrecord
    subst hrecord
    exact ⟨_,hrights.record.trans (Function.update_self _ _ _),hperiods,hmax,hused,hsmall hnot⟩

theorem within_run (hst : Ungranted st) (token : Address) (hhonest : ∀ u ∈ mid, Honest u.env.host)
    (hleaves : ∀ x ∈ steps execRenewal st (pre ++ t :: mid), x.2.leavesNone x.1 = true)
    (henable : t.Performs (run execRenewal st pre)
      (.enableAutoRenewal consumer coin planDuration limit periods))
    (hno : ∀ x ∈ steps execRenewal (run execRenewal st (pre ++ [t])) mid,
      ¬Enables consumer x.1 x.2) :
    Within consumer periods limit (total token consumer (run execRenewal st (pre ++ [t])) mid)
      (run execRenewal st (pre ++ t :: mid)) := by
  induction mid using List.reverseRecOn with
  | nil =>
    rw [run_concat]
    exact within_of_enables henable
  | append_singleton mid u ih =>
    rw [← List.cons_append,← List.append_assoc,steps_append,List.forall_mem_append] at hleaves
    rw [steps_append,List.forall_mem_append] at hno
    rw [List.forall_mem_append] at hhonest
    have hbefore := ih hhonest.1 hleaves.1 hno.1
    have hwhole : run execRenewal (run execRenewal st (pre ++ [t])) mid =
        run execRenewal st (pre ++ t :: mid) := by
      rw [← run_append,List.append_assoc,List.singleton_append]
    have hlast := hno.2 _ (List.mem_singleton_self _)
    have hend : run execRenewal st (pre ++ t :: mid ++ [u]) =
        execRenewal (run execRenewal st (pre ++ t :: mid)) u := run_concat
    rw [total_concat,← List.cons_append,← List.append_assoc,hend,hwhole]
    rw [hwhole] at hlast
    exact within_step (keyed_run hst _) hbefore (hhonest.2 u (List.mem_singleton_self u)) hlast
      fun record auth hrecord husable => ((live_run hst hleaves.1).fresh record auth hrecord husable).2.1

theorem total_le (hst : Ungranted st) (token : Address) (hhonest : ∀ u ∈ mid, Honest u.env.host)
    (hleaves : ∀ x ∈ steps execRenewal st (pre ++ t :: mid), x.2.leavesNone x.1 = true)
    (henable : t.Performs (run execRenewal st pre)
      (.enableAutoRenewal consumer coin planDuration limit periods))
    (hno : ∀ x ∈ steps execRenewal (run execRenewal st (pre ++ [t])) mid,
      ¬Enables consumer x.1 x.2) :
    total token consumer (run execRenewal st (pre ++ [t])) mid ≤ periods * limit := by
  obtain ⟨-,hlimit,record,-,-,-,hused,htaken⟩ :=
    within_run hst token hhonest hleaves henable hno
  refine htaken.trans (Int.mul_le_mul_of_nonneg_right ?_ hlimit.le)
  exact Int.ofNat_le.2 hused

end Runs

/-- In a run with honest tokens whose renewals make no stored authorization usable for the next
period: what is taken from a consumer for one grant is bounded by its periods and its amount for
each; every renewal uses an authorization that the consumer issued for the period after the last
grant and the last renewal; and nothing is taken after a revocation until the next grant. -/
theorem renewals_bounded (st : Store) (hst : Ungranted st) (ts : List RenewalTx)
    (hhonest : ∀ t ∈ ts, Honest t.env.host)
    (hleaves : ∀ x ∈ steps execRenewal st ts, x.2.leavesNone x.1 = true) (token consumer : Address) :
    (∀ pre t mid post coin planDuration limit (periods : Nat), ts = pre ++ t :: mid ++ post →
      t.Performs (run execRenewal st pre)
        (.enableAutoRenewal consumer coin planDuration limit periods) →
      (∀ x ∈ steps execRenewal (run execRenewal st (pre ++ [t])) mid, ¬Enables consumer x.1 x.2) →
      total token consumer (run execRenewal st (pre ++ [t])) mid ≤ periods * limit) ∧
    (∀ pre t post record auth, ts = pre ++ t :: post →
      PullsBy consumer record auth (run execRenewal st pre) t →
      auth.periodId = record.nextRenewalTimestamp ∧ Issued consumer auth st pre) ∧
    (∀ pre t mid u post, ts = pre ++ t :: mid ++ u :: post →
      Revokes consumer (run execRenewal st pre) t →
      (∀ x ∈ steps execRenewal (run execRenewal st (pre ++ [t])) mid, ¬Enables consumer x.1 x.2) →
      ¬Pulls consumer (run execRenewal st (pre ++ t :: mid)) u) := by
  refine ⟨?_,?_,?_⟩
  · rintro pre t mid post coin planDuration limit periods rfl henable hno
    rw [steps_append,List.forall_mem_append] at hleaves
    refine total_le hst token (fun u hu => hhonest u ?_) hleaves.1 henable hno
    exact List.mem_append_left _ (List.mem_append_right _ (List.mem_cons_of_mem t hu))
  · rintro pre t post record auth rfl ⟨-,expiry,hchecked⟩
    rw [steps_append,List.forall_mem_append] at hleaves
    obtain ⟨hrecord,-,husable⟩ := checkRenewal_ok hchecked
    obtain ⟨hperiod,-,hissued⟩ := (live_run hst hleaves.1).fresh record auth hrecord husable
    exact ⟨hperiod,hissued⟩
  · rintro pre t mid u post rfl hrevokes hno
    have hkeyed := keyed_run hst pre
    have hinactive := inactive_of_revokes hkeyed hrevokes
    have hend : run execRenewal st (pre ++ t :: mid) =
        run execRenewal (execRenewal (run execRenewal st pre) t) mid := by
      rw [run_append,run_cons]
    rw [run_concat] at hno
    rw [hend]
    exact not_pulls_of_inactive (inactive_run (keyed_step hkeyed t) hinactive hno).2

theorem honest_checksumHost : Honest checksumHost := by
  intro token spender owner recipient amount b b' h
  change honestTransfer token owner recipient amount b = some b' at h
  unfold honestTransfer at h
  split_ifs at h
  exact (Option.some.inj h).symm

/-- A subscriber with a balance and a long expiry. -/
def subscribed : Store where
  config := { admin := some 1 }
  custody := { balance := fun token holder => if token = 3 ∧ holder = 7 then 1000 else 0 }
  subscriptions := { expiry := fun a => if a = 7 then some 100000 else none }

def signed (timestamp : Nat) (signers : List Address) (call : RenewalCall) : RenewalTx :=
  ⟨.concrete 5 timestamp signers, .call call⟩

/-- A grant of three periods at the plan's price, and one period of it. -/
def firstGrant : List RenewalTx :=
  [signed 100 [1] (.setSubscriptionPrice 10 100),
    signed 100 [7] (.enableAutoRenewal 7 3 10 100 3),
    signed 100 [7] (.authorizeRenewal 7 100 1), signed 100 [] (.tryAutoRenew 7)]

def twoPeriods : List RenewalTx :=
  firstGrant ++ [signed 110 [7] (.authorizeRenewal 7 110 3), signed 110 [] (.tryAutoRenew 7),
    signed 115 [7] (.disableAutoRenewal 7)]

theorem twoPeriods_bounded :
    (∀ pre t mid post coin planDuration limit (periods : Nat),
      twoPeriods = pre ++ t :: mid ++ post → t.Performs (run execRenewal subscribed pre)
        (.enableAutoRenewal 7 coin planDuration limit periods) →
      (∀ x ∈ steps execRenewal (run execRenewal subscribed (pre ++ [t])) mid,
        ¬Enables 7 x.1 x.2) →
      total 3 7 (run execRenewal subscribed (pre ++ [t])) mid ≤ periods * limit) ∧
    (∀ pre t post record auth, twoPeriods = pre ++ t :: post →
      PullsBy 7 record auth (run execRenewal subscribed pre) t →
      auth.periodId = record.nextRenewalTimestamp ∧ Issued 7 auth subscribed pre) ∧
    (∀ pre t mid u post, twoPeriods = pre ++ t :: mid ++ u :: post →
      Revokes 7 (run execRenewal subscribed pre) t →
      (∀ x ∈ steps execRenewal (run execRenewal subscribed (pre ++ [t])) mid,
        ¬Enables 7 x.1 x.2) →
      ¬Pulls 7 (run execRenewal subscribed (pre ++ t :: mid)) u) :=
  renewals_bounded subscribed ⟨rfl,rfl⟩ twoPeriods
    (fun t ht => by
      simp only [twoPeriods,firstGrant,signed,List.cons_append,List.nil_append,List.mem_cons,
        List.not_mem_nil,or_false] at ht
      rcases ht with rfl | rfl | rfl | rfl | rfl | rfl | rfl <;> exact honest_checksumHost)
    (by decide) 3 7

/-- The consumer lowers the limit to one, and signs once more; an authorization of the old grant
for the second period takes a hundred. -/
def regrant : List RenewalTx :=
  firstGrant ++ [signed 100 [7] (.authorizeRenewal 7 110 5),
    signed 100 [7] (.enableAutoRenewal 7 3 10 1 3), signed 100 [7] (.authorizeRenewal 7 100 4),
    signed 100 [] (.tryAutoRenew 7), signed 110 [] (.tryAutoRenew 7)]

theorem regrant_takes_more :
    (run execRenewal subscribed (regrant.take 6)).subscriptions.record 7 =
      some ⟨7, 3, 10, 1, 3, 0, 0, 100, true, false⟩ ∧
    total 3 7 (run execRenewal subscribed (regrant.take 6)) (regrant.drop 6) = 101 ∧
    pulled 3 7 (run execRenewal subscribed (regrant.take 8)) (signed 110 [] (.tryAutoRenew 7)) =
      100 := by
  decide

end PriceOracle.AutoRenewal
