import PriceOracle.Custody.Operations
import PriceOracle.Submissions.Paths

/-! # Challenges of relayed submissions

A submission is relayed only under an approval or a delegation that is valid at that moment. A
challenge asks for one that is valid when it is made, so it slashes relayers for submissions that
were authorized, and relayers without any. -/

namespace PriceOracle.Custody

open Model Lib.Transaction Lib.Run Aggregation

section Relaying

/-- The approvals, the delegations and the ledger they are read at. -/
structure SameApproval (w w' : World) : Prop where
  env : w'.env = w.env
  approved : w'.store.config.approvedRelayer = w.store.config.approvedRelayer
  expiry : w'.store.relayers.delegationExpiry = w.store.relayers.delegationExpiry

instance : Std.Refl SameApproval := ⟨fun _ => ⟨rfl, rfl, rfl⟩⟩

instance : IsTrans World SameApproval :=
  ⟨fun _ _ _ h h' => ⟨h'.env.trans h.env, h'.approved.trans h.approved, h'.expiry.trans h.expiry⟩⟩

variable {w w' : World} {α : Type} {T : List Region} (relayer : Address)

theorem SameApproval.validAuth (h : SameApproval w w') (source relayer : Address) :
    w'.store.validAuth w'.env source relayer = w.store.validAuth w.env source relayer := by
  unfold Store.validAuth Store.isRelayer Store.hasValidRelayerDelegation
  rw [h.env,h.approved,h.expiry]

theorem sameApproval_of_agree (hT : .env ∉ T ∧ .config ∉ T ∧ .relayers ∉ T)
    (h : layout.agreeOff T w w') : SameApproval w w' := by
  have hconfig : w'.store.config = w.store.config := h .config hT.2.1
  have hrelayers : w'.store.relayers = w.store.relayers := h .relayers hT.2.2
  exact ⟨h .env hT.1,by rw [hconfig],by rw [hrelayers]⟩

theorem sameApproval_frame {m : Contract α} (hm : Frame T m)
    (hT : .env ∉ T ∧ .config ∉ T ∧ .relayers ∉ T) : Preserves SameApproval m :=
  hm.weaken fun _ _ => sameApproval_of_agree hT

theorem sameApproval_rounds : RespectsRounds SameApproval where
  quiet _ _ := sameApproval_of_agree (by decide)
  commit asset decimals recompute d w _ :=
    sameApproval_frame (commitRound_frame asset w.env.sequence decimals recompute d) (by decide) w

theorem requireAuth_keeps (a : Address) : Preserves SameApproval (requireAuth a) :=
  sameApproval_frame (requireAuth_frame a) (by decide)

theorem accrueRelayerSubmissionMetrics_keeps (priorityFee : Nat) :
    Preserves SameApproval (accrueRelayerSubmissionMetrics relayer priorityFee) := by
  intro w
  exact (sat_update _ _).2 ⟨rfl,rfl,rfl⟩

theorem processRelayedLeg_keeps (x : RelayedSubmission) :
    Preserves SameApproval (processRelayedLeg relayer x) := by
  have hrelayer : Frame [] (checkRelayer relayer x.source) :=
    .read fun _ => .check fun _ => .read fun _ => .read fun _ => preserves_ensure _ _
  have hsuspended : Frame [] (checkNotSuspended x.source .notAuthorized) :=
    (isSourceSuspended_frame x.source).bind fun _ => preserves_ensure _ _
  have hmin : Frame [] (checkMinPrice x.asset x.price) :=
    (getMinPrice_frame x.asset).bind fun _ => preserves_ensure _ _
  have hrecord : Frame [.stats] (recordSuccessfulSubmission x.source) :=
    Preserves.bind (.read fun _ => .read fun _ => modifyStats_frame _) fun _ => modifyStats_frame _
  have hstore : Frame [.submissions] (storeSubmission x.asset x.source x.price x.timestamp none) :=
    .read fun _ => writeSubmission_frame _ _ _
  apply (sameApproval_frame hrelayer (by decide)).bind
  intro _
  apply (sameApproval_frame (checkSource_frame (T := []) x.source) (by decide)).bind
  intro _
  apply (sameApproval_frame (checkRegisteredAsset_frame (T := []) x.asset) (by decide)).bind
  intro _
  apply (sameApproval_frame (checkSourceAsset_frame (T := []) x.source x.asset) (by decide)).bind
  intro _
  apply (sameApproval_frame hsuspended (by decide)).bind
  intro _
  apply (sameApproval_frame (Submissions.checkPositive_frame (T := [])) (by decide)).bind
  intro _
  apply (sameApproval_frame hmin (by decide)).bind
  intro _
  apply (sameApproval_frame (Submissions.checkTimestamp_frame (T := []) x.timestamp)
    (by decide)).bind
  intro _
  apply Preserves.read
  intro tripped
  split_ifs
  · exact preserves_pure _
  · apply (sameApproval_frame hstore (by decide)).bind
    intro _
    apply (sameApproval_frame hrecord (by decide)).bind
    intro _
    apply (doAggregate_preserves sameApproval_rounds x.asset).bind
    intro _
    exact accrueRelayerSubmissionMetrics_keeps relayer x.priorityFee

/-- A leg is processed only under an approval or a delegation that is valid. -/
theorem processRelayedLeg_authorized (x : RelayedSubmission) :
    Sat (processRelayedLeg relayer x) w fun _ _ =>
      w.store.validAuth w.env x.source relayer = true := by
  have hcheck : Sat (checkRelayer relayer x.source) w fun _ _ =>
      w.store.validAuth w.env x.source relayer = true := by
    simp only [checkRelayer,sat_bind,sat_readStore,sat_ensure]
    intro happroved _
    exact happroved
  unfold processRelayedLeg
  rw [sat_bind]
  exact hcheck.mono fun _ _ h _ _ _ => h

theorem submitPriceRelayed_authorized (relayer source asset : Address) (price : Int)
    (timestamp : Nat) :
    Sat (submitPriceRelayed relayer source asset price timestamp) w fun _ _ =>
      w.store.validAuth w.env source relayer = true := by
  simp only [submitPriceRelayed,checkNotPaused,sat_bind,sat_readStore,sat_ensure,sat_requireAuth]
  intro _ _ _
  exact processRelayedLeg_authorized relayer ⟨source,asset,price,timestamp,0⟩

theorem submitPricesRelayed_authorized (submissions : List RelayedSubmission) :
    Sat (submitPricesRelayed relayer submissions) w fun _ _ =>
      ∀ x ∈ submissions, w.store.validAuth w.env x.source relayer = true := by
  simp only [submitPricesRelayed,checkNotPaused,sat_bind,sat_readStore,sat_ensure,sat_requireAuth]
  intro _ _ _ _ _ _
  refine (sat_forM_all (I := SameApproval w) (P := fun x : RelayedSubmission =>
    w.store.validAuth w.env x.source relayer = true) (fun x _ t ht => ?_) ?_).mono
      fun _ _ h => h.2
  · rw [sat_bind]
    refine ((requireAuth_keeps x.source).from ht).mono fun _ u hu => ?_
    refine ((processRelayedLeg_keeps relayer x).from hu).and ?_
    refine (processRelayedLeg_authorized relayer x).mono fun _ _ h => ?_
    rwa [← hu.validAuth]
  · exact ⟨rfl,rfl,rfl⟩

end Relaying

inductive RelayerCall
  | addRelayer (relayer : Address)
  | removeRelayer (relayer : Address)
  | delegateRelayer (source relayer : Address) (nonce expirationLedger : Nat) (signature : Bytes)
  | submitPriceRelayed (relayer source asset : Address) (price : Int) (timestamp : Nat)
  | submitPricesRelayed (relayer : Address) (submissions : List RelayedSubmission)
  | depositRelayerBond (relayer : Address)
  | withdrawRelayerBond (relayer : Address)
  | recordRelayerFailure (relayer : Address)
  | slashRelayer (relayer : Address) (force : Bool)
  | challengeRelayedSubmission (challenger relayer source asset : Address) (price : Int)
    (timestamp : Nat) (proofData : Bytes)

def RelayerCall.body : RelayerCall → Contract Unit
  | addRelayer relayer => Model.addRelayer relayer
  | removeRelayer relayer => Model.removeRelayer relayer
  | delegateRelayer source relayer nonce expirationLedger signature =>
    Model.delegateRelayer source relayer nonce expirationLedger signature
  | submitPriceRelayed relayer source asset price timestamp =>
    Model.submitPriceRelayed relayer source asset price timestamp
  | submitPricesRelayed relayer submissions => Model.submitPricesRelayed relayer submissions
  | depositRelayerBond relayer => Model.depositRelayerBond relayer
  | withdrawRelayerBond relayer => Model.withdrawRelayerBond relayer
  | recordRelayerFailure relayer => Model.recordRelayerFailure relayer
  | slashRelayer relayer force => Model.slashRelayer relayer force
  | challengeRelayedSubmission challenger relayer source asset price timestamp proofData =>
    Model.challengeRelayedSubmission challenger relayer source asset price timestamp proofData

/-- The call relays a submission of the source for the asset. -/
def RelayerCall.Relays (relayer source asset : Address) : RelayerCall → Prop
  | submitPriceRelayed r s a _ _ => r = relayer ∧ s = source ∧ a = asset
  | submitPricesRelayed r submissions =>
    r = relayer ∧ ∃ x ∈ submissions, x.source = source ∧ x.asset = asset
  | _ => False

/-- A call, or any other change of the storage. -/
inductive RelayerAct
  | call (call : RelayerCall)
  | elsewhere (rest : Store)

structure RelayerTx where
  env : Env
  act : RelayerAct

def execRelayer (st : Store) (t : RelayerTx) : Store :=
  match t.act with
  | .call call => invoke call.body t.env st
  | .elsewhere rest => rest

/-- The step stores a relayed submission of the source for the asset while the relayer is neither
approved nor covered by a delegation of the source that has not expired. -/
def StoredUnauthorized (relayer source asset : Address) (s : Store) (t : RelayerTx) : Prop :=
  ∃ call, t.act = .call call ∧ call.Relays relayer source asset ∧
    Model.failure call.body t.env s = none ∧
    (∃ x ∈ (effects call.body t.env s).submissions, x.source = source ∧ x.asset = asset) ∧
    s.validAuth t.env source relayer = false

/-- No relayed submission is ever stored without an authorization. -/
theorem not_storedUnauthorized (relayer source asset : Address) (s : Store) (t : RelayerTx) :
    ¬StoredUnauthorized relayer source asset s t := by
  rintro ⟨call,-,hrelays,hrun,-,hinvalid⟩
  have hvalid : s.validAuth t.env source relayer = true := by
    cases call with
    | submitPriceRelayed r source' asset' price timestamp =>
      obtain ⟨rfl,rfl,rfl⟩ := hrelays
      exact invoke_of_success (Q := fun _ => s.validAuth t.env source' r = true) hrun
        (submitPriceRelayed_authorized r source' asset' price timestamp)
    | submitPricesRelayed r submissions =>
      obtain ⟨rfl,x,hx,rfl,rfl⟩ := hrelays
      have hall := invoke_of_success (Q := fun _ => ∀ x ∈ submissions,
        s.validAuth t.env x.source r = true) hrun (submitPricesRelayed_authorized r submissions)
      exact hall x hx
    | _ => exact hrelays.elim
  rw [hvalid] at hinvalid
  cases hinvalid

section Challenge

variable {env : Env} {st : Store} {challenger relayer source asset : Address} {price : Int}
  {timestamp : Nat} {proofData : Bytes} {w u : World}

/-- Everything a challenge checks beside the authorization of the relayer. -/
structure Challengeable (st : Store) (relayer source asset : Address) (proofData : Bytes) :
    Prop where
  active : (st.registry.srcActive source).getD false = true
  bonded : ¬(0 < st.getSourceBond ∧ st.getSourceDepositedBond source < st.getSourceBond)
  registered : st.isRegisteredAsset asset = true
  allowed : st.sourceAllowed source asset = true
  proof : proofData ≠ []
  bond : 0 < st.getRelayerBondBalance relayer

theorem slashAmount_pos (percent : Nat) {amount : Int} (h : 0 < amount) :
    0 < slashAmount percent amount := by
  unfold slashAmount
  omega

/-- What a challenge reads after its checks is what it was called with. -/
structure SameReads (w u : World) : Prop where
  env : u.env = w.env
  flags : u.store.flags = w.store.flags
  gates : u.store.gates = w.store.gates
  config : u.store.config = w.store.config
  relayers : u.store.relayers = w.store.relayers
  custody : u.store.custody = w.store.custody

theorem sameReads_of_agree (h : layout.agreeOff [] w u) : SameReads w u :=
  ⟨h .env (by simp),h .flags (by simp),h .gates (by simp),h .config (by simp),
    h .relayers (by simp),h .custody (by simp)⟩

theorem SameReads.sourceAllowed (h : SameReads w u) :
    u.store.sourceAllowed source asset = w.store.sourceAllowed source asset := by
  unfold Store.sourceAllowed Store.on
  rw [h.flags,h.gates]

theorem SameReads.validAuth (h : SameReads w u) :
    u.store.validAuth u.env source relayer = w.store.validAuth w.env source relayer := by
  unfold Store.validAuth Store.isRelayer Store.hasValidRelayerDelegation
  rw [h.env,h.config,h.relayers]

theorem SameReads.bond (h : SameReads w u) :
    u.store.getRelayerBondBalance relayer = w.store.getRelayerBondBalance relayer := by
  unfold Store.getRelayerBondBalance
  rw [h.relayers]

/-- What a challenge that succeeds has checked, and what it does to the bonds. -/
theorem challenge_sat (challenger : Address) (price : Int) (timestamp : Nat) {w : World} :
    Sat (Model.challengeRelayedSubmission challenger relayer source asset price timestamp proofData)
      w fun _ w' => Challengeable w.store relayer source asset proofData ∧
        w.store.validAuth w.env source relayer = false ∧
        w'.store.relayers.bond = Function.update w.store.relayers.bond relayer
          (some (w.store.getRelayerBondBalance relayer -
            slashAmount w.store.getRelayerSlashPercent (w.store.getRelayerBondBalance relayer))) := by
  simp only [Model.challengeRelayedSubmission,checkSource,sat_bind,sat_readStore,sat_ensure]
  intro hactive hbonded
  refine (checkRegisteredAsset_sat asset w).mono ?_
  rintro _ u ⟨hregistered,hagree⟩
  have hu := sameReads_of_agree hagree
  simp only [checkSourceAsset,sat_bind,sat_readStore,sat_ensure,hu.sourceAllowed,hu.validAuth,
    hu.bond]
  intro hallowed hinvalid hproof hbond
  simp only [writeRelayerBond,modifyRelayers,creditTreasury,creditChallenger,sat_update,
    modifyCustody]
  have hbonds : Function.update u.store.relayers.bond relayer
      (some (w.store.getRelayerBondBalance relayer -
        slashAmount u.store.getRelayerSlashPercent (w.store.getRelayerBondBalance relayer))) =
      Function.update w.store.relayers.bond relayer
        (some (w.store.getRelayerBondBalance relayer -
          slashAmount w.store.getRelayerSlashPercent (w.store.getRelayerBondBalance relayer))) := by
    unfold Store.getRelayerSlashPercent
    rw [hu.relayers,hu.custody]
  have hchallenge : Challengeable w.store relayer source asset proofData :=
    ⟨hactive,hbonded,hregistered,hallowed,hproof,hbond⟩
  -- A relayer without an authorization is not approved, so no failure is recorded.
  refine sat_ite _ (fun happroved => ?_) fun _ => (sat_pure _).2 ⟨hchallenge,hinvalid,hbonds⟩
  have hrelayer : w.store.isRelayer relayer = true := by
    unfold Store.isRelayer at happroved ⊢
    rw [← hu.config]
    exact happroved
  simp [Store.validAuth,hrelayer] at hinvalid

/-- A challenge that passes its checks succeeds. -/
theorem challenge_fails (challenger : Address) (price : Int) (timestamp : Nat) {w : World}
    (h : Challengeable w.store relayer source asset proofData)
    (hinvalid : w.store.validAuth w.env source relayer = false) :
    Fails (Model.challengeRelayedSubmission challenger relayer source asset price timestamp
      proofData) w fun _ _ => False := by
  simp only [Model.challengeRelayedSubmission,checkSource,fails_bind,sat_bind,fails_readStore,
    sat_readStore,fails_ensure,sat_ensure]
  refine ⟨⟨trivial,fun hno => hno h.active,fun _ => ⟨trivial,trivial,fun hno => hno h.bonded⟩⟩,
    fun _ _ => ⟨(checkRegisteredAsset_fails asset w).mono fun _ _ hunknown => ?_,?_⟩⟩
  · rw [h.registered] at hunknown
    cases hunknown.2
  · refine (checkRegisteredAsset_sat asset w).mono ?_
    rintro _ u ⟨_,hagree⟩
    have hu := sameReads_of_agree hagree
    simp only [checkSourceAsset,writeRelayerBond,modifyRelayers,creditTreasury,
      creditChallenger,fails_bind,sat_bind,fails_readStore,sat_readStore,fails_ensure,
      sat_ensure,fails_update,sat_update,modifyCustody,hu.sourceAllowed,hu.validAuth,hu.bond,
      true_and]
    refine ⟨fun hno => hno h.allowed,fun _ => ⟨fun hno => hno hinvalid,fun _ =>
      ⟨fun hno => hno h.proof,fun _ => ⟨fun hno => hno h.bond,fun _ => ?_⟩⟩⟩⟩
    have hnot : u.store.isRelayer relayer = false := by
      rw [← hu.validAuth] at hinvalid
      unfold Store.validAuth at hinvalid
      rw [Bool.or_eq_false_iff] at hinvalid
      exact hinvalid.1
    split_ifs with happroved
    · exact absurd (hnot.symm.trans happroved) (by decide)
    · exact fails_pure _

/-- A challenge takes from the bond of the relayer it names exactly if it passes its checks and the
relayer is not authorized at that moment. -/
theorem challenge_reduces_iff (price : Int) (timestamp : Nat) (r : Address) :
    (invoke (Model.challengeRelayedSubmission challenger relayer source asset price timestamp
        proofData) env st).getRelayerBondBalance r < st.getRelayerBondBalance r ↔
      r = relayer ∧ Challengeable st relayer source asset proofData ∧
        st.validAuth env source relayer = false := by
  constructor
  · intro hless
    rcases invoke_cases (challenge_sat challenger price timestamp (w := World.enter env st)) with
      ⟨-,hsame,-⟩ | ⟨-,w,⟨hchallenge,hinvalid,hbonds⟩,hw,-⟩
    · rw [hsame] at hless
      exact absurd hless (lt_irrefl _)
    · refine ⟨?_,hchallenge,hinvalid⟩
      by_contra hr
      rw [← hw] at hless
      unfold Store.getRelayerBondBalance at hless
      rw [hbonds,Function.update_of_ne hr] at hless
      exact absurd hless (lt_irrefl _)
  · rintro ⟨rfl,hchallenge,hinvalid⟩
    rcases invoke_cases (challenge_sat challenger price timestamp (w := World.enter env st)) with
      ⟨hfail,-,-⟩ | ⟨-,w,⟨-,-,hbonds⟩,hw,-⟩
    · obtain ⟨e,he⟩ := Option.ne_none_iff_exists'.1 hfail
      exact (failure_of_fails he (challenge_fails challenger price timestamp
        (w := World.enter env st) hchallenge hinvalid)).elim
    · rw [← hw]
      have hslash := slashAmount_pos st.getRelayerSlashPercent hchallenge.bond
      have hbond : w.store.getRelayerBondBalance r = st.getRelayerBondBalance r -
          slashAmount st.getRelayerSlashPercent (st.getRelayerBondBalance r) := by
        rw [Store.getRelayerBondBalance,hbonds,Function.update_self]
        rfl
      omega

end Challenge

/-- In the run, a challenge takes from a bond only if the relayer had stored a submission of that
source for that asset without an authorization. -/
def ChallengesJustified (st : Store) (ts : List RelayerTx) : Prop :=
  ∀ past x later, steps execRelayer st ts = past ++ x :: later →
    ∀ challenger relayer source asset price timestamp proofData,
      x.2.act = .call (.challengeRelayedSubmission challenger relayer source asset price timestamp
        proofData) →
      ∀ r, (execRelayer x.1 x.2).getRelayerBondBalance r < x.1.getRelayerBondBalance r →
        ∃ y ∈ past, StoredUnauthorized r source asset y.1 y.2

/-- A challenge that passes its other checks is of a relayer that is authorized when it is made. -/
def AuthorizedWhenChallenged (s : Store) (t : RelayerTx) : Prop :=
  ∀ challenger relayer source asset price timestamp proofData,
    t.act = .call (.challengeRelayedSubmission challenger relayer source asset price timestamp
      proofData) →
    Challengeable s relayer source asset proofData → s.validAuth t.env source relayer = true

/-- A run is free of unjustified slashes exactly if its challenges meet authorized relayers. -/
theorem challenges_justified_iff (st : Store) (ts : List RelayerTx) :
    ChallengesJustified st ts ↔
      ∀ x ∈ steps execRelayer st ts, AuthorizedWhenChallenged x.1 x.2 := by
  constructor
  · intro h x hx challenger relayer source asset price timestamp proofData hact hchallenge
    obtain ⟨past,later,hsplit⟩ := List.append_of_mem hx
    by_contra hinvalid
    rw [Bool.not_eq_true] at hinvalid
    have hless : (execRelayer x.1 x.2).getRelayerBondBalance relayer <
        x.1.getRelayerBondBalance relayer := by
      unfold execRelayer
      rw [hact]
      exact (challenge_reduces_iff price timestamp relayer).2 ⟨rfl,hchallenge,hinvalid⟩
    obtain ⟨y,-,hy⟩ := h past x later hsplit challenger relayer source asset price timestamp
      proofData hact relayer hless
    exact not_storedUnauthorized relayer source asset y.1 y.2 hy
  · intro h past x later hsplit challenger relayer source asset price timestamp proofData hact r
      hless
    have hx : x ∈ steps execRelayer st ts := by
      rw [hsplit]
      simp
    unfold execRelayer at hless
    rw [hact] at hless
    obtain ⟨-,hchallenge,hinvalid⟩ := (challenge_reduces_iff price timestamp r).1 hless
    have hvalid := h x hx challenger relayer source asset price timestamp proofData hact hchallenge
    rw [hinvalid] at hvalid
    cases hvalid

/-- Source 5 is active and asset 10 registered; relayers post a bond of 1000 in token 20. -/
def relayerStore : Store where
  config := { admin := some 9, relayerBondAmount := some 1000, minSources := some 2 }
  registry := {
    assetRegistered := fun a => if a = 10 then some true else none
    assets := [10]
    sources := [5]
    srcActive := fun a => if a = 5 then some true else none }
  custody := { stakeToken := some 20, balance := fun _ _ => 5000 }

/-- The relayer is approved while it relays, and challenged once its approval is withdrawn. -/
def revokedRun : List RelayerTx :=
  [⟨.concrete 100 50 [9], .call (.addRelayer 4)⟩,
    ⟨.concrete 101 51 [4], .call (.depositRelayerBond 4)⟩,
    ⟨.concrete 102 52 [4, 5], .call (.submitPriceRelayed 4 5 10 700 52)⟩,
    ⟨.concrete 103 53 [9], .call (.removeRelayer 4)⟩,
    ⟨.concrete 104 54 [], .call (.challengeRelayedSubmission 6 4 5 10 700 52 [1])⟩]

/-- What was relayed is stored, and the bond is cut all the same. -/
theorem authorized_relayer_slashed :
    ((run execRelayer relayerStore (revokedRun.take 3)).submission (10, 5)).isSome = true ∧
      ¬ChallengesJustified relayerStore revokedRun := by
  refine ⟨by decide,fun h => ?_⟩
  obtain ⟨past,later,hsplit⟩ := List.append_of_mem (show
    (run execRelayer relayerStore (revokedRun.take 4),revokedRun[4]) ∈
      steps execRelayer relayerStore revokedRun by simp [revokedRun])
  obtain ⟨y,-,hy⟩ := h past _ later hsplit 6 4 5 10 700 52 [1] rfl 4 (by decide)
  exact not_storedUnauthorized 4 5 10 y.1 y.2 hy

end PriceOracle.Custody
