import PriceOracle.Custody.Operations

/-! # Solvency

The balance of the stake token backs everything the contract owes, as long as stakes are paid in
that token and no challenge pays a reward beside what it moves to the treasury. -/

namespace PriceOracle.Custody

open Model Lib.Transaction Lib.MachineInt Lib.Backing Lib.Run

inductive CustodyCall
  | stakeSource (source : Address) (amount : Int) (token : Address)
  | unstakeSource (source : Address)
  | slashSource (source : Address) (force : Bool)
  | sweepTreasury (recipient : Address)
  | depositSourceBond (source : Address)
  | forfeitSourceBond (source : Address)
  | isSourceInactive (source : Address)
  | removeSource (source : Address)
  | slashExpiredCommits (asset source : Address) (roundLedger : Nat)
  | depositRelayerBond (relayer : Address)
  | withdrawRelayerBond (relayer : Address)
  | slashRelayer (relayer : Address) (force : Bool)
  | challengeRelayedSubmission (challenger relayer source asset : Address) (price : Int)
    (timestamp : Nat) (proofData : Bytes)

def CustodyCall.body : CustodyCall → Contract Unit
  | stakeSource source amount token => Model.stakeSource source amount token
  | unstakeSource source => Model.unstakeSource source
  | slashSource source force => Model.slashSource source force
  | sweepTreasury recipient => Model.sweepTreasury recipient
  | depositSourceBond source => Model.depositSourceBond source
  | forfeitSourceBond source => forfeitSourceBondInternal source
  | isSourceInactive source => do
    let _ ← Model.isSourceInactive source
    pure ()
  | removeSource source => removeSourceInner source
  | slashExpiredCommits asset source roundLedger =>
    Model.slashExpiredCommits asset source roundLedger
  | depositRelayerBond relayer => Model.depositRelayerBond relayer
  | withdrawRelayerBond relayer => Model.withdrawRelayerBond relayer
  | slashRelayer relayer force => Model.slashRelayer relayer force
  | challengeRelayedSubmission challenger relayer source asset price timestamp proofData =>
    Model.challengeRelayedSubmission challenger relayer source asset price timestamp proofData

/-- A call, or a change elsewhere: it leaves the five ledgers and the stake token as they are and
takes none of that token from the contract. -/
inductive CustodyAct
  | call (call : CustodyCall)
  | elsewhere (rest : Store)

structure CustodyTx where
  env : Env
  act : CustodyAct

def execCustody (st : Store) (t : CustodyTx) : Store :=
  match t.act with
  | .call call => invoke call.body t.env st
  | .elsewhere rest =>
    { rest with
      registry := { rest.registry with sourceBond := st.registry.sourceBond }
      relayers := { rest.relayers with bond := st.relayers.bond }
      treasury := st.treasury
      custody := { rest.custody with
        stakeToken := st.custody.stakeToken
        stake := st.custody.stake
        challengerRewards := st.custody.challengerRewards
        balance := fun token holder =>
          if st.custody.stakeToken = some token ∧ holder = t.env.host.contractAddress then
            max (rest.custody.balance token holder) (st.custody.balance token holder)
          else rest.custody.balance token holder } }

/-- The amounts that a change elsewhere writes are words. -/
def CustodyTx.Typed (t : CustodyTx) : Prop :=
  ∀ rest, t.act = .elsewhere rest → rest.getSourceBond ≤ i128Max ∧
    rest.getRelayerBondAmount ≤ i128Max ∧ ∀ token holder, rest.custody.balance token holder ≤ i128Max

/-- A stake is paid in the stake token, and a challenge is of a bond too small for a reward. -/
def NoUnbackedCredit (s : Store) (t : CustodyTx) : Prop :=
  match t.act with
  | .call (.stakeSource source amount token) =>
    Model.failure (Model.stakeSource source amount token) t.env s = none →
      s.custody.stakeToken = some token
  | .call (.challengeRelayedSubmission challenger relayer source asset price timestamp proofData) =>
    Model.failure (Model.challengeRelayedSubmission challenger relayer source asset price timestamp
      proofData) t.env s = none →
      s.getRelayerBondBalance relayer = 1 ∨
        wrapMul (s.getRelayerBondBalance relayer) s.getRelayerSlashPercent < 200
  | _ => True

/-- No finite set of accounts is owed more than the contract has of the stake token. -/
def Solvent (token contract : Address) (st : Store) : Prop :=
  ∀ accounts : Finset Account, ∑ x ∈ accounts, owed st x ≤ st.custody.balance token contract

section Steps

variable {token contract : Address} {st : Store}

/-- What every step keeps of the storage. -/
structure Kept (token contract : Address) (st : Store) : Prop where
  stakeToken : st.custody.stakeToken = some token
  backed : Backed (owed st) (st.custody.balance token contract)
  bounded : st.custody.balance token contract ≤ i128Max
  sourceBond : st.getSourceBond ≤ i128Max
  relayerBond : st.getRelayerBondAmount ≤ i128Max

theorem Kept.holds {env : Env} (h : Kept token contract st) (henv : Hosted token contract env) :
    Holds token contract 0 (books (World.enter env st)) where
  stakeToken := h.stakeToken
  hosted := henv
  backed := by
    rw [Int.sub_zero]
    exact h.backed
  bounded := h.bounded
  sourceBond := h.sourceBond
  relayerBond := h.relayerBond

theorem kept_of_holds {w : World} (h : Holds token contract 0 (books w)) :
    Kept token contract w.store where
  stakeToken := h.stakeToken
  backed := by
    have hbacked := h.backed
    rw [Int.sub_zero] at hbacked
    exact hbacked
  bounded := h.bounded
  sourceBond := h.sourceBond
  relayerBond := h.relayerBond

theorem call_holds {env : Env} (call : CustodyCall) (h : Kept token contract st)
    (henv : Hosted token contract env) (hsafe : NoUnbackedCredit st ⟨env,.call call⟩)
    (hrun : Model.failure call.body env st = none) :
    Sat call.body (World.enter env st) fun _ w => Holds token contract 0 (books w) := by
  have hholds := h.holds henv
  cases call with
  | stakeSource source amount paid =>
    have hpaid : st.custody.stakeToken = some paid := hsafe hrun
    rw [h.stakeToken,Option.some.injEq] at hpaid
    subst hpaid
    exact stakeSource_holds hholds source amount
  | unstakeSource source => exact unstakeSource_holds hholds source
  | slashSource source force => exact slashSource_holds hholds source force
  | sweepTreasury recipient => exact sweepTreasury_holds hholds recipient
  | depositSourceBond source => exact depositSourceBond_holds hholds source
  | forfeitSourceBond source => exact forfeitSourceBondInternal_holds hholds source
  | isSourceInactive source =>
    exact (sat_bind _ _).2 ((isSourceInactive_holds hholds source).mono fun _ _ hw =>
      (sat_pure _).2 hw)
  | removeSource source => exact removeSourceInner_holds hholds source
  | slashExpiredCommits asset source roundLedger =>
    exact slashExpiredCommits_holds hholds asset source roundLedger
  | depositRelayerBond relayer => exact depositRelayerBond_holds hholds relayer
  | withdrawRelayerBond relayer => exact withdrawRelayerBond_holds hholds relayer
  | slashRelayer relayer force => exact slashRelayer_holds hholds relayer force
  | challengeRelayedSubmission challenger relayer source asset price timestamp proofData =>
    exact challenge_holds hholds price timestamp (hsafe hrun)

theorem execCustody_kept {t : CustodyTx} (h : Kept token contract st)
    (henv : Hosted token contract t.env) (htyped : t.Typed) (hsafe : NoUnbackedCredit st t) :
    Kept token contract (execCustody st t) := by
  obtain ⟨env,act⟩ := t
  cases act with
  | call call =>
    change Kept token contract (invoke call.body env st)
    cases hrun : Model.failure call.body env st with
    | some e =>
      rw [invoke_of_failure hrun]
      exact h
    | none =>
      exact invoke_of_success hrun ((call_holds call h henv hsafe hrun).mono fun _ _ hw =>
        kept_of_holds hw)
  | elsewhere rest =>
    obtain ⟨hsource,hrelayer,hbalance⟩ := htyped rest rfl
    have hcontract : env.host.contractAddress = contract := henv.contractAddress
    have hfunds : (execCustody st ⟨env,.elsewhere rest⟩).custody.balance token contract =
        max (rest.custody.balance token contract) (st.custody.balance token contract) :=
      if_pos ⟨h.stakeToken,hcontract.symm⟩
    refine ⟨h.stakeToken,?_,?_,hsource,hrelayer⟩
    · refine Backed.relax h.backed h.backed.nonneg (fun _ => le_rfl) ?_
      rw [hfunds]
      exact le_max_right _ _
    · rw [hfunds]
      exact max_le (hbalance token contract) h.bounded

end Steps

/-- Whatever the callers do, the contract stays solvent while stakes are paid in the stake token and
challenges pay no reward. -/
theorem stays_solvent {token contract : Address} {st : Store} (ts : List CustodyTx)
    (hstart : Kept token contract st) (hhosts : ∀ t ∈ ts, Hosted token contract t.env)
    (htyped : ∀ t ∈ ts, t.Typed)
    (hsafe : ∀ x ∈ steps execCustody st ts, NoUnbackedCredit x.1 x.2) :
    ∀ x ∈ steps execCustody st ts, Solvent token contract (execCustody x.1 x.2) := by
  have hstep (s : Store) (t : CustodyTx) (h : Kept token contract s)
      (ht : (Hosted token contract t.env ∧ t.Typed) ∧ NoUnbackedCredit s t) :
      Solvent token contract (execCustody s t) ∧ Kept token contract (execCustody s t) := by
    have hkept := execCustody_kept h ht.1.1 ht.1.2 ht.2
    exact ⟨hkept.backed.covered,hkept⟩
  refine (steps_satisfy hstep hstart fun x hx => ⟨?_,hsafe x hx⟩).1
  have hmem := snd_mem_of_mem_steps hx
  exact ⟨hhosts x.2 hmem,htyped x.2 hmem⟩

section Runs

variable {token : Address}

theorem honest_checksumHost : Honest checksumHost token where
  moves := by
    intro sender recipient amount b b' h
    change honestTransfer token sender recipient amount b = some b' at h
    unfold honestTransfer at h
    split_ifs at h with hallowed
    exact ⟨hallowed.1,(Option.some.inj h).symm⟩
  spares := by
    intro other sender recipient amount b b' hne h
    change honestTransfer other sender recipient amount b = some b' at h
    unfold honestTransfer at h
    split_ifs at h
    rw [← Option.some.inj h,Balances.move,Function.update_of_ne hne.symm]
  bounded := by
    intro other sender recipient amount b b' h hbound
    change honestTransfer other sender recipient amount b = some b' at h
    unfold honestTransfer at h
    split_ifs at h with hallowed
    rw [← Option.some.inj h]
    by_cases hother : token = other
    · subst hother
      by_cases hrecipient : checksumHost.contractAddress = recipient
      · rw [hrecipient]
        exact hallowed.2.2
      · rw [Balances.move,Function.update_self,Function.update_of_ne hrecipient]
        by_cases hsender : checksumHost.contractAddress = sender
        · rw [hsender,Function.update_self]
          rw [hsender] at hbound
          omega
        · rw [Function.update_of_ne hsender]
          exact hbound
    · rw [Balances.move,Function.update_of_ne hother]
      exact hbound

theorem hosted_concrete {sequence timestamp : Nat} {signers : List Address}
    (h : signers.contains 0 = false) : Hosted token 0 (Env.concrete sequence timestamp signers) :=
  ⟨rfl,honest_checksumHost,h⟩

/-- Relayer 4 is approved, source 5 active and asset 10 registered; the contract is at address 0 and
has nothing of the stake token 20. -/
def custodyStore : Store where
  config := { admin := some 9, relayerBondAmount := some 1000, approvedRelayer := fun a => a == 4 }
  registry := {
    assetRegistered := fun a => if a = 10 then some true else none
    assets := [10]
    sources := [5]
    srcActive := fun a => if a = 5 then some true else none }
  custody := {
    stakeToken := some 20
    balance := fun _ holder => if holder = 0 then 0 else 5000 }

theorem custodyStore_kept : Kept 20 0 custodyStore := by
  have hzero (x : Account) : owed custodyStore x = 0 := by cases x <;> rfl
  refine ⟨rfl,⟨fun x => (hzero x).ge,fun S => ?_⟩,by decide,by decide,by decide⟩
  rw [Finset.sum_eq_zero fun x _ => hzero x]
  rfl

/-- The approval of the relayer is withdrawn, and the percentage of a slash set. -/
def revoked (percent : Nat) : CustodyAct :=
  .elsewhere { custodyStore with
    config := { custodyStore.config with approvedRelayer := fun _ => false }
    custody := { custodyStore.custody with relayerSlashPercent := some percent } }

theorem revoked_typed (env : Env) (percent : Nat) : CustodyTx.Typed ⟨env,revoked percent⟩ := by
  intro rest h
  cases h
  have hsource : custodyStore.getSourceBond ≤ i128Max := by decide
  have hrelayer : custodyStore.getRelayerBondAmount ≤ i128Max := by decide
  refine ⟨hsource,hrelayer,fun token holder => ?_⟩
  change (if holder = 0 then (0 : Int) else 5000) ≤ i128Max
  split_ifs <;> decide

theorem call_typed (env : Env) (call : CustodyCall) : CustodyTx.Typed ⟨env,.call call⟩ := by
  intro rest h
  cases h

/-- A fifth of the bond goes to the treasury, and half of that to the challenger once more. -/
def challengedRun : List CustodyTx :=
  [⟨.concrete 100 5 [4], .call (.depositRelayerBond 4)⟩, ⟨.concrete 101 6 [9], revoked 20⟩,
    ⟨.concrete 102 7 [], .call (.challengeRelayedSubmission 6 4 5 10 0 0 [1])⟩]

def foreignStakeRun : List CustodyTx :=
  [⟨.concrete 100 5 [5], .call (.stakeSource 5 100 21)⟩]

theorem custody_insolvent :
    (Kept 20 0 custodyStore ∧ ∀ t ∈ challengedRun ++ foreignStakeRun,
      Hosted 20 0 t.env ∧ t.Typed) ∧
      (¬∀ x ∈ steps execCustody custodyStore challengedRun, Solvent 20 0 (execCustody x.1 x.2)) ∧
      ¬∀ x ∈ steps execCustody custodyStore foreignStakeRun,
        Solvent 20 0 (execCustody x.1 x.2) := by
  refine ⟨⟨custodyStore_kept,?_⟩,fun h => ?_,fun h => ?_⟩
  · simp only [challengedRun,foreignStakeRun,List.cons_append,List.nil_append,List.forall_mem_cons]
    exact ⟨⟨hosted_concrete (by decide),call_typed _ _⟩,
      ⟨hosted_concrete (by decide),revoked_typed _ _⟩,
      ⟨hosted_concrete (by decide),call_typed _ _⟩,
      ⟨hosted_concrete (by decide),call_typed _ _⟩,by simp⟩
  · have hlast := h (run execCustody custodyStore (challengedRun.take 2),
      ⟨.concrete 102 7 [],.call (.challengeRelayedSubmission 6 4 5 10 0 0 [1])⟩)
      (by simp [challengedRun])
    exact absurd (hlast {.relayerBond 4, .treasury, .challengerReward 6}) (by decide)
  · have honly := h (custodyStore,⟨.concrete 100 5 [5],.call (.stakeSource 5 100 21)⟩)
      (by simp [foreignStakeRun])
    exact absurd (honly {.stake 5}) (by decide)

/-- The stakes are paid in the stake token, and the challenge takes a single unit. -/
def solventRun : List CustodyTx :=
  [⟨.concrete 100 5 [4], .call (.depositRelayerBond 4)⟩,
    ⟨.concrete 101 6 [5], .call (.stakeSource 5 100 20)⟩,
    ⟨.concrete 102 7 [9], .call (.slashSource 5 true)⟩, ⟨.concrete 103 8 [9], revoked 0⟩,
    ⟨.concrete 104 9 [], .call (.challengeRelayedSubmission 6 4 5 10 0 0 [1])⟩,
    ⟨.concrete 105 10 [9], .call (.sweepTreasury 8)⟩]

theorem solvent_run :
    (∀ x ∈ steps execCustody custodyStore solventRun, Solvent 20 0 (execCustody x.1 x.2)) ∧
      (run execCustody custodyStore solventRun).custody.balance 20 0 = 1079 := by
  refine ⟨stays_solvent solventRun custodyStore_kept ?_ ?_ ?_,by decide⟩
  · simp only [solventRun,List.forall_mem_cons]
    exact ⟨hosted_concrete (by decide),hosted_concrete (by decide),hosted_concrete (by decide),
      hosted_concrete (by decide),hosted_concrete (by decide),hosted_concrete (by decide),
      by simp⟩
  · simp only [solventRun,List.forall_mem_cons]
    exact ⟨call_typed _ _,call_typed _ _,call_typed _ _,revoked_typed _ _,call_typed _ _,
      call_typed _ _,by simp⟩
  · simp only [solventRun,steps_cons,steps_nil,List.forall_mem_cons]
    exact ⟨trivial,fun _ => rfl,trivial,trivial,fun _ => .inr (by decide),trivial,by simp⟩

end Runs

end PriceOracle.Custody
