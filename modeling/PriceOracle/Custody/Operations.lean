import PriceOracle.Aggregation.Rounds
import PriceOracle.Configuration.Calls
import PriceOracle.Lib.Counting
import PriceOracle.Model.Custody
import Mathlib.Algebra.Order.Group.Int
import Mathlib.Data.Int.ConditionallyCompleteOrder
import Mathlib.Order.ConditionallyCompleteLattice.Basic

/-! # The ledgers of what the contract owes

Five maps say what is owed to whom. They are read here as one ledger over all accounts, beside the
token balances that have to back it. -/

namespace PriceOracle.Custody

open Model Lib.Transaction Lib.MachineInt

/-- The accounts of everything the contract owes. -/
inductive Account
  | stake (source : Address)
  | sourceBond (source : Address)
  | relayerBond (relayer : Address)
  | treasury
  | challengerReward (challenger : Address)
deriving DecidableEq

def owed (st : Store) : Account → Int
  | .stake source => st.getStake source
  | .sourceBond source => st.getSourceDepositedBond source
  | .relayerBond relayer => st.getRelayerBondBalance relayer
  | .treasury => st.treasury.getD 0
  | .challengerReward challenger => (st.custody.challengerRewards challenger).getD 0

/-- The ledger, the balances and what the custody calls read beside them. -/
structure Books where
  owed : Account → Int
  balance : Balances
  stakeToken : Option Address
  sourceBond : Int
  relayerBond : Int
  env : Env

def books (w : World) : Books :=
  ⟨owed w.store, w.store.custody.balance, w.store.custody.stakeToken, w.store.getSourceBond,
    w.store.getRelayerBondAmount, w.env⟩

def Books.write (b : Books) (x : Account) (v : Int) : Books :=
  { b with owed := Function.update b.owed x v }

section Writes

variable {w : World} {Q : Unit → World → Prop} (source : Address) (token sender recipient : Address)

def NoBooks (T : List Region) : Prop :=
  .env ∉ T ∧ .flags ∉ T ∧ .config ∉ T ∧ .registry ∉ T ∧ .relayers ∉ T ∧ .treasury ∉ T ∧ .custody ∉ T

deriving instance Decidable for NoBooks

theorem books_of_frame {T : List Region} (hT : NoBooks T) {w' : World}
    (h : layout.agreeOff T w w') : books w' = books w := by
  obtain ⟨henv,hflags,hconfig,hregistry,hrelayers,htreasury,hcustody⟩ := hT
  have hflags' : w'.store.flags = w.store.flags := h .flags hflags
  have hconfig' : w'.store.config = w.store.config := h .config hconfig
  have hregistry' : w'.store.registry.sourceBond = w.store.registry.sourceBond :=
    congrArg (fun v => v.2.2.2.2) (h .registry hregistry)
  have hrelayers' : w'.store.relayers = w.store.relayers := h .relayers hrelayers
  have htreasury' : w'.store.treasury = w.store.treasury := h .treasury htreasury
  have hcustody' : w'.store.custody = w.store.custody := h .custody hcustody
  have henv' : w'.env = w.env := h .env henv
  have howed : owed w'.store = owed w.store := by
    funext x
    cases x <;> simp only [owed,Store.getStake,Store.getSourceDepositedBond,
      Store.getRelayerBondBalance,hregistry',hrelayers',htreasury',hcustody']
  have hbond : w'.store.getSourceBond = w.store.getSourceBond := by
    unfold Store.getSourceBond Store.on
    rw [hflags',hconfig']
  simp only [books,howed,hbond,Store.getRelayerBondAmount,hconfig',hcustody',henv']

theorem books_write {w' : World} {x : Account} {v : Int}
    (howed : owed w'.store = Function.update (owed w.store) x v)
    (hrest : { books w' with owed := owed w.store } = books w) :
    books w' = (books w).write x v := by
  rw [← hrest]
  exact congrArg (fun o => { books w' with owed := o }) howed

/-- The stake of a source is what its record says, and nothing when it has none. -/
theorem books_stake (record : Option SourceStakeRecord) :
    books { w with store := { w.store with custody := { w.store.custody with
      stake := Function.update w.store.custody.stake source record } } } =
      (books w).write (.stake source) ((record.map SourceStakeRecord.amount).getD 0) := by
  refine books_write ?_ rfl
  funext x
  cases x with
  | stake a => by_cases ha : a = source <;> simp [owed,Store.getStake,ha]
  | _ => rfl

theorem books_sourceBond (bond : Option Int) :
    books { w with store := { w.store with registry := { w.store.registry with
      sourceBond := Function.update w.store.registry.sourceBond source bond } } } =
      (books w).write (.sourceBond source) (bond.getD 0) := by
  refine books_write ?_ rfl
  funext x
  cases x with
  | sourceBond a => by_cases ha : a = source <;> simp [owed,Store.getSourceDepositedBond,ha]
  | _ => rfl

theorem writeStake_sat (v : Int) :
    Sat (writeStake source v) w fun _ w' => books w' = (books w).write (.stake source) v := by
  simp only [writeStake,sat_bind,sat_getSequence,modifyCustody,sat_update]
  exact books_stake source (some ⟨v,w.env.sequence⟩)

theorem writeSourceBond_sat (v : Int) : Sat (writeSourceBond source v) w fun _ w' =>
      books w' = (books w).write (.sourceBond source) v := by
  simp only [writeSourceBond,sat_update]
  exact books_sourceBond source (some v)

theorem writeRelayerBond_sat (relayer : Address) (v : Int) :
    Sat (writeRelayerBond relayer v) w fun _ w' =>
      books w' = (books w).write (.relayerBond relayer) v := by
  refine (sat_update _ _).2 (books_write ?_ rfl)
  funext x
  cases x with
  | relayerBond a => by_cases ha : a = relayer <;> simp [owed,Store.getRelayerBondBalance,ha]
  | _ => rfl

theorem books_treasury (v : Int) :
    books { w with store := { w.store with treasury := some v } } =
      (books w).write .treasury v := by
  refine books_write ?_ rfl
  funext x
  cases x <;> rfl

theorem creditTreasury_sat (amount : Int) :
    Sat (creditTreasury amount) w fun _ w' =>
      books w' = (books w).write .treasury (satAdd ((books w).owed .treasury) amount) :=
  (sat_update _ _).2 (books_treasury _)

theorem creditChallenger_sat (challenger : Address) (reward : Int) :
    Sat (creditChallenger challenger reward) w fun _ w' =>
      books w' = (books w).write (.challengerReward challenger)
        (satAdd ((books w).owed (.challengerReward challenger)) reward) := by
  refine (sat_update _ _).2 (books_write ?_ rfl)
  funext x
  cases x with
  | challengerReward a => by_cases ha : a = challenger <;> simp [books,owed,ha]
  | _ => rfl

theorem transferToken_sat (amount : Int) :
    Sat (transferToken token sender recipient amount) w fun _ w' =>
      ∃ b, w.env.host.transfer token sender recipient amount (books w).balance = some b ∧
        books w' = { books w with balance := b } := by
  rw [sat_transferToken]
  exact fun b hb => ⟨b,hb,rfl⟩

theorem tryTransferToken_sat (amount : Int) :
    Sat (tryTransferToken token sender recipient amount) w fun _ w' => books w' = { books w with
        balance := (w.env.host.transfer token sender recipient amount (books w).balance).getD
          (books w).balance } := by
  simp only [tryTransferToken,sat_bind,sat_readStore,modifyCustody,sat_update]
  rfl

end Writes

end PriceOracle.Custody

/-! ## What the custody calls do to the books

A call that leaves part of the balance spare may spend it on what it owes afterwards. -/

namespace PriceOracle.Custody

open Model Aggregation Lib.Transaction Lib.MachineInt Lib.Backing

/-- The token moves what it is told to move, and no other token takes it from the contract. -/
structure Honest (host : Host) (token : Address) : Prop where
  moves : ∀ {sender recipient amount b b'},
    host.transfer token sender recipient amount b = some b' →
      0 ≤ amount ∧ b' = b.move token sender recipient amount
  spares : ∀ {other sender recipient amount b b'}, other ≠ token →
    host.transfer other sender recipient amount b = some b' →
      b token host.contractAddress ≤ b' token host.contractAddress
  bounded : ∀ {other sender recipient amount b b'},
    host.transfer other sender recipient amount b = some b' →
      b token host.contractAddress ≤ i128Max → b' token host.contractAddress ≤ i128Max

/-- The contract is called under its own address, which authorizes nothing. -/
structure Hosted (token contract : Address) (env : Env) : Prop where
  contractAddress : env.host.contractAddress = contract
  honest : Honest env.host token
  outside : env.authorized contract = false

/-- What is owed is backed by the balance of the stake token, less what is spare of it. -/
structure Holds (token contract : Address) (spare : Int) (b : Books) : Prop where
  stakeToken : b.stakeToken = some token
  hosted : Hosted token contract b.env
  backed : Backed b.owed (b.balance token contract - spare)
  bounded : b.balance token contract ≤ i128Max
  sourceBond : b.sourceBond ≤ i128Max
  relayerBond : b.relayerBond ≤ i128Max

section Rules

variable {token contract : Address} {spare spare' amount v : Int} {b : Books} {x : Account}
  {sender recipient : Address} {c : Balances}

theorem move_recipient (h : sender ≠ recipient) :
    c.move token sender recipient amount token recipient = c token recipient + amount := by
  simp [Balances.move,h.symm]

theorem move_sender (h : sender ≠ recipient) :
    c.move token sender recipient amount token sender = c token sender - amount := by
  simp [Balances.move,h]

theorem move_self : c.move token sender sender amount token sender = c token sender := by
  simp [Balances.move]

theorem Holds.relax (h : Holds token contract spare b) (hs : spare' ≤ spare) :
    Holds token contract spare' b :=
  { h with backed := h.backed.relax h.backed.nonneg (fun _ => le_rfl) (by omega) }

theorem Holds.write (h : Holds token contract spare b) (hv : 0 ≤ v) :
    Holds token contract (spare + b.owed x - v) (b.write x v) := by
  have hbacked := h.backed.post (x := x) hv
  have hfunds : b.balance token contract - spare + (v - b.owed x) =
      b.balance token contract - (spare + b.owed x - v) := by omega
  rw [hfunds] at hbacked
  exact { h with backed := hbacked }

theorem Holds.rebalance (h : Holds token contract spare b)
    (hfunds : b.balance token contract - spare ≤ c token contract - spare')
    (hbounded : c token contract ≤ i128Max) :
    Holds token contract spare' { b with balance := c } :=
  { h with
    backed := h.backed.relax h.backed.nonneg (fun _ => le_rfl) hfunds
    bounded := hbounded }

/-- A payment from outside is spare until it is owed. -/
theorem Holds.receive (h : Holds token contract spare b) (hsender : sender ≠ contract)
    (ht : b.env.host.transfer token sender contract amount b.balance = some c) :
    Holds token contract (spare + amount) { b with balance := c } := by
  obtain ⟨-,hc⟩ := h.hosted.honest.moves ht
  have hbound := h.hosted.honest.bounded ht
  rw [h.hosted.contractAddress] at hbound
  refine h.rebalance ?_ (hbound h.bounded)
  rw [hc,move_recipient hsender]
  omega

/-- A payment to the contract itself only gains it what it no longer owes. -/
theorem Holds.pay (h : Holds token contract spare b)
    (ht : b.env.host.transfer token contract recipient amount b.balance = some c) :
    Holds token contract (spare - amount) { b with balance := c } := by
  obtain ⟨hamount,hc⟩ := h.hosted.honest.moves ht
  have hbound := h.hosted.honest.bounded ht
  rw [h.hosted.contractAddress] at hbound
  refine h.rebalance ?_ (hbound h.bounded)
  by_cases hself : contract = recipient
  · rw [hc,← hself,move_self]
    omega
  · rw [hc,move_sender hself]
    omega

theorem Holds.tryPay (h : Holds token contract spare b) (recipient : Address)
    (hamount : 0 ≤ amount) :
    Holds token contract (spare - amount) { b with
      balance := (b.env.host.transfer token contract recipient amount b.balance).getD
        b.balance } := by
  cases ht : b.env.host.transfer token contract recipient amount b.balance with
  | some c => exact h.pay ht
  | none => exact h.relax (by omega)

theorem slashAmount_mem (percent : Nat) (h : 0 < amount) :
    0 ≤ slashAmount percent amount ∧ slashAmount percent amount ≤ amount := by
  unfold slashAmount
  omega

theorem satAdd_mem {p q : Int} (hp : 0 ≤ p) (hq : 0 ≤ q) : 0 ≤ satAdd p q ∧ satAdd p q ≤ p + q := by
  unfold satAdd saturate i128Min i128Max
  omega

end Rules

section Operations

variable {token contract : Address} {w : World} {x : Account} {m : Contract Unit} {payer : Address}
  (source : Address)

theorem not_contract {env : Env} {a : Address} (h : Hosted token contract env)
    (ha : env.authorized a = true) : a ≠ contract := by
  intro heq
  rw [heq,h.outside] at ha
  cases ha

theorem receive_sat (h : Holds token contract 0 (books w))
    (hpayer : w.env.authorized payer = true) (amount : Int) :
    Sat (transferToken token payer contract amount) w fun _ w' =>
      Holds token contract amount (books w') ∧ (books w').owed = (books w).owed := by
  refine (transferToken_sat token payer contract amount).mono ?_
  rintro _ u ⟨c,hc,hu⟩
  have hreceived := h.receive (not_contract h.hosted hpayer) hc
  rw [Int.zero_add] at hreceived
  rw [hu]
  exact ⟨hreceived,rfl⟩

theorem pay_sat (h : Holds token contract 0 (books w)) (recipient : Address) (amount : Int) :
    Sat (transferToken token contract recipient amount) w fun _ w' =>
      Holds token contract (-amount) (books w') ∧ (books w').owed = (books w).owed := by
  refine (transferToken_sat token contract recipient amount).mono ?_
  rintro _ u ⟨c,hc,hu⟩
  have hpaid := h.pay hc
  rw [Int.zero_sub] at hpaid
  rw [hu]
  exact ⟨hpaid,rfl⟩

theorem tryPay_sat (h : Holds token contract 0 (books w)) (recipient : Address) {amount : Int}
    (hamount : 0 ≤ amount) :
    Sat (tryTransferToken token contract recipient amount) w fun _ w' =>
      Holds token contract (-amount) (books w') ∧ (books w').owed = (books w).owed := by
  refine (tryTransferToken_sat token contract recipient amount).mono fun _ u hu => ?_
  have hpaid := h.tryPay recipient hamount
  rw [Int.zero_sub] at hpaid
  rw [hu]
  exact ⟨hpaid,rfl⟩

theorem Holds.settle {spare v : Int} {b : Books} (h : Holds token contract spare b)
    (hv : 0 ≤ v) (hle : v ≤ spare + b.owed x) : Holds token contract 0 (b.write x v) :=
  (h.write hv).relax (by omega)

theorem stakeSource_holds (h : Holds token contract 0 (books w)) (source : Address) (amount : Int) :
    Sat (stakeSource source amount token) w fun _ w' => Holds token contract 0 (books w') := by
  have hthis : w.env.host.contractAddress = contract := h.hosted.contractAddress
  simp only [stakeSource,sat_bind,sat_requireAuth,sat_ensure,getContractAddress,sat_readStore,
    hthis]
  intro hauth hamount
  refine (receive_sat (w := w.authorizedBy source) h hauth amount).mono ?_
  rintro _ u ⟨hu,_⟩
  refine (writeStake_sat source _).mono fun _ v hv => ?_
  obtain ⟨hnonneg,hle⟩ := satAdd_mem (hu.backed.nonneg (.stake source)) hamount.le
  rw [hv]
  apply hu.settle hnonneg
  rw [Int.add_comm]
  exact hle

theorem books_dropStake : books { w with store := { w.store with custody := { w.store.custody with
      stake := Function.update w.store.custody.stake source none } } } =
      (books w).write (.stake source) 0 :=
  books_stake source none

/-- A transfer that fails leaves the contract with more than it owes. -/
theorem unstakeSource_holds (h : Holds token contract 0 (books w)) (source : Address) :
    Sat (unstakeSource source) w fun _ w' => Holds token contract 0 (books w') := by
  have hthis : w.env.host.contractAddress = contract := h.hosted.contractAddress
  have htoken : w.store.custody.stakeToken = some token := h.stakeToken
  simp only [unstakeSource,sat_bind,sat_readStore]
  cases hrecord : w.store.custody.stake source with
  | none => exact (sat_pure _).2 h
  | some r =>
    have howed : (books w).owed (.stake source) = r.amount := by
      simp [books,owed,Store.getStake,hrecord]
    have hnonneg : 0 ≤ r.amount := by
      rw [← howed]
      exact h.backed.nonneg _
    simp only [sat_bind,sat_readStore,getContractAddress,htoken,hthis]
    refine sat_ite _ (fun hpos => ?_) fun hzero => ?_
    · rw [sat_bind]
      refine (tryPay_sat h source hnonneg).mono ?_
      rintro _ u ⟨hu,hsame⟩
      rw [modifyCustody,sat_update,books_dropStake]
      apply hu.settle le_rfl
      rw [hsame,howed]
      omega
    · rw [modifyCustody,sat_update,books_dropStake]
      apply h.settle le_rfl
      omega

/-- What a slash takes from an account goes to the treasury. -/
theorem slash_sat {d : Int} (h : Holds token contract 0 (books w))
    (hd : 0 ≤ d) (hle : d ≤ (books w).owed x)
    (hm : Sat m w fun _ w' => books w' = (books w).write x ((books w).owed x - d)) :
    Sat m w fun _ u => Sat (creditTreasury d) u fun _ w' => Holds token contract 0 (books w') := by
  refine hm.mono fun _ u hu => ?_
  refine (creditTreasury_sat d).mono fun _ v hv => ?_
  have hdown : 0 ≤ (books w).owed x - d := by omega
  have htaken : Holds token contract d (books u) := by
    rw [hu]
    exact (h.write hdown).relax (by omega)
  obtain ⟨hnonneg,hsum⟩ := satAdd_mem (htaken.backed.nonneg .treasury) hd
  rw [hv]
  exact htaken.settle hnonneg (by omega)

theorem slashSource_holds (h : Holds token contract 0 (books w)) (source : Address) (force : Bool) :
    Sat (slashSource source force) w fun _ w' => Holds token contract 0 (books w') := by
  refine (sat_asAdmin _).2 fun admin _ _ => ?_
  simp only [sat_bind,sat_readStore,sat_ensure,authorizedBy_store]
  intro _
  refine sat_ite _ (fun _ => (sat_pure _).2 h) fun hne => ?_
  simp only [sat_bind,sat_readStore,authorizedBy_store]
  have hnonneg : 0 ≤ w.store.getStake source := h.backed.nonneg (.stake source)
  obtain ⟨hlow,hhigh⟩ := slashAmount_mem w.store.getSlashPercent
    (lt_of_le_of_ne hnonneg (Ne.symm hne))
  exact slash_sat (w := w.authorizedBy admin) (x := .stake source) h hlow hhigh
    (writeStake_sat source _)

theorem sweepTreasury_holds (h : Holds token contract 0 (books w)) (recipient : Address) :
    Sat (sweepTreasury recipient) w fun _ w' => Holds token contract 0 (books w') := by
  have hthis : w.env.host.contractAddress = contract := h.hosted.contractAddress
  have htoken : w.store.custody.stakeToken = some token := h.stakeToken
  refine (sat_asAdmin _).2 fun admin _ _ => ?_
  simp only [sat_bind,sat_readStore,getContractAddress,authorizedBy_store,authorizedBy_env,
    htoken,hthis]
  refine sat_ite _ (fun _ => (sat_pure _).2 h) fun _ => ?_
  rw [sat_bind]
  refine (pay_sat (w := w.authorizedBy admin) h recipient _).mono ?_
  rintro _ u ⟨hu,howed⟩
  rw [sat_update,books_treasury]
  apply hu.settle le_rfl
  rw [howed]
  exact (Int.add_left_neg _).ge

theorem slashRelayer_holds (h : Holds token contract 0 (books w)) (relayer : Address)
    (force : Bool) :
    Sat (slashRelayer relayer force) w fun _ w' => Holds token contract 0 (books w') := by
  refine (sat_asAdmin _).2 fun admin _ _ => ?_
  simp only [sat_bind,sat_readStore,sat_ensure,authorizedBy_store]
  intro _
  refine sat_ite _ (fun _ => (sat_pure _).2 h) fun hpos => ?_
  simp only [sat_bind,sat_readStore,authorizedBy_store]
  obtain ⟨hlow,hhigh⟩ := slashAmount_mem w.store.getRelayerSlashPercent (Int.not_le.1 hpos)
  refine (slash_sat (w := w.authorizedBy admin) (x := .relayerBond relayer) h hlow hhigh
    (writeRelayerBond_sat relayer _)).mono fun _ u hu => hu.mono fun _ v hv => ?_
  exact (sat_update _ _).2 hv

theorem withdrawRelayerBond_holds (h : Holds token contract 0 (books w)) (relayer : Address) :
    Sat (withdrawRelayerBond relayer) w fun _ w' => Holds token contract 0 (books w') := by
  have hthis : w.env.host.contractAddress = contract := h.hosted.contractAddress
  have htoken : w.store.custody.stakeToken = some token := h.stakeToken
  simp only [withdrawRelayerBond,sat_bind,sat_requireAuth,sat_readStore]
  intro _
  refine sat_ite _ (fun _ => (sat_pure _).2 h) fun _ => ?_
  simp only [sat_bind,sat_readStore,sat_ensure,getStakeTokenContract,sat_consult,htoken,
    getContractAddress,Except.ok.injEq,forall_eq',hthis]
  intro _
  refine (pay_sat (w := w.authorizedBy relayer) h relayer _).mono ?_
  rintro _ u ⟨hu,howed⟩
  refine (writeRelayerBond_sat relayer 0).mono fun _ v hv => ?_
  rw [hv]
  apply hu.settle le_rfl
  rw [howed]
  exact (Int.add_left_neg _).ge

/-- The shortfall of a bond is transferred, and the bond is then as required. -/
theorem topUp_sat {required : Int}
    (h : Holds token contract 0 (books w)) (hpayer : w.env.authorized payer = true)
    (hrequired : required ≤ i128Max) (hshort : (books w).owed x < required)
    (hm : ∀ u, Sat m u fun _ w' => books w' = (books u).write x required) :
    Sat (transferToken token payer contract (wrapSub required ((books w).owed x))) w fun _ u =>
      Sat m u fun _ w' => Holds token contract 0 (books w') := by
  refine (receive_sat h hpayer _).mono ?_
  rintro _ u ⟨hu,howed⟩
  refine (hm u).mono fun _ v hv => ?_
  have hnonneg : 0 ≤ (books w).owed x := h.backed.nonneg x
  have hexact : wrapSub required ((books w).owed x) = required - (books w).owed x := by
    unfold wrapSub wrap
    unfold i128Max at hrequired
    omega
  rw [hv]
  apply hu.settle
  · omega
  · rw [howed]
    omega

theorem depositRelayerBond_holds (h : Holds token contract 0 (books w)) (relayer : Address) :
    Sat (depositRelayerBond relayer) w fun _ w' => Holds token contract 0 (books w') := by
  have hthis : w.env.host.contractAddress = contract := h.hosted.contractAddress
  have htoken : w.store.custody.stakeToken = some token := h.stakeToken
  simp only [depositRelayerBond,sat_bind,sat_requireAuth,sat_readStore,sat_ensure]
  intro hauth _
  refine sat_ite _ (fun _ => (sat_pure _).2 h) fun hshort => ?_
  simp only [sat_bind,sat_readStore,getStakeTokenContract,sat_consult,htoken,
    getContractAddress,Except.ok.injEq,forall_eq',hthis]
  rw [not_or,Int.not_le,Int.not_le] at hshort
  exact topUp_sat (w := w.authorizedBy relayer) (x := .relayerBond relayer) h hauth h.relayerBond
    hshort.2 fun _ => writeRelayerBond_sat relayer _

theorem depositSourceBond_holds (h : Holds token contract 0 (books w)) (source : Address) :
    Sat (depositSourceBond source) w fun _ w' => Holds token contract 0 (books w') := by
  have hthis : w.env.host.contractAddress = contract := h.hosted.contractAddress
  have htoken : w.store.custody.stakeToken = some token := h.stakeToken
  simp only [depositSourceBond,sat_bind,sat_requireAuth,sat_readStore,sat_ensure]
  intro hauth _
  refine sat_ite _ (fun _ => (sat_pure _).2 h) fun hshort => ?_
  simp only [sat_bind,sat_readStore,getStakeTokenContract,sat_consult,htoken,
    getContractAddress,Except.ok.injEq,forall_eq',hthis]
  rw [not_or,Int.not_le,Int.not_le] at hshort
  refine (topUp_sat (w := w.authorizedBy source) (x := .sourceBond source) h hauth h.sourceBond
    hshort.2 fun _ => writeSourceBond_sat source _).mono fun _ u hu => hu.mono fun _ v hv => ?_
  refine sat_ite _ (fun _ => ?_) fun _ => (sat_pure _).2 hv
  exact sat_ite _ (fun _ => (sat_update _ _).2 hv) fun _ => (sat_pure _).2 hv

/-- The sum does not wrap, for the balance backs both accounts. -/
theorem forfeitSourceBondInternal_holds (h : Holds token contract 0 (books w)) (source : Address) :
    Sat (forfeitSourceBondInternal source) w fun _ w' => Holds token contract 0 (books w') := by
  simp only [forfeitSourceBondInternal,sat_bind,sat_readStore]
  refine sat_ite _ (fun hpos => ?_) fun _ => (sat_pure _).2 h
  refine (writeSourceBond_sat source 0).mono fun _ u hu => ?_
  have hboth := h.backed.pair_le (x := .treasury) (y := .sourceBond source) (by simp)
  have hbounded := h.bounded
  have hnonneg : 0 ≤ w.store.treasury.getD 0 := h.backed.nonneg .treasury
  have hsum : w.store.treasury.getD 0 + w.store.getSourceDepositedBond source ≤
      (books w).balance token contract - 0 := hboth
  have hexact : wrapAdd (w.store.treasury.getD 0) (w.store.getSourceDepositedBond source) =
      w.store.treasury.getD 0 + w.store.getSourceDepositedBond source := by
    unfold wrapAdd wrap
    unfold i128Max at hbounded
    omega
  have hcredit : Holds token contract (-w.store.getSourceDepositedBond source)
      ((books w).write .treasury
        (w.store.treasury.getD 0 + w.store.getSourceDepositedBond source)) := by
    refine (h.write (by omega)).relax ?_
    have hread : (books w).owed .treasury = w.store.treasury.getD 0 := rfl
    omega
  rw [hu,books_treasury,hexact]
  apply hcredit.settle le_rfl
  exact (Int.add_left_neg _).ge

theorem mark_sat {f : FeatureFlag} (hf : f ≠ .sourceBond) :
    Sat (mark f) w fun _ w' => books w' = books w := by
  rw [sat_mark]
  have hon : Store.on { w.store with flags := Function.update w.store.flags f true } .sourceBond =
      w.store.on .sourceBond := Function.update_of_ne hf.symm _ _
  have hbond : Store.getSourceBond { w.store with
      flags := Function.update w.store.flags f true } = w.store.getSourceBond := by
    unfold Store.getSourceBond
    rw [hon]
  exact congrArg (fun v => { books w with sourceBond := v }) hbond

theorem markSourceInactive_sat :
    Sat (markSourceInactive source) w fun _ w' => books w' = books w := by
  rw [markSourceInactive,setOptional,sat_bind]
  refine (mark_sat (by simp [OptionalKey.flag])).mono fun _ u hu => ?_
  exact (sat_update _ _).2 hu

theorem updateGuards_sat (f : PublicationGuards → PublicationGuards) :
    Sat (updateGuards f) w fun _ w' => books w' = books w := by
  simp only [updateGuards,sat_bind,sat_readStore]
  refine (mark_sat (by decide)).mono fun _ u hu => ?_
  exact (sat_update _ _).2 hu

theorem recomputeSourceChange_books :
    Sat (recomputeSourceChange source) w fun _ w' => books w' = books w := by
  have hregions : RespectsRounds (layout.agreeOff
      [.aggregates,.history,.provenance,.rounds,.corrections]) :=
    respectsRounds_of_regions (List.Subset.refl _)
  exact (recomputeBounded_preserves hregions _ w).mono fun _ _ hu => books_of_frame (by decide) hu

theorem tripInactive_holds (h : Holds token contract 0 (books w)) (source : Address)
    (beaten : Bool) :
    Sat (tripInactive source beaten) w fun _ w' => Holds token contract 0 (books w') := by
  have hnote (t : World) (ht : Holds token contract 0 (books t)) :
      Sat (noteInactiveSince source) t fun _ w' => Holds token contract 0 (books w') := by
    simp only [noteInactiveSince,sat_bind,sat_getSequence,modifyHeartbeats,sat_update]
    exact ht
  rw [tripInactive,sat_bind]
  refine (markSourceInactive_sat source).mono fun _ u hu => ?_
  rw [sat_bind]
  refine (updateGuards_sat _).mono fun _ v hv => ?_
  have hmarked : Holds token contract 0 (books v) := by
    rw [hv,hu]
    exact h
  refine sat_ite _ (fun _ => ?_) fun _ => hnote v hmarked
  rw [sat_bind]
  refine (forfeitSourceBondInternal_holds hmarked source).mono fun _ t ht => ?_
  rw [sat_bind]
  refine (hnote t ht).mono fun _ x hx => ?_
  refine (recomputeSourceChange_books source).mono fun _ y hy => ?_
  rw [hy]
  exact hx

/-- The deadline may be missed, and the bond forfeited, while the source is asked about. -/
theorem isSourceInactive_holds (h : Holds token contract 0 (books w)) (source : Address) :
    Sat (isSourceInactive source) w fun _ w' => Holds token contract 0 (books w') := by
  refine sat_ite _ (fun _ => (sat_pure _).2 h) fun _ => ?_
  refine sat_ite _ (fun _ => ?_) fun _ => (sat_pure _).2 h
  refine sat_ite _ (fun _ => ?_) fun _ => (sat_pure _).2 h
  rw [sat_bind]
  refine (tripInactive_holds ?_ source _).mono fun _ _ hu => (sat_pure _).2 hu
  exact h

theorem books_dropSourceBond :
    books { w with store := { w.store with registry := { w.store.registry with
      sourceBond := Function.update w.store.registry.sourceBond source none } } } =
      (books w).write (.sourceBond source) 0 :=
  books_sourceBond source none

theorem deregisterSource_holds (h : Holds token contract 0 (books w)) (source : Address) :
    Sat (deregisterSource source) w fun _ w' => Holds token contract 0 (books w') := by
  simp only [deregisterSource,unlistSource,sat_bind,sat_update,modifyStats,modifySources,
    removeOptional]
  exact h

/-- A refund that fails leaves the contract with more than it owes. -/
theorem removeSourceInner_holds (h : Holds token contract 0 (books w)) (source : Address) :
    Sat (removeSourceInner source) w fun _ w' => Holds token contract 0 (books w') := by
  refine (sat_asAdmin _).2 fun admin _ _ => ?_
  simp only [sat_bind,sat_readStore,sat_ensure,authorizedBy_store]
  intro _
  refine (isSourceInactive_holds (w := w.authorizedBy admin) h source).mono fun inactive u hu => ?_
  have hthis : u.env.host.contractAddress = contract := hu.hosted.contractAddress
  have htoken : u.store.custody.stakeToken = some token := hu.stakeToken
  refine sat_ite _ (fun hpos => ?_) fun _ => ?_
  · simp only [sat_bind,sat_readStore,getContractAddress,htoken,hthis]
    have hdrop (v : World) (spare : Int) (hv : Holds token contract spare (books v))
        (hspare : 0 ≤ spare + (books v).owed (.sourceBond source)) :
        Holds token contract 0 (books { v with store := { v.store with
          registry := { v.store.registry with
            sourceBond := Function.update v.store.registry.sourceBond source none } } }) := by
      rw [books_dropSourceBond]
      exact hv.settle le_rfl hspare
    refine sat_ite _ (fun _ => ?_) fun _ => ?_
    · rw [sat_bind]
      refine (forfeitSourceBondInternal_holds hu source).mono fun _ v hv => ?_
      rw [sat_bind,sat_update]
      apply deregisterSource_holds
      apply hdrop v 0 hv
      rw [Int.zero_add]
      exact hv.backed.nonneg _
    · rw [sat_bind]
      refine (tryPay_sat hu source hpos.le).mono ?_
      rintro _ v ⟨hv,howed⟩
      apply deregisterSource_holds
      apply hdrop v _ hv
      rw [howed]
      exact (Int.add_left_neg _).ge
  · exact deregisterSource_holds hu source

theorem slashExpiredCommits_holds (h : Holds token contract 0 (books w)) (asset source : Address)
    (roundLedger : Nat) :
    Sat (slashExpiredCommits asset source roundLedger) w fun _ w' =>
      Holds token contract 0 (books w') := by
  simp only [slashExpiredCommits,getCommit,sat_bind,sat_getSequence,sat_readStore,sat_ensure,
    sat_consult]
  intro _ commit _ _ _ hpos
  have hle : w.store.actualSlash source ≤ w.store.getSourceDepositedBond source := min_le_left _ _
  have hbound : w.store.getSourceDepositedBond source ≤ i128Max := by
    have hfunds := h.backed.le (.sourceBond source)
    have hbounded := h.bounded
    have howed : (books w).owed (.sourceBond source) = w.store.getSourceDepositedBond source := rfl
    omega
  have hexact : satSub (w.store.getSourceDepositedBond source) (w.store.actualSlash source) =
      w.store.getSourceDepositedBond source - w.store.actualSlash source := by
    unfold satSub saturate i128Min
    omega
  rw [hexact]
  refine (slash_sat (x := .sourceBond source) h hpos.le hle
    (writeSourceBond_sat source _)).mono fun _ u hu => hu.mono fun _ v hv => ?_
  exact (sat_update _ _).2 hv

theorem reward_eq_zero {percent : Nat} {bond : Int} (hbond : 0 < bond)
    (h : bond = 1 ∨ wrapMul bond percent < 200) : (slashAmount percent bond).tdiv 2 = 0 := by
  have hone : slashAmount percent bond = 1 := by
    unfold slashAmount
    rcases h with rfl | hsmall
    · omega
    · have hpart : (wrapMul bond percent).tdiv 100 ≤ 1 := calc
        (wrapMul bond percent).tdiv 100 ≤ (199 : Int).tdiv 100 :=
          Int.tdiv_le_tdiv (by decide) (Int.le_of_lt_add_one hsmall)
        _ = 1 := by decide
      omega
  rw [hone]
  decide

/-- Without a reward a challenge is a slash. -/
theorem challenge_holds (h : Holds token contract 0 (books w))
    {challenger relayer source asset : Address} (price : Int) (timestamp : Nat) {proofData : Bytes}
    (hunrewarded : w.store.getRelayerBondBalance relayer = 1 ∨
      wrapMul (w.store.getRelayerBondBalance relayer) w.store.getRelayerSlashPercent < 200) :
    Sat (challengeRelayedSubmission challenger relayer source asset price timestamp proofData) w
      fun _ w' => Holds token contract 0 (books w') := by
  rw [challengeRelayedSubmission,sat_bind]
  refine (checkSource_frame (T := []) source w).mono fun _ t ht => ?_
  rw [sat_bind]
  refine ((checkRegisteredAsset_frame (T := []) asset).from ht).mono fun _ u hu => ?_
  rw [sat_bind]
  refine ((checkSourceAsset_frame (T := []) source asset).from hu).mono fun _ v hv => ?_
  have hbooks : books v = books w := books_of_frame (by decide) hv
  have hcustody : v.store.custody = w.store.custody := hv .custody (by simp)
  have hrelayers : v.store.relayers = w.store.relayers := hv .relayers (by simp)
  have hholds : Holds token contract 0 (books v) := by rwa [hbooks]
  have hunrewarded' : v.store.getRelayerBondBalance relayer = 1 ∨
      wrapMul (v.store.getRelayerBondBalance relayer) v.store.getRelayerSlashPercent < 200 := by
    unfold Store.getRelayerBondBalance Store.getRelayerSlashPercent at hunrewarded ⊢
    rwa [hcustody,hrelayers]
  simp only [sat_bind,sat_readStore,sat_ensure]
  intro hauth _ hpos
  obtain ⟨hlow,hhigh⟩ := slashAmount_mem v.store.getRelayerSlashPercent hpos
  rw [reward_eq_zero hpos hunrewarded']
  refine (slash_sat (x := .relayerBond relayer) hholds hlow hhigh
    (writeRelayerBond_sat relayer _)).mono fun _ s hs => hs.mono fun _ r hr => ?_
  refine (creditChallenger_sat challenger 0).mono fun _ q hq => ?_
  obtain ⟨hnonneg,hsum⟩ :=
    satAdd_mem (hr.backed.nonneg (.challengerReward challenger)) (le_refl 0)
  have hcredited : Holds token contract 0 (books q) := by
    rw [hq]
    exact hr.settle hnonneg (by omega)
  refine sat_ite _ (fun _ => ?_) fun _ => (sat_pure _).2 hcredited
  refine (sat_asAdmin _).2 fun admin _ _ => ?_
  simp only [sat_bind,sat_readStore,sat_ensure,writeRelayerFailureCount,modifyCustody,sat_update]
  exact fun _ => hcredited

end Operations

end PriceOracle.Custody
