import PriceOracle.Model.Channels
import PriceOracle.Model.Invocation

/-! # What a call does to a channel

The calls on state channels, and the effect of one of them, for any source, on the channel of a
given source and on the balances of the tokens. -/

namespace PriceOracle.Channels

open Model Lib.Transaction Lib.MachineInt

theorem encode_length (item : BatchItem) : item.encode.length = 32 := by
  unfold BatchItem.encode
  rw [List.length_append,List.length_append,leBytes_length,leBytes_length,leBytes_length]

theorem encode_injective : Function.Injective BatchItem.encode := by
  intro a b h
  obtain ⟨hfront,htimestamp⟩ := List.append_inj' h (by rw [leBytes_length,leBytes_length])
  obtain ⟨hnonce,hprice⟩ := List.append_inj hfront (by rw [leBytes_length,leBytes_length])
  have hnonce := leBytes_inj (by have := a.nonce.toNat_lt; omega)
    (by have := b.nonce.toNat_lt; omega) hnonce
  have hprice := leBytes_inj (by have := a.price_lt; omega) (by have := b.price_lt; omega) hprice
  have htimestamp := leBytes_inj (by have := a.timestamp.toNat_lt; omega)
    (by have := b.timestamp.toNat_lt; omega) htimestamp
  rw [BatchItem.mk.injEq]
  exact ⟨UInt64.toNat_inj.1 hnonce,hprice,UInt64.toNat_inj.1 htimestamp⟩

/-- A hash without collisions tells batches apart, and nothing else. -/
theorem hashBatchPayload_inj {host : Host} (hsha : Function.Injective host.sha256)
    {source source' : Address} {batch batch' : List BatchItem} :
    hashBatchPayload host source batch = hashBatchPayload host source' batch' ↔ batch = batch' := by
  constructor
  · intro h
    have hbytes := List.append_cancel_left (hsha h)
    exact Lib.Blocks.flatMap_injective (by decide : 0 < 32) encode_length encode_injective hbytes
  · rintro rfl
    rfl

/-- The state after a batch is that of one of its items, beyond the state before, or that one. -/
theorem best_cases (channel : StateChannel) (batch : List BatchItem) :
    channel.best batch = channel ∨ ∃ item ∈ batch, channel.best batch = channel.advance item ∧
      channel.nonce < item.nonce.toNat := by
  unfold StateChannel.best
  induction batch generalizing channel with
  | nil => exact .inl rfl
  | cons item batch ih =>
    rw [List.foldl_cons]
    by_cases hlt : channel.nonce < item.nonce.toNat
    · rw [if_pos hlt]
      rcases ih (channel.advance item) with hsame | ⟨later,hmem,hlater,hbeyond⟩
      · exact .inr ⟨item,List.mem_cons_self,hsame,hlt⟩
      · exact .inr ⟨later,List.mem_cons_of_mem item hmem,hlater,hlt.trans hbeyond⟩
    · rw [if_neg hlt]
      rcases ih channel with hsame | ⟨later,hmem,hlater⟩
      · exact .inl hsame
      · exact .inr ⟨later,List.mem_cons_of_mem item hmem,hlater⟩

inductive ChannelCall
  | openChannel (source : Address) (deposit : Int) (token : Address)
  | submit (source : Address) (batch : List BatchItem) (signature pubkey : Bytes)
  | dispute (source : Address) (batch : List BatchItem) (signature pubkey : Bytes)
  | close (source : Address)

def ChannelCall.body : ChannelCall → Contract Unit
  | openChannel source deposit token => Model.openChannel source deposit token
  | submit source batch signature pubkey => submitBatch source batch signature pubkey
  | dispute source batch signature pubkey => disputeChannel source batch signature pubkey
  | close source => closeChannel source

def ChannelCall.source : ChannelCall → Address
  | openChannel source _ _ => source
  | submit source _ _ _ => source
  | dispute source _ _ _ => source
  | close source => source

/-- A call, or a change elsewhere: it touches neither the channels nor the keys. -/
inductive ChannelAct
  | call (call : ChannelCall)
  | elsewhere (rest : Store)

structure ChannelTx where
  env : Env
  act : ChannelAct

def execChannel (st : Store) (t : ChannelTx) : Store :=
  match t.act with
  | .call call => invoke call.body t.env st
  | .elsewhere rest => { rest with channels := st.channels }

/-- The step presents a batch, with the signature of a key, for the channel of the source. -/
def Presents (source : Address) (batch : List BatchItem) (signature pubkey : Bytes)
    (t : ChannelTx) : Prop :=
  t.act = .call (.submit source batch signature pubkey) ∨
    t.act = .call (.dispute source batch signature pubkey)

/-- The channel and the key of a source. -/
structure Line where
  channel : Option StateChannel
  signer : Option Bytes

def lineOf (st : Store) (source : Address) : Line :=
  ⟨st.channels.channel source, st.channels.signer source⟩

/-- A channel that is there is open, has a deposit, and names its source. -/
def Sound (source : Address) (l : Line) : Prop :=
  ∀ c ∈ l.channel, c.source = source ∧ 0 < c.deposit ∧ c.isClosed = false

/-- The deposit that the step makes for the source: the token and the amount. -/
def depositBy (source : Address) (x : Store × ChannelTx) : Option (Address × Int) :=
  match x.2.act with
  | .call (.openChannel s deposit token) =>
    if s = source ∧ failure (Model.openChannel s deposit token) x.2.env x.1 = none then
      some (token, deposit)
    else none
  | _ => none

/-- The refund that the step makes to the source: the token and the amount. -/
def refundBy (source : Address) (x : Store × ChannelTx) : Option (Address × Int) :=
  match x.2.act with
  | .call (.close s) =>
    if s = source ∧ failure (closeChannel s) x.2.env x.1 = none then
      (x.1.channels.channel source).map fun c => (c.tokenContract, c.deposit)
    else none
  | _ => none

/-- The balances move by the deposit of a source, by its refund, or not at all. -/
def Moves (host : Host) (source : Address) (b b' : Balances) :
    Option (Address × Int) → Option (Address × Int) → Prop
  | some (token, amount), _ => host.transfer token source host.contractAddress amount b = some b'
  | none, some (token, amount) =>
    host.transfer token host.contractAddress source amount b = some b'
  | none, none => b' = b

/-- A call moves the balances by the deposit or the refund it makes for its source. -/
def Settles (st : Store) (t : ChannelTx) (st' : Store) : Prop :=
  ∀ call, t.act = .call call →
    Moves t.env.host call.source st.custody.balance st'.custody.balance
      (depositBy call.source (st, t)) (refundBy call.source (st, t))

/-- What one step does to the channel and the key of one source. -/
inductive LineEffect (source : Address) (st : Store) (t : ChannelTx) (l' : Line) : Prop
  | kept (hkept : l' = lineOf st source) (hdeposit : depositBy source (st, t) = none)
    (hrefund : refundBy source (st, t) = none)
  | opened (deposit : Int) (token : Address)
    (hnone : (lineOf st source).channel = none) (hpositive : 0 < deposit)
    (hdeposit : depositBy source (st, t) = some (token, deposit))
    (hrefund : refundBy source (st, t) = none)
    (hopened : l' = ⟨some (.opened source deposit token t.env.timestamp),
      (lineOf st source).signer⟩)
  | advanced (channel : StateChannel) (batch : List BatchItem) (signature pubkey : Bytes)
    (hpresents : Presents source batch signature pubkey t)
    (hchannel : (lineOf st source).channel = some channel)
    (hbound : ∀ key ∈ (lineOf st source).signer, key = pubkey)
    (hvalid : t.env.host.ed25519Verify pubkey (hashBatchPayload t.env.host source batch) signature =
      true)
    (hbest : (channel.best batch).nonce ≠ channel.nonce)
    (hadvanced : l' = ⟨some (channel.best batch), some pubkey⟩)
  | closed (channel : StateChannel) (hdeposit : depositBy source (st, t) = none)
    (hchannel : (lineOf st source).channel = some channel)
    (hrefund : refundBy source (st, t) = some (channel.tokenContract, channel.deposit))
    (hclosed : l' = ⟨none, none⟩)

section Writes

variable (source : Address) {s : Address} {w : World} {env : Env} {st : Store}

theorem writeChannel_sat (channel : StateChannel) : Sat (writeChannel channel) w fun _ w' =>
    w'.env = w.env ∧ w'.store.custody = w.store.custody ∧ lineOf w'.store source =
      if source = channel.source then ⟨some channel,(lineOf w.store source).signer⟩
      else lineOf w.store source := by
  rw [writeChannel,modifyChannels,sat_update]
  refine ⟨rfl,rfl,?_⟩
  unfold lineOf
  dsimp only
  rw [Function.update_apply]
  split_ifs <;> rfl

theorem removeChannel_sat : Sat (removeChannel s) w fun _ w' =>
    w'.store.custody = w.store.custody ∧ lineOf w'.store source =
      if source = s then ⟨none,none⟩ else lineOf w.store source := by
  rw [removeChannel,modifyChannels,sat_update]
  refine ⟨rfl,?_⟩
  unfold lineOf
  dsimp only
  rw [Function.update_apply,Function.update_apply]
  split_ifs <;> rfl

theorem transferToken_line (token sender recipient : Address) (amount : Int) :
    Sat (transferToken token sender recipient amount) w fun _ w' =>
      w'.env = w.env ∧ w'.store.channels = w.store.channels ∧
        w.env.host.transfer token sender recipient amount w.store.custody.balance =
          some w'.store.custody.balance := by
  rw [sat_transferToken]
  exact fun b hb => ⟨rfl,rfl,hb⟩

theorem readOpenChannel_sat : Sat (readOpenChannel s) w fun c w' =>
    w.store.openedChannel s = some c ∧ w' = w := by
  refine sat_lookup ?_
  cases w.store.openedChannel s <;> rfl

theorem checkChannelSigner_sat (pubkey : Bytes) (mayBind : Bool) :
    Sat (checkChannelSigner s pubkey mayBind) w fun _ w' =>
      (∀ key ∈ (lineOf w.store s).signer, key = pubkey) ∧ w'.env = w.env ∧
        w'.store.custody = w.store.custody ∧ lineOf w'.store source =
          if source = s then ⟨(lineOf w.store s).channel,some pubkey⟩
          else lineOf w.store source := by
  rw [checkChannelSigner,sat_bind,sat_readStore]
  cases hbound : w.store.channels.signer s with
  | some key =>
    rw [sat_ensure]
    rintro rfl
    refine ⟨fun k hk => ?_,rfl,rfl,?_⟩
    · exact Option.some.inj (hk.symm.trans hbound)
    · split_ifs with hs
      · rw [hs]
        unfold lineOf
        rw [hbound]
      · rfl
  | none =>
    refine sat_ite _ (fun _ => ?_) fun _ => sat_abort _
    rw [modifyChannels,sat_update]
    refine ⟨fun k hk => ?_,rfl,rfl,?_⟩
    · exact absurd (hk.symm.trans hbound) (by simp)
    · unfold lineOf
      dsimp only
      rw [Function.update_apply]
      split_ifs with hs
      · rw [hs]
      · rfl

end Writes

section Effects

variable {source s : Address} {env : Env} {st : Store} {call : ChannelCall} {channel : StateChannel}
  {batch : List BatchItem}

/-- Every channel that is there is open, under the source it names. -/
def AllSound (st : Store) : Prop := ∀ source, Sound source (lineOf st source)

theorem openedChannel_of_sound (h : AllSound st) (s : Address) :
    st.openedChannel s = (lineOf st s).channel := by
  change (st.channels.channel s).filter _ = st.channels.channel s
  cases hc : st.channels.channel s with
  | none => rfl
  | some c =>
    have hopen := (h s c hc).2.2
    simp [hopen]

theorem openChannel_sat (hsound : AllSound st) (source : Address) (deposit : Int)
    (token : Address) : Sat (openChannel s deposit token) (World.enter env st) fun _ w =>
      0 < deposit ∧ (lineOf st s).channel = none ∧
      env.host.transfer token s env.host.contractAddress deposit st.custody.balance =
        some w.store.custody.balance ∧
      lineOf w.store source = if source = s then
          ⟨some (.opened s deposit token env.timestamp),(lineOf st s).signer⟩
        else lineOf st source := by
  simp only [openChannel,sat_bind,sat_requireAuth,sat_ensure,sat_readStore,getContractAddress]
  intro _ hpositive hnone
  refine (transferToken_line token s _ deposit).mono ?_
  rintro _ u ⟨henv,hchannels,hmoved⟩
  rw [sat_getTimestamp]
  refine (writeChannel_sat source _).mono ?_
  rintro _ v ⟨_,hcustody,hline⟩
  have hsame : lineOf u.store source = lineOf st source := by
    unfold lineOf
    rw [hchannels]
    rfl
  refine ⟨hpositive,(openedChannel_of_sound hsound s).symm.trans hnone,?_,?_⟩
  · rw [hcustody]
    exact hmoved
  · rw [hline,hsame,henv]
    change (if source = s then _ else _) = _
    split_ifs with hs
    · rw [hs]
      rfl
    · rfl

/-- A batch that is settled is signed by the bound key and moves the state of the channel. -/
structure Settled (env : Env) (st : Store) (s : Address) (batch : List BatchItem)
    (signature pubkey : Bytes) (channel : StateChannel) : Prop where
  found : (lineOf st s).channel = some channel
  bound : ∀ key ∈ (lineOf st s).signer, key = pubkey
  valid : env.host.ed25519Verify pubkey (hashBatchPayload env.host s batch) signature = true
  beyond : (channel.best batch).nonce ≠ channel.nonce

theorem best_source (channel : StateChannel) (batch : List BatchItem) :
    (channel.best batch).source = channel.source ∧ (channel.best batch).deposit = channel.deposit ∧
      (channel.best batch).tokenContract = channel.tokenContract ∧
      (channel.best batch).isClosed = channel.isClosed := by
  rcases best_cases channel batch with hbest | ⟨item,-,hbest,-⟩
  · rw [hbest]
    exact ⟨rfl,rfl,rfl,rfl⟩
  · rw [hbest]
    exact ⟨rfl,rfl,rfl,rfl⟩

/-- What follows the checks of a submission or a dispute. -/
theorem settleBatch_sat {w : World} (hsound : AllSound st)
    {pubkey : Bytes} (hchannel : (lineOf st s).channel = some channel)
    (hcustody : w.store.custody = st.custody) (hline : lineOf w.store source =
      if source = s then ⟨(lineOf st s).channel,some pubkey⟩ else lineOf st source) :
    Sat (settleBatch channel batch) w fun _ w' =>
      (channel.best batch).nonce ≠ channel.nonce ∧ w'.store.custody = st.custody ∧
        lineOf w'.store source =
          if source = s then ⟨some (channel.best batch),some pubkey⟩ else lineOf st source := by
  rw [settleBatch,sat_bind,sat_ensure]
  intro hbeyond
  refine (writeChannel_sat source _).mono ?_
  rintro _ v ⟨_,hcustody',hline'⟩
  refine ⟨hbeyond,hcustody'.trans hcustody,?_⟩
  rw [hline',hline,(best_source channel batch).1,(hsound s channel hchannel).1]
  split_ifs <;> rfl

theorem submitBatch_sat (hsound : AllSound st) (source : Address) (batch : List BatchItem)
    (signature pubkey : Bytes) :
    Sat (submitBatch s batch signature pubkey) (World.enter env st) fun _ w =>
      w.store.custody = st.custody ∧ (lineOf w.store source = lineOf st source ∨
        ∃ channel, Settled env st s batch signature pubkey channel ∧ lineOf w.store source =
          if source = s then ⟨some (channel.best batch),some pubkey⟩ else lineOf st source) := by
  rw [submitBatch,sat_bind,sat_requireAuth]
  intro _
  refine sat_ite _ (fun _ => (sat_pure _).2 ⟨rfl,.inl rfl⟩) fun _ => ?_
  rw [sat_bind]
  refine readOpenChannel_sat.mono ?_
  rintro channel u ⟨hopen,hu⟩
  subst hu
  have hopen := (openedChannel_of_sound hsound s).symm.trans hopen
  rw [checkBatch,sat_bind,sat_bind]
  refine (checkChannelSigner_sat source pubkey true).mono ?_
  rintro _ v ⟨hbound,henv,hcustody,hline⟩
  simp only [verifyEd25519,sat_bind,sat_readStore,sat_ensure,henv]
  intro hvalid _
  refine (settleBatch_sat hsound hopen hcustody hline).mono ?_
  rintro _ x ⟨hbeyond,hcustody',hline'⟩
  exact ⟨hcustody',.inr ⟨channel,⟨hopen,hbound,hvalid,hbeyond⟩,hline'⟩⟩

theorem disputeChannel_sat (hsound : AllSound st) (source : Address) (batch : List BatchItem)
    (signature pubkey : Bytes) :
    Sat (disputeChannel s batch signature pubkey) (World.enter env st) fun _ w =>
      w.store.custody = st.custody ∧
        ∃ channel, Settled env st s batch signature pubkey channel ∧ lineOf w.store source =
          if source = s then ⟨some (channel.best batch),some pubkey⟩ else lineOf st source := by
  rw [disputeChannel,sat_bind]
  refine readOpenChannel_sat.mono ?_
  rintro channel u ⟨hopen,hu⟩
  subst hu
  have hopen := (openedChannel_of_sound hsound s).symm.trans hopen
  rw [sat_bind,sat_getTimestamp,sat_bind,sat_ensure]
  intro _
  rw [sat_bind,sat_ensure]
  intro _
  rw [checkBatch,sat_bind,sat_bind]
  refine (checkChannelSigner_sat source pubkey false).mono ?_
  rintro _ v ⟨hbound,henv,hcustody,hline⟩
  simp only [verifyEd25519,sat_bind,sat_readStore,sat_ensure,henv]
  intro hvalid
  refine (settleBatch_sat hsound hopen hcustody hline).mono ?_
  rintro _ x ⟨hbeyond,hcustody',hline'⟩
  exact ⟨hcustody',channel,⟨hopen,hbound,hvalid,hbeyond⟩,hline'⟩

theorem closeChannel_sat (hsound : AllSound st) (source : Address) :
    Sat (closeChannel s) (World.enter env st) fun _ w =>
      ∃ channel, (lineOf st s).channel = some channel ∧
        env.host.transfer channel.tokenContract env.host.contractAddress s channel.deposit
          st.custody.balance = some w.store.custody.balance ∧
        lineOf w.store source = if source = s then ⟨none,none⟩ else lineOf st source := by
  rw [closeChannel,sat_bind,sat_requireAuth]
  intro _
  rw [sat_bind]
  refine readOpenChannel_sat.mono ?_
  rintro channel u ⟨hopen,hu⟩
  subst hu
  have hopen := (openedChannel_of_sound hsound s).symm.trans hopen
  obtain ⟨hsource,hpositive,-⟩ := hsound s channel hopen
  rw [sat_bind]
  refine (writeChannel_sat source _).mono ?_
  rintro _ v ⟨henv,hcustody,hline⟩
  simp only [getContractAddress,sat_bind,sat_readStore]
  rw [if_pos hpositive,henv,sat_bind]
  refine (transferToken_line channel.tokenContract _ s channel.deposit).mono ?_
  rintro _ x ⟨_,hchannels,hmoved⟩
  refine (removeChannel_sat source).mono ?_
  rintro _ y ⟨hcustody',hline'⟩
  have hsame : lineOf x.store source = lineOf v.store source := by
    unfold lineOf
    rw [hchannels]
  refine ⟨channel,hopen,?_,?_⟩
  · rw [hcustody',← hmoved,henv,hcustody]
    rfl
  · rw [hline',hsame,hline]
    rw [hsource]
    split_ifs <;> rfl

/-- A step has its effect on the channel of each source, and settles the money. -/
def Stepped (st : Store) (t : ChannelTx) (st' : Store) : Prop :=
  (∀ source, LineEffect source st t (lineOf st' source)) ∧ Settles st t st'

theorem money_of_ne (h : source ≠ call.source) : depositBy source (st,⟨env,.call call⟩) = none ∧
      refundBy source (st,⟨env,.call call⟩) = none := by
  cases call with
  | openChannel s deposit token => exact ⟨if_neg fun hs => h hs.1.symm,rfl⟩
  | submit => exact ⟨rfl,rfl⟩
  | dispute => exact ⟨rfl,rfl⟩
  | close s => exact ⟨rfl,if_neg fun hs => h hs.1.symm⟩

theorem stepped_of_failure (h : failure call.body env st ≠ none) :
    Stepped st ⟨env,.call call⟩ (invoke call.body env st) := by
  have hstore : invoke call.body env st = st := by
    obtain ⟨e,he⟩ := Option.ne_none_iff_exists'.1 h
    exact invoke_of_failure he
  have hmoney (source : Address) : depositBy source (st,⟨env,.call call⟩) = none ∧
      refundBy source (st,⟨env,.call call⟩) = none := by
    cases call with
    | openChannel s deposit token => exact ⟨if_neg fun hs => h hs.2,rfl⟩
    | submit => exact ⟨rfl,rfl⟩
    | dispute => exact ⟨rfl,rfl⟩
    | close s => exact ⟨rfl,if_neg fun hs => h hs.2⟩
  rw [hstore]
  refine ⟨fun source => .kept rfl (hmoney source).1 (hmoney source).2,?_⟩
  rintro _ ⟨⟩
  rw [(hmoney _).1,(hmoney _).2]
  rfl

theorem openChannel_effect (hsound : AllSound st) (deposit : Int) (token : Address)
    (hok : failure (openChannel s deposit token) env st = none) :
    let t : ChannelTx := ⟨env,.call (.openChannel s deposit token)⟩
    Stepped st t (execChannel st t) := by
  intro t
  have hdeposit : depositBy s (st,t) = some (token,deposit) := if_pos ⟨rfl,hok⟩
  refine ⟨fun source => ?_,?_⟩
  · refine invoke_of_success (Q := fun st' => LineEffect source st t (lineOf st' source)) hok ?_
    refine (openChannel_sat hsound source deposit token).mono ?_
    rintro _ w ⟨hpositive,hnone,_,hline⟩
    rw [hline]
    by_cases hs : source = s
    · subst hs
      rw [if_pos rfl]
      exact .opened deposit token hnone hpositive hdeposit rfl rfl
    · rw [if_neg hs]
      exact .kept rfl (money_of_ne hs).1 (money_of_ne hs).2
  · rintro _ ⟨⟩
    change Moves env.host s _ _ (depositBy s (st,t)) _
    rw [hdeposit]
    exact invoke_of_success (Q := fun st' => env.host.transfer token s env.host.contractAddress
      deposit st.custody.balance = some st'.custody.balance) hok
      ((openChannel_sat hsound s deposit token).mono fun _ w h => h.2.2.1)

theorem closeChannel_effect (hsound : AllSound st) (hok : failure (closeChannel s) env st = none) :
    let t : ChannelTx := ⟨env,.call (.close s)⟩
    Stepped st t (execChannel st t) := by
  intro t
  have hrefund (c : StateChannel) (hc : (lineOf st s).channel = some c) :
      refundBy s (st,t) = some (c.tokenContract,c.deposit) := by
    refine (if_pos ⟨rfl,hok⟩).trans ?_
    change Option.map _ (lineOf st s).channel = _
    rw [hc,Option.map_some]
  refine ⟨fun source => ?_,?_⟩
  · refine invoke_of_success (Q := fun st' => LineEffect source st t (lineOf st' source)) hok ?_
    refine (closeChannel_sat hsound source).mono ?_
    rintro _ w ⟨c,hc,_,hline⟩
    rw [hline]
    by_cases hs : source = s
    · subst hs
      rw [if_pos rfl]
      exact .closed c rfl hc (hrefund c hc) rfl
    · rw [if_neg hs]
      exact .kept rfl (money_of_ne hs).1 (money_of_ne hs).2
  · rintro _ ⟨⟩
    refine invoke_of_success (Q := fun st' => Moves env.host s st.custody.balance
      st'.custody.balance none (refundBy s (st,t))) hok ?_
    refine (closeChannel_sat hsound s).mono ?_
    rintro _ w ⟨c,hc,hmoved,_⟩
    rw [hrefund c hc]
    exact hmoved

/-- A batch that is accepted. -/
theorem lineEffect_of_settled {signature pubkey : Bytes} {l' : Line} (hcall : call.source = s)
    (hpresents : Presents s batch signature pubkey ⟨env,.call call⟩)
    (hsettled : Settled env st s batch signature pubkey channel)
    (hline : l' = if source = s then ⟨some (channel.best batch),some pubkey⟩
      else lineOf st source) : LineEffect source st ⟨env,.call call⟩ l' := by
  by_cases hs : source = s
  · subst hs
    rw [if_pos rfl] at hline
    obtain ⟨hfound,hbound,hvalid,hbeyond⟩ := hsettled
    exact .advanced channel batch signature pubkey hpresents hfound hbound hvalid hbeyond hline
  · rw [if_neg hs] at hline
    have hne : source ≠ call.source := hcall.symm ▸ hs
    exact .kept hline (money_of_ne hne).1 (money_of_ne hne).2

theorem submitBatch_effect (hsound : AllSound st) (batch : List BatchItem)
    (signature pubkey : Bytes) (hok : failure (submitBatch s batch signature pubkey) env st = none) :
    let t : ChannelTx := ⟨env,.call (.submit s batch signature pubkey)⟩
    Stepped st t (execChannel st t) := by
  intro t
  refine ⟨fun source => ?_,?_⟩
  · refine invoke_of_success (Q := fun st' => LineEffect source st t (lineOf st' source)) hok ?_
    refine (submitBatch_sat hsound source batch signature pubkey).mono ?_
    rintro _ w ⟨_,heffect⟩
    rcases heffect with hidle | ⟨channel,hsettled,hline⟩
    · exact .kept hidle rfl rfl
    · exact lineEffect_of_settled rfl (.inl rfl) hsettled hline
  · rintro _ ⟨⟩
    exact invoke_of_success (Q := fun st' => st'.custody.balance = st.custody.balance) hok
      ((submitBatch_sat hsound s batch signature pubkey).mono fun _ w h => by rw [h.1])

theorem disputeChannel_effect (hsound : AllSound st) (batch : List BatchItem)
    (signature pubkey : Bytes)
    (hok : failure (disputeChannel s batch signature pubkey) env st = none) :
    let t : ChannelTx := ⟨env,.call (.dispute s batch signature pubkey)⟩
    Stepped st t (execChannel st t) := by
  intro t
  refine ⟨fun source => ?_,?_⟩
  · refine invoke_of_success (Q := fun st' => LineEffect source st t (lineOf st' source)) hok ?_
    refine (disputeChannel_sat hsound source batch signature pubkey).mono ?_
    rintro _ w ⟨_,channel,hsettled,hline⟩
    exact lineEffect_of_settled rfl (.inr rfl) hsettled hline
  · rintro _ ⟨⟩
    exact invoke_of_success (Q := fun st' => st'.custody.balance = st.custody.balance) hok
      ((disputeChannel_sat hsound s batch signature pubkey).mono fun _ w h => by rw [h.1])

theorem execChannel_effect (hsound : AllSound st) (t : ChannelTx) :
    Stepped st t (execChannel st t) := by
  obtain ⟨env,act⟩ := t
  cases act with
  | elsewhere rest => exact ⟨fun source => .kept rfl rfl rfl,nofun⟩
  | call call =>
    by_cases hok : failure call.body env st = none
    · cases call with
      | openChannel s deposit token => exact openChannel_effect hsound deposit token hok
      | submit s batch signature pubkey => exact submitBatch_effect hsound batch signature pubkey hok
      | dispute s batch signature pubkey =>
        exact disputeChannel_effect hsound batch signature pubkey hok
      | close s => exact closeChannel_effect hsound hok
    · exact stepped_of_failure hok

theorem execChannel_sound (hsound : AllSound st) (t : ChannelTx) :
    AllSound (execChannel st t) := by
  intro source c hc
  cases (execChannel_effect hsound t).1 source with
  | kept hkept =>
    rw [hkept] at hc
    exact hsound source c hc
  | opened deposit token hnone hpositive hdeposit hrefund hopened =>
    rw [hopened] at hc
    cases hc
    exact ⟨rfl,hpositive,rfl⟩
  | advanced channel batch signature pubkey hpresents hchannel hbound hvalid hbest hadvanced =>
    rw [hadvanced] at hc
    cases hc
    obtain ⟨hsource,hdeposit,-,hclosed⟩ := best_source channel batch
    rw [hsource,hdeposit,hclosed]
    exact hsound source channel hchannel
  | closed channel hdeposit hchannel hrefund hclosed =>
    rw [hclosed] at hc
    cases hc

end Effects

end PriceOracle.Channels
