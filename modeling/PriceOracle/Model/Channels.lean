import PriceOracle.Model.Custody

/-! # State channels

A source opens a channel with a deposit and settles batches of prices in it. A batch is signed by the
key that the first one binds; anybody may present one once the source has been silent for long. -/

namespace PriceOracle.Model

open Lib.Transaction Lib.MachineInt

/-- Nonce, price and timestamp of an item, 32 bytes in all. -/
def BatchItem.encode (item : BatchItem) : Bytes :=
  leBytes 8 item.nonce.toNat ++ leBytes 16 item.price ++ leBytes 8 item.timestamp.toNat

/-- The bytes of `sc_batch_v1`. -/
def batchTag : Bytes := [115, 99, 95, 98, 97, 116, 99, 104, 95, 118, 49]

/-- The source is passed, and not hashed. -/
def hashBatchPayload (host : Host) (_source : Address) (batch : List BatchItem) : Bytes :=
  host.sha256 (batchTag ++ batch.flatMap BatchItem.encode)

def StateChannel.advance (channel : StateChannel) (item : BatchItem) : StateChannel :=
  { channel with
    nonce := item.nonce.toNat
    lastPrice := item.price
    lastTimestamp := item.timestamp.toNat }

/-- The state after a batch: that of the item with the highest nonce, if it is beyond the state. -/
def StateChannel.best (channel : StateChannel) (batch : List BatchItem) : StateChannel :=
  batch.foldl (fun c item => if c.nonce < item.nonce.toNat then c.advance item else c) channel

/-- The nonces of a batch that the source submits increase from item to item. -/
def Increasing (batch : List BatchItem) : Prop := batch.IsChain fun a b => a.nonce < b.nonce

deriving instance Decidable for Increasing

def defaultDisputeTimeoutSecs : Nat := 3600

def StateChannel.opened (source : Address) (deposit : Int) (token : Address) (now : Nat) :
    StateChannel where
  source := source
  deposit := deposit
  nonce := 0
  lastPrice := 0
  lastTimestamp := 0
  disputeTimeout := wrap64 (now + defaultDisputeTimeoutSecs)
  isClosed := false
  tokenContract := token

/-- A channel is stored under the source it names. -/
def writeChannel (channel : StateChannel) : Contract Unit :=
  modifyChannels fun c => { c with
    channel := Function.update c.channel channel.source (some channel) }

def removeChannel (source : Address) : Contract Unit :=
  modifyChannels fun c => { c with
    channel := Function.update c.channel source none
    signer := Function.update c.signer source none }

def Store.openedChannel (st : Store) (source : Address) : Option StateChannel :=
  (st.channels.channel source).filter fun c => !c.isClosed

def readOpenChannel (source : Address) : Contract StateChannel :=
  consult fun w => match w.store.openedChannel source with
    | some channel => .ok channel
    | none => .error .channelNotFound

/-- The first batch of the source itself binds the key. -/
def checkChannelSigner (source : Address) (pubkey : Bytes) (mayBind : Bool) : Contract Unit := do
  let bound ← readStore fun _ st => st.channels.signer source
  match bound with
  | some key => ensure (key = pubkey) .notAuthorized
  | none =>
    if mayBind then
      modifyChannels fun c => { c with signer := Function.update c.signer source (some pubkey) }
    else abort .notAuthorized

/-- The signature check; the host traps on a bad signature. -/
def verifyEd25519 (pubkey : Bytes) (message : Env → Bytes) (signature : Bytes) : Contract Unit := do
  let valid ← readStore fun e _ => e.host.ed25519Verify pubkey (message e) signature
  ensure (valid = true) .hostTrap

def openChannel (source : Address) (deposit : Int) (token : Address) : Contract Unit := do
  requireAuth source
  ensure (0 < deposit) .invalidPrice
  let existing ← readStore fun _ st => st.openedChannel source
  ensure (existing = none) .channelAlreadyOpen
  let this ← getContractAddress
  transferToken token source this deposit
  let now ← getTimestamp
  writeChannel (.opened source deposit token now)

/-- The key is the bound one, and the signature is its own, over the batch. -/
def checkBatch (source : Address) (batch : List BatchItem) (signature pubkey : Bytes)
    (mayBind : Bool) : Contract Unit := do
  checkChannelSigner source pubkey mayBind
  verifyEd25519 pubkey (fun e => hashBatchPayload e.host source batch) signature

def settleBatch (channel : StateChannel) (batch : List BatchItem) : Contract Unit := do
  ensure ((channel.best batch).nonce ≠ channel.nonce) .invalidTimestamp
  writeChannel (channel.best batch)

/-- An empty batch is accepted and changes nothing. -/
def submitBatch (source : Address) (batch : List BatchItem) (signature pubkey : Bytes) :
    Contract Unit := do
  requireAuth source
  if batch = [] then pure ()
  else do
    let channel ← readOpenChannel source
    checkBatch source batch signature pubkey true
    ensure (Increasing batch) .invalidTimestamp
    settleBatch channel batch

/-- The channel is marked as closed before the refund, and removed after it. -/
def closeChannel (source : Address) : Contract Unit := do
  requireAuth source
  let channel ← readOpenChannel source
  writeChannel { channel with isClosed := true }
  let this ← getContractAddress
  if 0 < channel.deposit then transferToken channel.tokenContract this source channel.deposit
  else pure ()
  removeChannel source

/-- Anybody may present a batch; its nonces need not increase. -/
def disputeChannel (source : Address) (batch : List BatchItem) (signature pubkey : Bytes) :
    Contract Unit := do
  let channel ← readOpenChannel source
  let now ← getTimestamp
  ensure (channel.disputeTimeout ≤ now) .timelockNotReady
  ensure (batch ≠ []) .invalidTimestamp
  checkBatch source batch signature pubkey false
  settleBatch channel batch

end PriceOracle.Model
