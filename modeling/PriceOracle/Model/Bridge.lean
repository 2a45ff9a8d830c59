import PriceOracle.Model.Operations
import PriceOracle.Model.Submissions

/-! # Prices from other chains

The wire format that every bridge shares, and the LayerZero endpoint's way in: a message is accepted
in the order of its pathway and attributed to the source and the asset that the pathway and the
mapping name. -/

namespace PriceOracle.Model

open Lib.Transaction Lib.MachineInt

/-- `foreign_asset(32) || price_le(16) || decimals_le(4) || timestamp_le(8) || nonce_le(8)`. -/
def pricePayloadLen : Nat := 32 + 16 + 4 + 8 + 8

/-- The bytes of `bytes` from `offset` on. -/
def readArray (n : Nat) (bytes : Bytes) (offset : Nat) : BytesN n :=
  ⟨(List.range n).map fun i => bytes.getD (offset + i) 0, by simp⟩

def encodePricePayload (payload : CrossChainPricePayload) : Bytes :=
  payload.foreignAsset.val ++ leBytes 16 (toU128 payload.price) ++
    leBytes 4 payload.decimals.toNat ++ leBytes 8 payload.timestamp.toNat ++
    leBytes 8 payload.nonce.toNat

def decodePricePayload (bytes : Bytes) : Except ErrorCode CrossChainPricePayload :=
  if bytes.length ≠ pricePayloadLen then .error .invalidProof
  else
    let priceBytes := readArray 16 bytes 32
    let decimalsBytes := readArray 4 bytes 48
    let timestampBytes := readArray 8 bytes 52
    let nonceBytes := readArray 8 bytes 60
    .ok
      { foreignAsset := readArray 32 bytes 0
        price := wrap (ofLeBytes priceBytes.val)
        price_i128 := isI128_wrap _
        decimals := UInt32.ofNat (ofLeBytes decimalsBytes.val)
        timestamp := UInt64.ofNat (ofLeBytes timestampBytes.val)
        nonce := UInt64.ofNat (ofLeBytes nonceBytes.val) }

/-- `normalize_bridged_price`: from the decimals of the bridge to those of the contract. A power of ten
beyond 128 bits wraps, and none is left of it when the division by it panics. -/
def normalizeBridgedPrice (rawPrice : Int) (targetDecimals sourceDecimals : Nat) : Option Int :=
  if sourceDecimals = targetDecimals then some rawPrice
  else if sourceDecimals < targetDecimals then
    some (satMul rawPrice (wrap (10 ^ (targetDecimals - sourceDecimals))))
  else
    let factor := wrap (10 ^ (sourceDecimals - targetDecimals))
    if factor = 0 then none else some (saturate (rawPrice.tdiv factor))

/-- The canonical name of a chain. -/
def validateChain (chain : Text) : Contract Unit := validateString 32 false chain

def writeForeignAsset (chain : Text) (foreignAddress : BytesN 32)
    (mapping : Option ForeignAssetMapping) : Contract Unit :=
  modifyBridge fun b => { b with
    foreignAsset := Function.update b.foreignAsset (chain, foreignAddress) mapping }

def readForeignAsset (chain : Text) (foreignAddress : BytesN 32) : Contract ForeignAssetMapping :=
  consult fun w => match w.store.bridge.foreignAsset (chain, foreignAddress) with
    | some mapping => .ok mapping
    | none => .error .foreignAssetNotMapped

def registerForeignAssetMapping (stellarAsset : Address) (chain : Text)
    (foreignAddress : BytesN 32) (decimals : Nat) : Contract Unit := asAdmin do
  validateChain chain
  checkRegisteredAsset stellarAsset
  let existing ← readStore fun _ st => st.bridge.foreignAsset (chain, foreignAddress)
  ensure (existing = none) .foreignAssetAlreadyMapped
  writeForeignAsset chain foreignAddress (some ⟨stellarAsset, chain, foreignAddress, decimals, true⟩)

def updateForeignAssetMapping (chain : Text) (foreignAddress : BytesN 32) (decimals : Nat)
    (enabled : Bool) : Contract Unit := asAdmin do
  validateChain chain
  let mapping ← readForeignAsset chain foreignAddress
  writeForeignAsset chain foreignAddress (some { mapping with
    decimals := decimals
    enabled := enabled })

def removeForeignAssetMapping (chain : Text) (foreignAddress : BytesN 32) : Contract Unit :=
    asAdmin do
  validateChain chain
  let _ ← readForeignAsset chain foreignAddress
  writeForeignAsset chain foreignAddress none

def resolveEnabledMapping (chain : Text) (foreignAddress : BytesN 32) :
    Contract ForeignAssetMapping := do
  let mapping ← readForeignAsset chain foreignAddress
  ensure (mapping.enabled = true) .foreignAssetMappingDisabled
  pure mapping

def setLayerzeroEndpoint (endpoint : Address) : Contract Unit := asAdmin do
  modifyBridge fun b => { b with lzEndpoint := some endpoint }

def setLzChainName (srcEid : Nat) (chain : Text) : Contract Unit := asAdmin do
  validateChain chain
  modifyBridge fun b => { b with
    lzEidChainName := Function.update b.lzEidChainName srcEid (some chain) }

def setTrustedRemote (srcEid : Nat) (sender : BytesN 32) (bridgeSource : Address) :
    Contract Unit := asAdmin do
  checkSource bridgeSource
  modifyBridge fun b => { b with
    lzTrustedRemote := Function.update b.lzTrustedRemote (srcEid, sender) (some bridgeSource) }

/-- The inbound nonce of the pathway stays. -/
def removeTrustedRemote (srcEid : Nat) (sender : BytesN 32) : Contract Unit := asAdmin do
  modifyBridge fun b => { b with
    lzTrustedRemote := Function.update b.lzTrustedRemote (srcEid, sender) none }

def Store.inboundNonce (st : Store) (srcEid : Nat) (sender : BytesN 32) : Nat :=
  (st.bridge.lzInboundNonce (srcEid, sender)).getD 0

/-- The endpoint is the configured one, and calls itself. -/
def checkEndpoint (endpoint : Address) : Contract Unit := do
  let configured ← consult fun w => match w.store.bridge.lzEndpoint with
    | some endpoint => .ok endpoint
    | none => .error .lzEndpointNotConfigured
  ensure (endpoint = configured) .notAuthorized
  requireAuth endpoint

/-- Each pathway counts its messages from 1. -/
def acceptInboundNonce (srcEid : Nat) (sender : BytesN 32) (nonce : Nat) : Contract Unit := do
  let last ← readStore fun _ st => st.inboundNonce srcEid sender
  ensure (nonce = wrap64 (last + 1)) .lzNonceOutOfOrder
  modifyBridge fun b => { b with
    lzInboundNonce := Function.update b.lzInboundNonce (srcEid, sender) (some nonce) }

def readTrustedRemote (srcEid : Nat) (sender : BytesN 32) : Contract Address :=
  consult fun w => match w.store.bridge.lzTrustedRemote (srcEid, sender) with
    | some bridgeSource => .ok bridgeSource
    | none => .error .lzRemoteNotTrusted

def readChainName (srcEid : Nat) : Contract Text :=
  consult fun w => match w.store.bridge.lzEidChainName srcEid with
    | some chain => .ok chain
    | none => .error .lzChainNameNotConfigured

/-- The nonce is advanced before the message is looked at; a panic takes it back. The id of the
message is for its event only. -/
def lzReceive (endpoint : Address) (srcEid : Nat) (sender : BytesN 32) (nonce : Nat)
    (_guid : BytesN 32) (message : Bytes) : Contract Unit := do
  checkNotPaused
  checkEndpoint endpoint
  acceptInboundNonce srcEid sender nonce
  let bridgeSource ← readTrustedRemote srcEid sender
  let chain ← readChainName srcEid
  let payload ← consult fun _ => decodePricePayload message
  let mapping ← resolveEnabledMapping chain payload.foreignAsset
  applyBridgedPrice bridgeSource mapping.stellarAsset payload.price payload.timestamp.toNat

end PriceOracle.Model
