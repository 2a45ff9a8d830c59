import PriceOracle.Model.Store

/-! # Proofs of relayed price events

`verify_event_proof` checks that a price event is a leaf of the Merkle tree of a ledger. A leaf and an
inner node are hashed under different tags; on which side the siblings of a proof stand is read from
one mask of the relay configuration. -/

namespace PriceOracle.Model.CrossChainRelay

open Lib.MachineInt

structure PriceEventPayload where
  price : Int
  price_i128 : IsI128 price
  timestamp : UInt64
  ledgerSequence : UInt32
deriving DecidableEq

structure CrossChainRelayConfig where
  enabled : Bool
  quorumThresholdPct : Nat
  merklePathBits : UInt32
deriving DecidableEq

def merkleLeafHash (host : Host) (leafData : Bytes) : Bytes := host.sha256 ([0] ++ leafData)

def merkleNodeHash (host : Host) (left right : Bytes) : Bytes :=
  host.sha256 ([1] ++ left ++ right)

/-- `price_le(16) || timestamp_le(8) || ledger_sequence_le(4)`; a negative price is serialised as
zero. -/
def serializePayload (payload : PriceEventPayload) : Bytes :=
  let priceU128 := if 0 ≤ payload.price then toU128 payload.price else 0
  leBytes 16 priceU128 ++ leBytes 8 payload.timestamp.toNat ++
    leBytes 4 payload.ledgerSequence.toNat

/-- The walk from level `i` on. The shift by the level wraps at the width of the mask. -/
def walkProof (host : Host) (pathBits : UInt32) : Nat → Bytes → List Bytes → Bytes
  | _, current, [] => current
  | i, current, sibling :: rest =>
    let bit := (pathBits.toNat >>> (i % 32)) &&& 1
    walkProof host pathBits (i + 1)
      (if bit = 0 then merkleNodeHash host current sibling
        else merkleNodeHash host sibling current) rest

def verifyEventProof (host : Host) (config : Option CrossChainRelayConfig) (headerHash : Bytes)
    (proof : List Bytes) (eventData : PriceEventPayload) : Bool :=
  if proof.isEmpty then false
  else
    let leaf := merkleLeafHash host (serializePayload eventData)
    let pathBits := (config.map CrossChainRelayConfig.merklePathBits).getD 0
    walkProof host pathBits 0 leaf proof = headerHash

end PriceOracle.Model.CrossChainRelay
