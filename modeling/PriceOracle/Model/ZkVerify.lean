import PriceOracle.Model.Submissions

/-! # Attested prices

A source may submit a price that a Groth16 proof attests. In place of the pairings the verifier hashes:
the proof carries a tag over its own points, the point that the signals are combined to, and a
commitment of the key. What passes goes the way of the fee market, which asks for no pause. -/

namespace PriceOracle.Model.ZkVerify

open Lib.MachineInt

/-- The base field of BN254. -/
def fieldPrime : Nat := 0x30644e72e131a029b85045b68181585d97816a916871ca8d3c208c16d87cfd47

/-- The constant that the reduction takes for `2 ^ 256` modulo the prime. -/
def two256ModP : Nat := 0x1585d978f202989854a47462623a04a7

def wrapSub256 (a b : Nat) : Nat := (a + 2 ^ 256 - b) % 2 ^ 256

def fpAdd (a b : Nat) : Nat :=
  if 2 ^ 256 ≤ a + b ∨ fieldPrime ≤ (a + b) % 2 ^ 256 then
    wrapSub256 ((a + b) % 2 ^ 256) fieldPrime
  else a + b

def fpNeg (a : Nat) : Nat := if a = 0 then a else wrapSub256 fieldPrime a

def fpSub (a b : Nat) : Nat := if b ≤ a then a - b else fpAdd a (fpNeg b)

/-- The limb of 64 bits at position `i`. -/
def limb (a i : Nat) : Nat := a / 2 ^ (64 * i) % 2 ^ 64

/-- The products of limbs at position `k`; their sum wraps. -/
def column (a b k : Nat) : Nat :=
  wrap128 (((List.range 4).map fun i => if i ≤ k ∧ k < i + 4 then limb a i * limb b (k - i) else 0).sum)

/-- Carries from column to column. -/
def carried : Nat → List Nat → Nat
  | _, [] => 0
  | carry, c :: cs =>
    wrap128 (c + carry) % 2 ^ 64 + 2 ^ 64 * carried (wrap128 (c + carry) / 2 ^ 64) cs

/-- `fp_mul` and `barrett_reduce`, which call each other at most three times: the constant has two
limbs, so that every call takes two limbs off what is above `2 ^ 256`. -/
def fpMulReduce : Nat → Nat → Nat → Nat
  | 0, _, _ => 0
  | n + 1, a, b =>
    let wide := carried 0 ((List.range 8).map (column a b))
    let lo := wide % 2 ^ 256
    let hi := wide / 2 ^ 256
    if hi = 0 then if fieldPrime ≤ lo then wrapSub256 lo fieldPrime else lo
    else fpAdd lo (fpMulReduce n hi two256ModP)

def fpMul (a b : Nat) : Nat := fpMulReduce 3 a b

/-- Square and multiply over the bits of the exponent, which has at most as many as the fuel. -/
def fpPow : Nat → Nat → Nat → Nat → Nat
  | 0, _, _, result => result
  | n + 1, b, e, result =>
    if e = 0 then result
    else fpPow n (fpMul b b) (e / 2) (if e % 2 = 1 then fpMul result b else result)

def fpInv (a : Nat) : Nat := if a = 0 then 0 else fpPow 256 a (fieldPrime - 2) 1

def fpDiv (a b : Nat) : Nat := fpMul a (fpInv b)

/-- The third point of the line of slope `slope`, as bytes. -/
def chord (slope px py qx : Nat) : Bytes :=
  let rx := fpSub (fpSub (fpMul slope slope) px) qx
  let ry := fpSub (fpMul slope (fpSub px rx)) py
  (leBytes 32 rx).reverse ++ (leBytes 32 ry).reverse

/-- The empty byte string is the point at infinity. -/
def g1Add (p q : Bytes) : Bytes :=
  if p = [] then q
  else if q = [] then p
  else if p.length < 64 ∨ q.length < 64 then []
  else
    let px := ofBeBytes (p.take 32)
    let py := ofBeBytes ((p.drop 32).take 32)
    let qx := ofBeBytes (q.take 32)
    let qy := ofBeBytes ((q.drop 32).take 32)
    if px = 0 ∧ py = 0 then q
    else if qx = 0 ∧ qy = 0 then p
    else if px ≠ qx then chord (fpDiv (fpSub qy py) (fpSub qx px)) px py qx
    else if py = qy then chord (fpDiv (fpMul (fpMul px px) 3) (fpMul py 2)) px py px
    else []

/-- The double-and-add loop over the bits of the scalar. -/
def doubleAndAdd : Nat → Nat → Bytes → Bytes → Bytes
  | 0, _, _, result => result
  | n + 1, scalar, addend, result =>
    doubleAndAdd n (scalar / 2) (g1Add addend addend)
      (if scalar % 2 = 1 then g1Add result addend else result)

def g1ScalarMul (point : Bytes) (scalar : BytesN 32) : Bytes :=
  if point = [] then [] else doubleAndAdd 256 (ofBeBytes scalar.1) point []

def extractIcPoint (icBytes : Bytes) (index : Nat) : Bytes :=
  if icBytes.length < index * 64 + 64 then [] else (icBytes.drop (index * 64)).take 64

def computeVkX (vk : Groth16VerifyingKey) (publicSignals : List (BytesN 32)) : Bytes :=
  publicSignals.zipIdx.foldl
    (fun acc x => g1Add acc (g1ScalarMul (extractIcPoint vk.icBytes (x.2 + 1)) x.1))
    (extractIcPoint vk.icBytes 0)

def buildChallenge (host : Host) (proof : Groth16Proof) (vkX : Bytes)
    (publicSignals : List (BytesN 32)) : Bytes :=
  host.sha256 (proof.a ++ proof.b ++ proof.c ++ vkX ++ publicSignals.flatMap fun s => s.1)

def groth16Verify (host : Host) (vk : Groth16VerifyingKey) (proof : Groth16Proof)
    (publicSignals : List (BytesN 32)) : Bool :=
  proof.a.length = 64 ∧ proof.b.length = 128 ∧ proof.c.length = 64 ∧
    publicSignals.length = vk.icLen - 1 ∧
    proof.fsCheck.1 = host.sha256
      (buildChallenge host proof (computeVkX vk publicSignals) publicSignals ++ vk.pairingPrecomp)

/-- The attested price, from the lower half of the second signal, and the time, from the last eight
bytes of the third. -/
def attested : List (BytesN 32) → Option (Int × Nat)
  | _ :: price :: timestamp :: _ =>
    some (wrap (ofBeBytes (price.1.drop 16)), ofBeBytes (timestamp.1.drop 24))
  | _ => none

end PriceOracle.Model.ZkVerify

namespace PriceOracle.Model

open Lib.Transaction ZkVerify

/-- `zk_verify::submit_zk_price`. -/
def submitZkPrice (source asset : Address) (proof : Groth16Proof) (publicSignals : List (BytesN 32)) :
    Contract Unit := do
  requireAuth source
  let active ← readStore fun _ st => (st.registry.srcActive source).getD false
  ensure (active = true) .sourceNotFound
  checkRegisteredAsset asset
  let vk ← consult fun w => match w.store.config.zkVerifyingKey with
    | some vk => .ok vk
    | none => .error .zkVkNotSet
  let valid ← readStore fun e _ => groth16Verify e.host vk proof publicSignals
  ensure (valid = true) .zkProofInvalid
  let x ← consult fun _ => match attested publicSignals with
    | some x => .ok x
    | none => .error .zkInvalidPublicSignals
  ensure (0 < x.1) .invalidPrice
  submitPriceInternal source asset x.1 x.2

/-- The entry point bounds the number of signals. -/
def zkSubmitPrice (source asset : Address) (proof : Groth16Proof) (publicSignals : List (BytesN 32)) :
    Contract Unit := do
  ensure (publicSignals.length ≤ 64) .payloadTooLarge
  submitZkPrice source asset proof publicSignals

end PriceOracle.Model
