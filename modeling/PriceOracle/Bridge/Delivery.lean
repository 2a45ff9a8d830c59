import PriceOracle.Lib.Run
import PriceOracle.Model.Bridge
import PriceOracle.Submissions.Paths

/-! # The bridge

What is on the wire, and which of the messages are accepted. -/

/-! ## The wire format of a bridged price

Encoding and decoding are inverse to each other: the payloads are exactly the strings of the
format's length. -/

namespace PriceOracle.Bridge

open Model Lib.MachineInt

section Fields

variable {n : Nat} {bytes : Bytes}

theorem readArray_add (m n offset : Nat) (bytes : Bytes) :
    (readArray (m + n) bytes offset).val =
      (readArray m bytes offset).val ++ (readArray n bytes (offset + m)).val := by
  simp [readArray,List.range_add,Nat.add_assoc]

theorem readArray_zero (h : bytes.length = n) : (readArray n bytes 0).val = bytes := by
  subst h
  refine List.ext_getElem (by simp [readArray]) fun i _ hi => ?_
  simp [readArray,List.getElem?_eq_getElem hi]

end Fields

section RoundTrip

variable {bytes : Bytes}

theorem decodePricePayload_invalid (h : bytes.length ≠ pricePayloadLen) :
    decodePricePayload bytes = .error .invalidProof := by
  rw [decodePricePayload,if_pos h]

theorem decodePricePayload_valid (h : bytes.length = pricePayloadLen) :
    decodePricePayload bytes =
      .ok
        { foreignAsset := readArray 32 bytes 0
          price := wrap (ofLeBytes (readArray 16 bytes 32).val)
          price_i128 := isI128_wrap _
          decimals := UInt32.ofNat (ofLeBytes (readArray 4 bytes 48).val)
          timestamp := UInt64.ofNat (ofLeBytes (readArray 8 bytes 52).val)
          nonce := UInt64.ofNat (ofLeBytes (readArray 8 bytes 60).val) } := by
  rw [decodePricePayload,if_neg (not_not.mpr h)]

theorem leBytes_readArray (n offset : Nat) :
    leBytes n (ofLeBytes (readArray n bytes offset).val) = (readArray n bytes offset).val := by
  have hle := leBytes_ofLeBytes (readArray n bytes offset).val
  rwa [(readArray n bytes offset).property] at hle

theorem ofLeBytes_readArray_lt (n offset : Nat) :
    ofLeBytes (readArray n bytes offset).val < 256 ^ n := by
  have hlt := ofLeBytes_lt (readArray n bytes offset).val
  rwa [(readArray n bytes offset).property] at hlt

theorem encodePricePayload_of_decode {payload : CrossChainPricePayload}
    (h : decodePricePayload bytes = .ok payload) : encodePricePayload payload = bytes := by
  by_cases hlen : bytes.length = pricePayloadLen
  · rw [decodePricePayload_valid hlen] at h
    injection h with h
    subst h
    have hwhole := readArray_zero hlen
    rw [pricePayloadLen,readArray_add,readArray_add,readArray_add,readArray_add] at hwhole
    rw [encodePricePayload,toU128_wrap (ofLeBytes_readArray_lt 16 32),
      UInt32.toNat_ofNat_of_lt' (ofLeBytes_readArray_lt 4 48),
      UInt64.toNat_ofNat_of_lt' (ofLeBytes_readArray_lt 8 52),
      UInt64.toNat_ofNat_of_lt' (ofLeBytes_readArray_lt 8 60),leBytes_readArray,
      leBytes_readArray,leBytes_readArray,leBytes_readArray]
    exact hwhole
  · rw [decodePricePayload_invalid hlen] at h
    cases h

theorem encodePricePayload_inj {p q : CrossChainPricePayload}
    (h : encodePricePayload p = encodePricePayload q) : p = q := by
  obtain ⟨h,hnonce⟩ := List.append_inj' h (by simp [leBytes_length])
  obtain ⟨h,htimestamp⟩ := List.append_inj' h (by simp [leBytes_length])
  obtain ⟨h,hdecimals⟩ := List.append_inj' h (by simp [leBytes_length])
  obtain ⟨hasset,hprice⟩ := List.append_inj' h (by simp [leBytes_length])
  obtain ⟨asset,price,hp,decimals,timestamp,nonce⟩ := p
  obtain ⟨asset',price',hq,decimals',timestamp',nonce'⟩ := q
  have hsame := leBytes_inj (toU128_lt _) (toU128_lt _) hprice
  obtain rfl : price = price' := by rw [← wrap_toU128 hp,hsame,wrap_toU128 hq]
  obtain rfl := Subtype.ext hasset
  obtain rfl := UInt32.toNat_inj.1 (leBytes_inj decimals.toNat_lt decimals'.toNat_lt hdecimals)
  obtain rfl := UInt64.toNat_inj.1 (leBytes_inj timestamp.toNat_lt timestamp'.toNat_lt htimestamp)
  obtain rfl := UInt64.toNat_inj.1 (leBytes_inj nonce.toNat_lt nonce'.toNat_lt hnonce)
  rfl

theorem decodePricePayload_encodePricePayload (payload : CrossChainPricePayload) :
    decodePricePayload (encodePricePayload payload) = .ok payload := by
  have hread := decodePricePayload_valid (show (encodePricePayload payload).length = 68 by
    simp [encodePricePayload,leBytes_length,payload.foreignAsset.property])
  rw [hread,encodePricePayload_inj (encodePricePayload_of_decode hread)]

end RoundTrip

/-- Payloads and strings of 68 bytes determine each other; nothing else decodes. -/
theorem pricePayload_bijection :
    (∀ payload, decodePricePayload (encodePricePayload payload) = .ok payload) ∧
    (∀ bytes : Bytes, bytes.length = 68 →
      ∃ payload, decodePricePayload bytes = .ok payload ∧ encodePricePayload payload = bytes) ∧
    ∀ bytes : Bytes, bytes.length ≠ 68 → decodePricePayload bytes = .error .invalidProof := by
  refine ⟨decodePricePayload_encodePricePayload,?_,?_⟩
  · intro bytes h
    exact ⟨_,decodePricePayload_valid h,encodePricePayload_of_decode (decodePricePayload_valid h)⟩
  · intro bytes h
    exact decodePricePayload_invalid h

end PriceOracle.Bridge

/-! ## What the bridge accepts

The endpoint may deliver the messages of a pathway in any order, repeat them and lose them, while
the administrator changes remotes and mappings. -/

namespace PriceOracle.Bridge

open Model Lib.Transaction Lib.MachineInt Lib.Run Submissions Aggregation

/-- An endpoint id and the remote sender behind it. -/
abbrev Pathway := Nat × BytesN 32

inductive BridgeCall
  | receive (endpoint : Address) (srcEid : Nat) (sender : BytesN 32) (nonce : Nat)
    (guid : BytesN 32) (message : Bytes)
  | setEndpoint (endpoint : Address)
  | setChainName (srcEid : Nat) (chain : Text)
  | setTrustedRemote (srcEid : Nat) (sender : BytesN 32) (bridgeSource : Address)
  | removeTrustedRemote (srcEid : Nat) (sender : BytesN 32)
  | registerMapping (stellarAsset : Address) (chain : Text) (foreignAddress : BytesN 32)
    (decimals : Nat)
  | updateMapping (chain : Text) (foreignAddress : BytesN 32) (decimals : Nat) (enabled : Bool)
  | removeMapping (chain : Text) (foreignAddress : BytesN 32)

def BridgeCall.body : BridgeCall → Contract Unit
  | receive endpoint srcEid sender nonce guid message =>
    lzReceive endpoint srcEid sender nonce guid message
  | setEndpoint endpoint => setLayerzeroEndpoint endpoint
  | setChainName srcEid chain => setLzChainName srcEid chain
  | setTrustedRemote srcEid sender bridgeSource => Model.setTrustedRemote srcEid sender bridgeSource
  | removeTrustedRemote srcEid sender => Model.removeTrustedRemote srcEid sender
  | registerMapping stellarAsset chain foreignAddress decimals =>
    registerForeignAssetMapping stellarAsset chain foreignAddress decimals
  | updateMapping chain foreignAddress decimals enabled =>
    updateForeignAssetMapping chain foreignAddress decimals enabled
  | removeMapping chain foreignAddress => removeForeignAssetMapping chain foreignAddress

/-- A call, or a change elsewhere, such as a pause. -/
inductive BridgeAct
  | call (call : BridgeCall)
  | elsewhere (rest : Store)

structure BridgeTx where
  env : Env
  act : BridgeAct

def execBridge (st : Store) (t : BridgeTx) : Store :=
  match t.act with
  | .call call => invoke call.body t.env st
  | .elsewhere rest => { rest with bridge := st.bridge }

/-- What a remote sent under a nonce. -/
structure Message where
  guid : BytesN 32
  bytes : Bytes

abbrev Sent := Pathway → Nat → Option Message

/-- The configured endpoint calls only to deliver what was sent on the pathway under the nonce. -/
def Honest (sent : Sent) (st : Store) (t : BridgeTx) : Prop :=
  ∀ endpoint srcEid sender nonce guid bytes,
    t.act = .call (.receive endpoint srcEid sender nonce guid bytes) →
    st.bridge.lzEndpoint = some endpoint → t.env.authorized endpoint = true →
      sent (srcEid, sender) nonce = some ⟨guid, bytes⟩

/-- The step delivers the message on the pathway under the nonce. -/
def Delivers (p : Pathway) (nonce : Nat) (m : Message) (t : BridgeTx) : Prop :=
  ∃ endpoint, t.act = .call (.receive endpoint p.1 p.2 nonce m.guid m.bytes)

/-- The nonce that the step accepts on the pathway. -/
def acceptedBy (p : Pathway) (x : Store × BridgeTx) : Option Nat :=
  match x.2.act with
  | .call (.receive endpoint srcEid sender nonce guid bytes) =>
    if (srcEid, sender) = p ∧
        failure (lzReceive endpoint srcEid sender nonce guid bytes) x.2.env x.1 = none then
      some nonce
    else none
  | _ => none

/-- The source that the pathway stands for, and the asset that the mapping names. -/
structure Attributed (st : Store) (p : Pathway) (m : Message) (payload : CrossChainPricePayload)
    (source asset : Address) : Prop where
  remote : st.bridge.lzTrustedRemote p = some source
  decoded : decodePricePayload m.bytes = .ok payload
  mapping : ∃ chain mapping, st.bridge.lzEidChainName p.1 = some chain ∧
    st.bridge.foreignAsset (chain, payload.foreignAsset) = some mapping ∧
    mapping.enabled = true ∧ mapping.stellarAsset = asset

/-- At most the submission under the key is written, at the price. -/
def WritesAt (key : Address × Address) (price : Int) (m m' : Map (Address × Address) PriceEntry) :
    Prop :=
  m' = m ∨ ∃ entry, entry.price = price ∧ m' = Function.update m key (some entry)

/-- The message is applied to the source and the asset that are named at that moment. -/
def Applied (p : Pathway) (m : Message) (st st' : Store) : Prop :=
  ∃ payload source asset, Attributed st p m payload source asset ∧
    WritesAt (asset, source) payload.price st.submission st'.submission

/-- On each pathway the nonces are accepted in order, from 1 on and none twice. An accepted message was
sent there and is applied to what its pathway names; a rejected one changes nothing. -/
structure DeliveriesSound (sent : Sent) (st : Store) (ts : List BridgeTx) : Prop where
  ordered : ∀ p, (steps execBridge st ts).filterMap (acceptedBy p) =
    List.range' 1 ((run execBridge st ts).inboundNonce p.1 p.2)
  applied : ∀ x ∈ steps execBridge st ts, ∀ p nonce m, Delivers p nonce m x.2 →
    acceptedBy p x = some nonce → sent p nonce = some m ∧
      Applied p m x.1 (execBridge x.1 x.2) ∧
      ∀ p', p' ≠ p →
        (execBridge x.1 x.2).inboundNonce p'.1 p'.2 = x.1.inboundNonce p'.1 p'.2
  rejected : ∀ x ∈ steps execBridge st ts, ∀ p nonce m, Delivers p nonce m x.2 →
    acceptedBy p x = none → execBridge x.1 x.2 = x.1

section Receiving

variable {env : Env} {st : Store} {w : World} {key : Address × Address} {price : Int}

/-- Worlds whose submissions differ at most under the key. -/
def Relays (key : Address × Address) (price : Int) (w w' : World) : Prop :=
  WritesAt key price w.store.submission w'.store.submission

instance : Std.Refl (Relays key price) := ⟨fun _ => .inl rfl⟩

instance : IsTrans World (Relays key price) where
  trans w v u hwv hvu := by
    unfold Relays at *
    rcases hvu with hsame | ⟨entry, hprice, hwritten⟩
    · rwa [hsame]
    · refine .inr ⟨entry, hprice, ?_⟩
      rcases hwv with hbefore | ⟨earlier, -, hbefore⟩
      · rw [hwritten, hbefore]
      · rw [hwritten, hbefore, Function.update_idem]

theorem relays_of_agree {T : List Region} (hT : Region.submissions ∉ T) {w w' : World}
    (h : layout.agreeOff T w w') : Relays key price w w' :=
  .inl (congrArg Prod.fst (h .submissions hT))

theorem relays_respects : RespectsSubmissions (Relays key price) where
  books _ _ h := relays_of_agree (by decide) h
  auth a w := (requireAuth_frame a w).mono fun _ _ h => relays_of_agree (by decide) h
  commit asset decimals recompute d w _ :=
    (commitRound_frame asset w.env.sequence decimals recompute d w).mono fun _ _ h =>
      relays_of_agree (by decide) h

theorem applyBridgedPrice_relays (source asset : Address) (price : Int) (timestamp : Nat) :
    Sat (applyBridgedPrice source asset price timestamp) w fun _ u =>
      Relays (asset,source) price w u ∧ u.store.bridge = w.store.bridge := by
  have hadmits : Admits (Relays (asset,source) price) w [] relayedGates ⟨asset,source,price⟩ :=
    fun t entry _ _ hprice _ => (sat_update _ _).2 (.inr ⟨entry,hprice,rfl⟩)
  refine (applyBridgedPrice_run relays_respects hadmits timestamp).mono fun _ u hu => ?_
  exact ⟨hu.within.rel,hu.within.frame .bridge (by decide)⟩

/-- What a delivery that is accepted has found, and what it has done. -/
structure Received (env : Env) (st : Store) (endpoint : Address) (p : Pathway) (nonce : Nat)
    (m : Message) (st' : Store) : Prop where
  configured : st.bridge.lzEndpoint = some endpoint
  signed : env.authorized endpoint = true
  next : nonce = wrap64 (st.inboundNonce p.1 p.2 + 1)
  counted : st'.bridge = { st.bridge with
    lzInboundNonce := Function.update st.bridge.lzInboundNonce p (some nonce) }
  applied : Applied p m st st'

theorem checkEndpoint_sat (endpoint : Address) :
    Sat (checkEndpoint endpoint) w fun _ w' => w.store.bridge.lzEndpoint = some endpoint ∧
      w.env.authorized endpoint = true ∧ w'.store = w.store := by
  rw [checkEndpoint,sat_bind]
  refine (sat_lookup (o := w.store.bridge.lzEndpoint) ?_).mono ?_
  · cases w.store.bridge.lzEndpoint <;> rfl
  · rintro configured u ⟨hfound,hu⟩
    rw [hu,sat_bind,sat_ensure]
    rintro rfl
    rw [sat_requireAuth]
    exact fun hsigned => ⟨hfound,hsigned,rfl⟩

theorem resolveEnabledMapping_sat (chain : Text) (foreignAddress : BytesN 32) :
    Sat (resolveEnabledMapping chain foreignAddress) w fun mapping w' =>
      w.store.bridge.foreignAsset (chain,foreignAddress) = some mapping ∧
        mapping.enabled = true ∧ w' = w := by
  rw [resolveEnabledMapping,sat_bind]
  refine (sat_lookup (o := w.store.bridge.foreignAsset (chain,foreignAddress)) ?_).mono ?_
  · cases w.store.bridge.foreignAsset (chain,foreignAddress) <;> rfl
  · rintro mapping u ⟨hfound,hu⟩
    rw [hu,sat_bind,sat_ensure]
    exact fun henabled => (sat_pure _).2 ⟨hfound,henabled,rfl⟩

theorem lzReceive_sat (endpoint : Address) (p : Pathway) (nonce : Nat) (m : Message) :
    Sat (lzReceive endpoint p.1 p.2 nonce m.guid m.bytes) (World.enter env st) fun _ w =>
      Received env st endpoint p nonce m w.store := by
  rw [lzReceive,checkNotPaused,sat_bind,sat_bind,sat_readStore,sat_ensure]
  intro _
  rw [sat_bind]
  refine (checkEndpoint_sat endpoint).mono ?_
  rintro _ u ⟨hconfigured,hsigned,hu⟩
  simp only [acceptInboundNonce,sat_bind,sat_readStore,sat_ensure,modifyBridge,sat_update]
  intro hnext
  refine (sat_lookup (o := u.store.bridge.lzTrustedRemote p) ?_).mono ?_
  · cases u.store.bridge.lzTrustedRemote p <;> rfl
  rintro source v ⟨hremote,rfl⟩
  refine (sat_lookup (o := u.store.bridge.lzEidChainName p.1) ?_).mono ?_
  · cases u.store.bridge.lzEidChainName p.1 <;> rfl
  rintro chain v ⟨hchain,rfl⟩
  rw [sat_consult]
  intro payload hdecoded
  refine (resolveEnabledMapping_sat chain payload.foreignAsset).mono ?_
  rintro mapping v ⟨hmapping,henabled,hv⟩
  subst hv
  refine (applyBridgedPrice_relays source mapping.stellarAsset payload.price _).mono ?_
  rintro _ x ⟨hrelays,hbridge⟩
  have hstart : u.store = st := hu
  refine ⟨hconfigured,hsigned,?_,?_,payload,source,mapping.stellarAsset,⟨?_,hdecoded,chain,
    mapping,?_,?_,henabled,rfl⟩,?_⟩
  · rwa [hstart] at hnext
  · rw [hbridge,← hstart]
  · rw [← hstart]
    exact hremote
  · rw [← hstart]
    exact hchain
  · rw [← hstart]
    exact hmapping
  · rw [← hstart]
    exact hrelays

end Receiving

def SameNonces (w w' : World) : Prop :=
  w'.store.bridge.lzInboundNonce = w.store.bridge.lzInboundNonce

instance : Std.Refl SameNonces := ⟨fun _ => rfl⟩

instance : IsTrans World SameNonces := ⟨fun _ _ _ h h' => Eq.trans h' h⟩

theorem sameNonces_frame {T : List Region} {α : Type} {m : Contract α} (hT : Region.bridge ∉ T)
    (h : Frame T m) : Preserves SameNonces m :=
  h.weaken fun _ _ hw => congrArg Model.Bridge.lzInboundNonce (hw .bridge hT)

theorem validateChain_same (chain : Text) : Preserves SameNonces (validateChain chain) :=
  .check fun _ => .check fun _ => preserves_ensure _ _

theorem writeForeignAsset_same (chain : Text) (foreignAddress : BytesN 32)
    (mapping : Option ForeignAssetMapping) :
    Preserves SameNonces (writeForeignAsset chain foreignAddress mapping) :=
  preserves_update fun _ => rfl

theorem asAdmin_same {α : Type} {body : Contract α} (h : Preserves SameNonces body) :
    Preserves SameNonces (asAdmin body) :=
  .lookup fun admin => (sameNonces_frame (by decide) (requireAuth_frame admin)).bind fun _ => h

theorem setting_same (call : BridgeCall)
    (h : ∀ endpoint srcEid sender nonce guid bytes,
      call ≠ .receive endpoint srcEid sender nonce guid bytes) :
    Preserves SameNonces call.body := by
  cases call with
  | receive endpoint srcEid sender nonce guid bytes => exact (h _ _ _ _ _ _ rfl).elim
  | setEndpoint endpoint => exact asAdmin_same (preserves_update fun _ => rfl)
  | setChainName srcEid chain =>
    exact asAdmin_same ((validateChain_same chain).bind fun _ => preserves_update fun _ => rfl)
  | setTrustedRemote srcEid sender bridgeSource =>
    exact asAdmin_same ((sameNonces_frame (T := []) (by decide) (checkSource_frame _)).bind fun _ =>
      preserves_update fun _ => rfl)
  | removeTrustedRemote srcEid sender => exact asAdmin_same (preserves_update fun _ => rfl)
  | registerMapping stellarAsset chain foreignAddress decimals =>
    refine asAdmin_same ((validateChain_same chain).bind fun _ => ?_)
    refine (sameNonces_frame (T := []) (by decide) (checkRegisteredAsset_frame _)).bind fun _ => ?_
    refine .read fun _ => .check fun _ => ?_
    exact writeForeignAsset_same _ _ _
  | updateMapping chain foreignAddress decimals enabled =>
    refine asAdmin_same ((validateChain_same chain).bind fun _ => ?_)
    exact .lookup fun _ => writeForeignAsset_same _ _ _
  | removeMapping chain foreignAddress =>
    refine asAdmin_same ((validateChain_same chain).bind fun _ => ?_)
    exact .lookup fun _ => writeForeignAsset_same _ _ _

section Steps

variable {sent : Sent} {env : Env} {st : Store} {t : BridgeTx} {p : Pathway}
  {past : List (Store × BridgeTx)} {endpoint : Address} {st' : Store} {m : Message} {nonce : Nat}

theorem Delivers.unique {p' : Pathway} {nonce nonce' : Nat} {m m' : Message}
    (h' : Delivers p' nonce' m' t)
    (h : t.act = .call (.receive endpoint p.1 p.2 nonce m.guid m.bytes)) :
    p' = p ∧ nonce' = nonce ∧ m' = m := by
  obtain ⟨endpoint',h'⟩ := h'
  rw [h] at h'
  obtain ⟨_,_⟩ := p
  obtain ⟨_,_⟩ := m
  cases h'
  exact ⟨rfl,rfl,rfl⟩

/-- A step accepts one message, or none. -/
inductive BridgeEffect (st : Store) (t : BridgeTx) (st' : Store) : Prop
  | received (endpoint : Address) (p : Pathway) (nonce : Nat) (m : Message)
    (hact : t.act = .call (.receive endpoint p.1 p.2 nonce m.guid m.bytes))
    (haccepted : ∀ p', acceptedBy p' (st, t) = if p = p' then some nonce else none)
    (hreceived : Received t.env st endpoint p nonce m st')
  | idle (hnone : ∀ p, acceptedBy p (st, t) = none)
    (hnonces : st'.bridge.lzInboundNonce = st.bridge.lzInboundNonce)
    (hrejected : ∀ p nonce m, Delivers p nonce m t → st' = st)

theorem receive_effect (endpoint : Address) (p : Pathway) (nonce : Nat) (m : Message) :
    let t : BridgeTx := ⟨env,.call (.receive endpoint p.1 p.2 nonce m.guid m.bytes)⟩
    BridgeEffect st t (execBridge st t) := by
  intro t
  change BridgeEffect st t (invoke (lzReceive endpoint p.1 p.2 nonce m.guid m.bytes) env st)
  rcases invoke_cases (lzReceive_sat endpoint p nonce m) with
    ⟨hfail,hstore,-⟩ | ⟨hok,w,hreceived,hw,-⟩
  · rw [hstore]
    refine .idle (fun p' => if_neg fun h => hfail h.2) rfl fun _ _ _ _ => rfl
  · rw [← hw]
    refine .received endpoint p nonce m rfl (fun p' => ?_) hreceived
    change (if (p.1,p.2) = p' ∧ failure _ env st = none then some nonce else none) = _
    by_cases hp : p = p'
    · rw [if_pos ⟨hp,hok⟩,if_pos hp]
    · rw [if_neg fun h => hp h.1,if_neg hp]

theorem execBridge_effect (st : Store) (t : BridgeTx) : BridgeEffect st t (execBridge st t) := by
  obtain ⟨env,act⟩ := t
  cases act with
  | elsewhere rest =>
    refine .idle (fun _ => rfl) rfl ?_
    rintro p nonce m ⟨_,⟨⟩⟩
  | call call =>
    have hsetting (h : ∀ endpoint srcEid sender nonce guid bytes,
        call ≠ .receive endpoint srcEid sender nonce guid bytes) :
        BridgeEffect st ⟨env,.call call⟩ (invoke call.body env st) := by
      refine .idle (fun p => ?_) ?_ ?_
      · cases call with
        | receive => exact (h _ _ _ _ _ _ rfl).elim
        | _ => rfl
      · exact invoke_of_sat (P := fun st' => st'.bridge.lzInboundNonce = st.bridge.lzInboundNonce)
          rfl (setting_same call h _)
      · rintro p nonce m ⟨endpoint,hact⟩
        exact (h _ _ _ _ _ _ (BridgeAct.call.inj hact)).elim
    cases call with
    | receive endpoint srcEid sender nonce guid bytes =>
      exact receive_effect endpoint (srcEid,sender) nonce ⟨guid,bytes⟩
    | _ => exact hsetting fun _ _ _ _ _ _ h => by cases h

/-- The inbound nonce is the number of the messages accepted, which are counted from 1. -/
structure InOrder (past : List (Store × BridgeTx)) (st : Store) : Prop where
  counted : ∀ p : Pathway, past.filterMap (acceptedBy p) = List.range' 1 (st.inboundNonce p.1 p.2)
  bounded : ∀ p : Pathway, st.inboundNonce p.1 p.2 < 2 ^ 64

theorem next_of_received
    (hsent : ∀ p, sent p 0 = none) (hbounded : st.inboundNonce p.1 p.2 < 2 ^ 64)
    (hm : sent p nonce = some m) (h : Received env st endpoint p nonce m st') :
    nonce = st.inboundNonce p.1 p.2 + 1 ∧ nonce < 2 ^ 64 := by
  have hnext := h.next
  have hpositive : nonce ≠ 0 := by
    rintro rfl
    rw [hsent p] at hm
    cases hm
  unfold wrap64 at hnext
  omega

theorem Received.wasSent (hhonest : Honest sent st t)
    (hact : t.act = .call (.receive endpoint p.1 p.2 nonce m.guid m.bytes))
    (h : Received t.env st endpoint p nonce m st') : sent p nonce = some m :=
  hhonest endpoint p.1 p.2 nonce m.guid m.bytes hact h.configured h.signed

theorem Received.inboundNonce (h : Received env st endpoint p nonce m st') (p' : Pathway) :
    st'.inboundNonce p'.1 p'.2 = if p = p' then nonce else st.inboundNonce p'.1 p'.2 := by
  unfold Store.inboundNonce
  rw [h.counted]
  dsimp only
  rw [Function.update_apply]
  by_cases hp : p = p'
  · rw [if_pos hp,if_pos hp.symm]
    rfl
  · rw [if_neg hp,if_neg (Ne.symm hp)]

theorem inOrder_step (hsent : ∀ p, sent p 0 = none) (h : InOrder past st)
    (hhonest : Honest sent st t) : InOrder (past ++ [(st,t)]) (execBridge st t) := by
  cases execBridge_effect st t with
  | received endpoint p nonce m hact haccepted hreceived =>
    have hm := hreceived.wasSent hhonest hact
    obtain ⟨hnext,hlt⟩ := next_of_received hsent (h.bounded p) hm hreceived
    refine ⟨fun p' => ?_,fun p' => ?_⟩
    · rw [filterMap_concat,h.counted,haccepted,hreceived.inboundNonce]
      split_ifs with hp
      · subst hp
        rw [Option.toList_some,hnext,List.range'_1_concat,add_comm 1]
      · rw [Option.toList_none,List.append_nil]
    · rw [hreceived.inboundNonce]
      split_ifs
      · exact hlt
      · exact h.bounded p'
  | idle hnone hnonces _ =>
    have hsame (p : Pathway) : (execBridge st t).inboundNonce p.1 p.2 = st.inboundNonce p.1 p.2 := by
      unfold Store.inboundNonce
      rw [hnonces]
    refine ⟨fun p => ?_,fun p => ?_⟩
    · rw [filterMap_concat,h.counted,hnone,hsame,Option.toList_none,List.append_nil]
    · rw [hsame]
      exact h.bounded p

end Steps

section Runs

variable {sent : Sent} {st : Store}

/-- Whatever an honest endpoint delivers, in whatever order and between whatever changes of remotes
and mappings, the deliveries are sound. -/
theorem deliveries_sound (ts : List BridgeTx) (hst : st.bridge.lzInboundNonce = fun _ => none)
    (hsent : ∀ p, sent p 0 = none) (hhonest : ∀ x ∈ steps execBridge st ts, Honest sent x.1 x.2) :
    DeliveriesSound sent st ts := by
  have hstart : InOrder [] st := by
    have hzero (p : Pathway) : st.inboundNonce p.1 p.2 = 0 := by
      unfold Store.inboundNonce
      rw [hst]
      rfl
    refine ⟨fun p => ?_,fun p => ?_⟩
    · rw [hzero]
      rfl
    · rw [hzero]
      decide
  have hend : InOrder (steps execBridge st ts) (run execBridge st ts) :=
    past_keeps (C := fun _ s t => Honest sent s t) (fun past s t h ht => inOrder_step hsent h ht)
      hstart (forall_split hhonest)
  refine ⟨hend.counted,fun x hx p nonce m hdelivers haccepted => ?_,
    fun x hx p nonce m hdelivers hnone => ?_⟩
  · cases execBridge_effect x.1 x.2 with
    | idle hnone _ _ =>
      rw [hnone p] at haccepted
      cases haccepted
    | received endpoint p' nonce' m' hact haccepted' hreceived =>
      obtain ⟨rfl,rfl,rfl⟩ := hdelivers.unique hact
      refine ⟨hreceived.wasSent (hhonest x hx) hact,hreceived.applied,fun p' hp' => ?_⟩
      rw [hreceived.inboundNonce,if_neg (Ne.symm hp')]
  · cases execBridge_effect x.1 x.2 with
    | idle _ _ hrejected => exact hrejected p nonce m hdelivers
    | received endpoint p' nonce' m' hact haccepted hreceived =>
      rw [haccepted p,if_pos (hdelivers.unique hact).1.symm] at hnone
      cases hnone

def word (x : UInt8) : BytesN 32 := ⟨List.replicate 32 x, List.length_replicate⟩

/-- Endpoint 5 delivers prices of asset 10 from "ethereum", which has the id 30101, as source 7. -/
def bridgeStore : Store where
  config := { admin := some 9, minSources := some 2 }
  registry :=
    { assetRegistered := fun a => if a = 10 then some true else none
      srcActive := fun s => if s = 7 then some true else none }
  bridge :=
    { lzEndpoint := some 5
      lzEidChainName := fun eid =>
        if eid = 30101 then some [101, 116, 104, 101, 114, 101, 117, 109] else none
      lzTrustedRemote := fun p =>
        if p = (30101, word 21) then some 7 else none
      foreignAsset := fun key =>
        if key = ([101, 116, 104, 101, 114, 101, 117, 109], word 22) then
          some ⟨10, [101, 116, 104, 101, 114, 101, 117, 109], word 22, 18, true⟩
        else none }

def bridgePayload (nonce : Nat) : CrossChainPricePayload :=
  ⟨word 22, wrap (100 * nonce), isI128_wrap _, 18, 900, 0⟩

/-- A remote that sends the price `100 * nonce` under each nonce from 1 on. -/
def bridgeSent : Sent := fun p nonce =>
  if p = (30101, word 21) ∧ nonce ≠ 0 then
    some ⟨word 0, encodePricePayload (bridgePayload nonce)⟩
  else none

def delivery (nonce : Nat) : BridgeTx :=
  ⟨.concrete 5 1000 [5],
    .call (.receive 5 30101 (word 21) nonce (word 0) (encodePricePayload (bridgePayload nonce)))⟩

/-- The second message comes early, the first one twice, and the remote is not trusted for a while. -/
def shuffledDeliveries : List BridgeTx :=
  [delivery 2, delivery 1, delivery 1,
    ⟨.concrete 5 1000 [9], .call (.removeTrustedRemote 30101 (word 21))⟩,
    delivery 2,
    ⟨.concrete 5 1000 [9], .call (.setTrustedRemote 30101 (word 21) 7)⟩,
    delivery 2]

theorem shuffledDeliveries_sound :
    ((run execBridge bridgeStore shuffledDeliveries).submission (10, 7)).map PriceEntry.price =
      some 200 ∧ DeliveriesSound bridgeSent bridgeStore shuffledDeliveries := by
  refine ⟨by decide +kernel,deliveries_sound shuffledDeliveries rfl (fun p => ?_) fun x hx => ?_⟩
  · exact if_neg fun h => h.2 rfl
  · rintro endpoint srcEid sender nonce guid bytes hact - -
    have hmem := snd_mem_of_mem_steps hx
    simp only [shuffledDeliveries,List.mem_cons,List.not_mem_nil,or_false] at hmem
    rcases hmem with h | h | h | h | h | h | h
    all_goals
      rw [h] at hact
      cases hact
    all_goals exact if_pos ⟨rfl,by decide⟩

end Runs

end PriceOracle.Bridge
