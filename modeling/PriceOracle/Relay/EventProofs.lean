import PriceOracle.Lib.MerkleTree
import PriceOracle.Model.CrossChainRelay
import PriceOracle.Model.Invocation

/-! # What the verifier of price events accepts

The mask of the configuration names one position for each length of a proof. A proof is accepted if it
is the path of the leaf there, and if that leaf is serialised as the event is. So every event of a tree
can be proved only if the tree looks the same from each of its leaves as from the configured position,
and events of negative prices are taken for those of price zero. -/

namespace PriceOracle.Relay

open Lib.MachineInt Lib.MerkleTree Model Model.CrossChainRelay

section Serialization

variable {e e' : PriceEventPayload}

/-- Two payloads are serialised alike exactly if they agree but for negative prices, which count as
zero. -/
theorem serializePayload_eq_iff : serializePayload e = serializePayload e' ↔
    max 0 e.price = max 0 e'.price ∧ e.timestamp = e'.timestamp ∧
      e.ledgerSequence = e'.ledgerSequence := by
  have hprice (x : PriceEventPayload) :
      (if 0 ≤ x.price then toU128 x.price else 0) = (max 0 x.price).toNat := by
    have hrange := x.price_i128
    unfold IsI128 i128Min i128Max at hrange
    unfold toU128
    split_ifs <;> omega
  have hbound (x : PriceEventPayload) : (max 0 x.price).toNat < 256 ^ 16 := by
    have hrange := x.price_i128
    unfold IsI128 i128Min i128Max at hrange
    omega
  simp only [serializePayload,hprice]
  constructor
  · intro h
    obtain ⟨h,hsequence⟩ := List.append_inj' h (by rw [leBytes_length,leBytes_length])
    obtain ⟨hp,htimestamp⟩ := List.append_inj' h (by rw [leBytes_length,leBytes_length])
    have hp := leBytes_inj (hbound e) (hbound e') hp
    refine ⟨by omega,UInt64.toNat_inj.1 ?_,UInt32.toNat_inj.1 ?_⟩
    · exact leBytes_inj e.timestamp.toNat_lt e'.timestamp.toNat_lt htimestamp
    · exact leBytes_inj e.ledgerSequence.toNat_lt e'.ledgerSequence.toNat_lt hsequence
  · rintro ⟨hp,htimestamp,hsequence⟩
    rw [hp,htimestamp,hsequence]

theorem payload_ext (hp : e.price = e'.price) (ht : e.timestamp = e'.timestamp)
    (hs : e.ledgerSequence = e'.ledgerSequence) : e = e' := by
  cases e
  simp_all

theorem eq_of_serializePayload (hpos : 0 < e.price)
    (h : serializePayload e' = serializePayload e) : e' = e := by
  obtain ⟨hprice,htimestamp,hsequence⟩ := serializePayload_eq_iff.1 h
  exact payload_ext (by omega) htimestamp hsequence

/-- The payload with the price `-k`. -/
def withDebt (e : PriceEventPayload) (k : Fin (2 ^ 32 + 1)) : PriceEventPayload :=
  { e with
    price := -(k.val : Int)
    price_i128 := by
      have hk := k.isLt
      unfold IsI128 i128Min i128Max
      omega }

theorem withDebt_injective (e : PriceEventPayload) : Function.Injective (withDebt e) := by
  intro i j h
  have hprice : -(i.val : Int) = -(j.val : Int) := congrArg PriceEventPayload.price h
  exact Fin.ext (by omega)

theorem exists_twin (hneg : e.price ≤ 0) {events : List PriceEventPayload}
    (hlen : events.length ≤ 2 ^ 32) :
    ∃ e', serializePayload e' = serializePayload e ∧ e' ∉ events := by
  by_contra! hall
  have hlisted : (List.finRange (2 ^ 32 + 1)).map (withDebt e) ⊆ events := by
    intro x hx
    obtain ⟨k,-,rfl⟩ := List.mem_map.1 hx
    refine hall _ (serializePayload_eq_iff.2 ⟨?_,rfl,rfl⟩)
    change max 0 (-(k.val : Int)) = _
    omega
  have hnodup := (List.nodup_finRange (2 ^ 32 + 1)).map (withDebt_injective e)
  have hmany := (List.subperm_of_subset hnodup hlisted).length_le
  rw [List.length_map,List.length_finRange] at hmany
  omega

end Serialization

section Trees

def eventHashing (host : Host) : Hashing Bytes Bytes := ⟨merkleLeafHash host, merkleNodeHash host⟩

def eventRoot (host : Host) (t : HashTree PriceEventPayload) : Bytes :=
  (t.map serializePayload).root (eventHashing host)

/-- The digests beside a path, in the order from the leaf, as a proof lists them. -/
def siblingPath (host : Host) (t : HashTree PriceEventPayload) (path : List Bool) : List Bytes :=
  ((t.map serializePayload).siblings (eventHashing host) path).reverse

/-- The messages that are hashed to sum up a tree. -/
def messages (host : Host) : HashTree Bytes → List Bytes
  | .leaf a => [[0] ++ a]
  | .node l r =>
    ([1] ++ l.root (eventHashing host) ++ r.root (eventHashing host)) ::
      (messages host l ++ messages host r)

/-- No other message has the digest of one that is hashed for the tree. -/
def Isolated (host : Host) (t : HashTree PriceEventPayload) : Prop :=
  ∀ m ∈ messages host (t.map serializePayload), ∀ m', host.sha256 m' = host.sha256 m → m' = m

theorem isolated_of_injective {host : Host} (h : Function.Injective host.sha256)
    (t : HashTree PriceEventPayload) : Isolated host t :=
  fun _ _ _ heq => h heq

variable {host : Host}

theorem root_length (hlen : ∀ b, (host.sha256 b).length = 32) (t : HashTree Bytes) :
    (t.root (eventHashing host)).length = 32 := by
  cases t <;> exact hlen _

theorem sealed_of_messages (hlen : ∀ b, (host.sha256 b).length = 32) {t : HashTree Bytes}
    (h : ∀ m ∈ messages host t, ∀ m', host.sha256 m' = host.sha256 m → m' = m) :
    t.Sealed (eventHashing host) fun b => b.length = 32 := by
  induction t with
  | leaf a =>
    have hmessage := h _ List.mem_cons_self
    constructor
    · intro b hb
      exact List.cons_injective (hmessage ([0] ++ b) hb)
    · intro x y _ _ hxy
      exact absurd (hmessage ([1] ++ x ++ y) hxy) (by simp)
  | node l r ihl ihr =>
    have hmessage := h _ List.mem_cons_self
    refine ⟨fun b hb => ?_,fun x y hx _ hxy => ?_,ihl fun m hm => ?_,ihr fun m hm => ?_⟩
    · exact absurd (hmessage ([0] ++ b) hb) (by simp)
    · have hparts := List.cons_injective (hmessage ([1] ++ x ++ y) hxy)
      exact List.append_inj hparts (hx.trans (root_length hlen l).symm)
    · exact h m (List.mem_cons_of_mem _ (List.mem_append_left _ hm))
    · exact h m (List.mem_cons_of_mem _ (List.mem_append_right _ hm))

end Trees

section Walking

variable {host : Host} {H : Hashing Bytes Bytes}

/-- Which child the walk comes from, level by level from `i` on. -/
def sides (pathBits : UInt32) (i n : Nat) : List Bool :=
  (List.range' i n).map fun level => pathBits.toNat.testBit (level % 32)

theorem climb_concat {δ α : Type} (H : Hashing α δ) (start : δ) (steps : List (Bool × δ))
    (s : Bool × δ) : H.climb start (steps ++ [s]) = H.climb (H.join s.1 start s.2) steps := by
  induction steps with
  | nil => rfl
  | cons u steps ih => rw [List.cons_append,Hashing.climb,ih,Hashing.climb]

theorem walkProof_eq (pathBits : UInt32) (i : Nat) (current : Bytes) (proof : List Bytes) :
    walkProof host pathBits i current proof =
      (eventHashing host).climb current ((sides pathBits i proof.length).zip proof).reverse := by
  induction proof generalizing i current with
  | nil => rfl
  | cons sibling rest ih =>
    rw [walkProof,ih,List.length_cons]
    simp only [sides,List.range'_succ,List.map_cons,List.zip_cons_cons,List.reverse_cons,
      climb_concat]
    have hbit : (pathBits.toNat >>> (i % 32)) &&& 1 = 0 ↔
        pathBits.toNat.testBit (i % 32) = false := by
      simp [Nat.testBit]
    by_cases h : pathBits.toNat.testBit (i % 32) = true
    · rw [if_neg fun h0 => Bool.false_ne_true ((hbit.1 h0).symm.trans h),Hashing.join,if_pos h]
      rfl
    · rw [if_pos (hbit.2 (Bool.eq_false_iff.2 h)),Hashing.join,if_neg h]
      rfl

end Walking

def maskOf (config : Option CrossChainRelayConfig) : UInt32 :=
  (config.map CrossChainRelayConfig.merklePathBits).getD 0

/-- The path from the root to the position that the configuration names for proofs of length `n`. -/
def position (config : Option CrossChainRelayConfig) (n : Nat) : List Bool :=
  (sides (maskOf config) 0 n).reverse

section Acceptance

variable {host : Host} {t : HashTree PriceEventPayload} {config : Option CrossChainRelayConfig}
  {e : PriceEventPayload}

theorem position_length (n : Nat) : (position config n).length = n := by simp [position,sides]

/-- A proof is accepted exactly if it is the path of the leaf at the configured position, and that
leaf is serialised as the event is. -/
theorem verifyEventProof_iff (hlen : ∀ b, (host.sha256 b).length = 32) (ht : 0 < t.height)
    (hisolated : Isolated host t) (proof : List (BytesN 32)) (e : PriceEventPayload) :
    verifyEventProof host config (eventRoot host t) (proof.map Subtype.val) e = true ↔
      ∃ e', t.leafAt (position config proof.length) = some e' ∧
        serializePayload e' = serializePayload e ∧
        proof.map Subtype.val = siblingPath host t (position config proof.length) := by
  by_cases hempty : proof = []
  · subst hempty
    refine iff_of_false (by simp [verifyEventProof]) ?_
    rintro ⟨e',hleaf,-,-⟩
    cases t with
    | leaf a => simp [HashTree.height] at ht
    | node l r => simp [position,sides,HashTree.leafAt] at hleaf
  · have hsealed := sealed_of_messages hlen hisolated
    have hfst : (((sides (maskOf config) 0 proof.length).zip (proof.map Subtype.val)).reverse).map
        Prod.fst = position config proof.length := by
      rw [List.map_reverse,List.map_fst_zip (by simp [sides]),position]
    have hsnd : (((sides (maskOf config) 0 proof.length).zip (proof.map Subtype.val)).reverse).map
        Prod.snd = (proof.map Subtype.val).reverse := by
      rw [List.map_reverse,List.map_snd_zip (by simp [sides])]
    have hdigests : ∀ s ∈ ((sides (maskOf config) 0 proof.length).zip
        (proof.map Subtype.val)).reverse, s.2.length = 32 := by
      intro s hs
      have hmem := List.mem_map_of_mem (f := Prod.snd) hs
      rw [hsnd,List.mem_reverse] at hmem
      obtain ⟨x,-,hx⟩ := List.mem_map.1 hmem
      rw [← hx]
      exact x.property
    have hclimb := climb_eq_root_iff (D := fun b : Bytes => b.length = 32) (fun a => hlen _)
      (fun x y => hlen _) hsealed (a := serializePayload e) hdigests
    rw [hfst,hsnd,HashTree.leafAt_map,Option.map_eq_some_iff] at hclimb
    have hne : ¬(proof.map Subtype.val).isEmpty = true := by
      rw [List.isEmpty_iff,List.map_eq_nil_iff]
      exact hempty
    rw [verifyEventProof,if_neg hne,decide_eq_true_iff,walkProof_eq,List.length_map]
    change (eventHashing host).climb ((eventHashing host).leaf (serializePayload e)) _ =
      (t.map serializePayload).root (eventHashing host) ↔ _
    rw [show (config.map CrossChainRelayConfig.merklePathBits).getD 0 = maskOf config from rfl,
      hclimb,siblingPath,eq_comm (a := proof.map Subtype.val),List.reverse_eq_iff]
    constructor
    · rintro ⟨⟨e',hleaf,hserial⟩,hpath⟩
      exact ⟨e',hleaf,hserial,hpath⟩
    · rintro ⟨e',hleaf,hserial,hpath⟩
      exact ⟨⟨e',hleaf,hserial⟩,hpath⟩

/-- The event is the payload of a leaf, and the proof is the path of that leaf. -/
def Included (host : Host) (t : HashTree PriceEventPayload) (proof : List (BytesN 32))
    (e : PriceEventPayload) : Prop :=
  ∃ path, t.leafAt path = some e ∧ proof.map Subtype.val = siblingPath host t path

/-- Every leaf has a positive price, and the payload and the path of the leaf at the configured
position of its depth. -/
def Mirrored (host : Host) (config : Option CrossChainRelayConfig) (t : HashTree PriceEventPayload) :
    Prop :=
  ∀ path e, t.leafAt path = some e → 0 < e.price ∧
    t.leafAt (position config path.length) = some e ∧
    siblingPath host t (position config path.length) = siblingPath host t path

theorem siblingPath_digests (hlen : ∀ b, (host.sha256 b).length = 32) (path : List Bool) :
    ∀ b ∈ siblingPath host t path, b.length = 32 := by
  have hsiblings (u : HashTree Bytes) (path : List Bool) :
      ∀ b ∈ u.siblings (eventHashing host) path, b.length = 32 := by
    induction u generalizing path with
    | leaf a => cases path <;> simp [HashTree.siblings]
    | node l r ihl ihr =>
      cases path with
      | nil => simp [HashTree.siblings]
      | cons b path =>
        cases b with
        | true => simpa [HashTree.siblings,root_length hlen] using ihr path
        | false => simpa [HashTree.siblings,root_length hlen] using ihl path
  intro b hb
  exact hsiblings _ path b (List.mem_reverse.1 hb)

theorem exists_proof (hlen : ∀ b, (host.sha256 b).length = 32) (path : List Bool) :
    ∃ proof : List (BytesN 32), proof.map Subtype.val = siblingPath host t path :=
  ⟨(siblingPath host t path).pmap Subtype.mk (siblingPath_digests hlen path),by
    simp [List.map_pmap]⟩

theorem siblingPath_length {path : List Bool} (h : t.leafAt path = some e) :
    (siblingPath host t path).length = path.length := by
  have hmapped : (t.map serializePayload).leafAt path = some (serializePayload e) := by
    rw [HashTree.leafAt_map,h,Option.map_some]
  rw [siblingPath,List.length_reverse,HashTree.length_siblings _ hmapped]

/-- In a tree of depth 1 to 32, exactly the included events can be proved, each with its own path, if
and only if the tree mirrors the configured positions. In any tree, what is accepted is the path of the
leaf at the configured position, with an event that is serialised as that leaf. -/
theorem verifies_included_iff (hlen : ∀ b, (host.sha256 b).length = 32)
    (hheight : 0 < t.height ∧ t.height ≤ 32) (hisolated : Isolated host t) :
    ((∀ proof e,
        verifyEventProof host config (eventRoot host t) (proof.map Subtype.val) e = true ↔
          Included host t proof e) ↔
      Mirrored host config t) ∧
    ∀ (proof : List (BytesN 32)) e,
      verifyEventProof host config (eventRoot host t) (proof.map Subtype.val) e = true ↔
      ∃ e', t.leafAt (position config proof.length) = some e' ∧
        serializePayload e' = serializePayload e ∧
        proof.map Subtype.val = siblingPath host t (position config proof.length) := by
  have hverify := @verifyEventProof_iff host t config hlen hheight.1 hisolated
  refine ⟨?_,hverify⟩
  constructor
  · intro hall path e hleaf
    obtain ⟨proof,hproof⟩ := exists_proof (t := t) hlen path
    have hsize : proof.length = path.length := by
      rw [← List.length_map (f := Subtype.val),hproof,siblingPath_length hleaf]
    obtain ⟨e',hfound,hserial,hpath⟩ :=
      (hverify proof e).1 ((hall proof e).2 ⟨path,hleaf,hproof⟩)
    rw [hsize] at hfound hpath
    have hpos : 0 < e.price := by
      by_contra hneg
      -- each twin of the event is accepted as well, and one of them is not in the tree
      have hfew : t.leaves.length ≤ 2 ^ 32 :=
        t.length_leaves_le.trans (Nat.pow_le_pow_right (by decide) hheight.2)
      obtain ⟨twin,htwin,habsent⟩ := exists_twin (Int.not_lt.1 hneg) hfew
      have haccepted : Included host t proof twin := by
        refine (hall proof twin).1 ((hverify proof twin).2 ⟨e',?_,hserial.trans htwin.symm,?_⟩)
        · rwa [hsize]
        · rwa [hsize]
      obtain ⟨place,hplace,-⟩ := haccepted
      exact habsent (HashTree.mem_leaves_iff.2 ⟨place,hplace⟩)
    have hsame : e' = e := eq_of_serializePayload hpos hserial
    exact ⟨hpos,hsame ▸ hfound,hpath.symm.trans hproof⟩
  · intro hmirrored proof e
    rw [hverify proof e]
    constructor
    · rintro ⟨e',hleaf,hserial,hpath⟩
      have hpos := (hmirrored _ _ hleaf).1
      exact ⟨_,eq_of_serializePayload hpos hserial.symm ▸ hleaf,hpath⟩
    · rintro ⟨path,hleaf,hpath⟩
      obtain ⟨-,hfound,hsame⟩ := hmirrored path e hleaf
      have hsize : proof.length = path.length := by
        rw [← List.length_map (f := Subtype.val),hpath,siblingPath_length hleaf]
      rw [hsize]
      exact ⟨e,hfound,rfl,hpath.trans hsame.symm⟩

theorem mirrored_iff_constant {n : Nat} (ht : t.Perfect n) :
    Mirrored host config t ↔ ∃ e, 0 < e.price ∧ ∀ x ∈ t.leaves, x = e := by
  constructor
  · intro hmirrored
    have hplace : (position config n).length = n := position_length n
    obtain ⟨e,he⟩ := ht.exists_leafAt hplace
    refine ⟨e,(hmirrored _ _ he).1,fun x hx => ?_⟩
    obtain ⟨path,hpath⟩ := HashTree.mem_leaves_iff.1 hx
    have hfound := (hmirrored path x hpath).2.1
    rw [ht.length_path hpath,he] at hfound
    exact (Option.some.inj hfound).symm
  · rintro ⟨e,hpos,hall⟩ path x hpath
    have hconstant := ht.eq_full hall
    have hsize := ht.length_path hpath
    have hx : x = e := hall x (HashTree.mem_leaves_iff.2 ⟨path,hpath⟩)
    subst hx hconstant
    refine ⟨hpos,?_,?_⟩
    · rw [HashTree.leafAt_full,position_length,hsize,if_pos rfl]
    · simp only [siblingPath,HashTree.map_full]
      rw [HashTree.siblings_full _ _ _ ((position_length _).trans hsize),HashTree.siblings_full _ _ _ hsize]

end Acceptance

def zeroEvent : PriceEventPayload := ⟨0, ⟨by decide, by decide⟩, 1000, 5⟩

def laterEvent : PriceEventPayload := ⟨200, ⟨by decide, by decide⟩, 1000, 6⟩

/-- The SHA-256 digests of the leaves of the two events, and of nodes above them. -/
def zeroLeaf : Bytes :=
  leBytes 32 0x8ebab78723a43b9152f714007926afde3905d63ed3045e1b4c052326910a70db

def laterLeaf : Bytes :=
  leBytes 32 0x5d24bc8ed744c4c99dbdc6b2ab3fb03b5194f6d0dd962f485b3e63497a012ddf

def rootDigest : Bytes :=
  leBytes 32 0xa120b209c270f51e8fbb93d450a62af4b6c775f54ad69bea29b22ff14ffc750e

def swappedDigest : Bytes :=
  leBytes 32 0x561c079b15c8e13dabc0e2329022e7beb705b8310e78528a5a10fb42303155fb

def twinDigest : Bytes :=
  leBytes 32 0x9333426149228a4c121e6c32234e6b78a1dbaf210cbc8fe674a75b154cb6e75c

/-- A hash that is SHA-256 on the two leaves and the node of two leaves of the later event. -/
def twinHost : Host := { checksumHost with
  sha256 := fun m =>
    if m = [0] ++ serializePayload laterEvent then laterLeaf
    else if m = [1] ++ laterLeaf ++ laterLeaf then twinDigest else List.replicate 32 0 }

theorem twinHost_leaf {m : Bytes} (h : twinHost.sha256 m = laterLeaf) :
    m = [0] ++ serializePayload laterEvent := by
  change (if m = _ then laterLeaf else if m = _ then twinDigest else _) = laterLeaf at h
  split_ifs at h with hleaf hnode
  · exact hleaf
  · exact absurd h (by decide)
  · exact absurd h (by decide)

theorem twinHost_node {m : Bytes} (h : twinHost.sha256 m = twinDigest) :
    m = [1] ++ laterLeaf ++ laterLeaf := by
  change (if m = _ then laterLeaf else if m = _ then twinDigest else _) = twinDigest at h
  split_ifs at h with hleaf hnode
  · exact absurd h (by decide)
  · exact hnode
  · exact absurd h (by decide)

/-- A ledger whose two leaves are one event: that event can be proved, and no other one. -/
theorem twin_events_verified :
    Isolated twinHost (.full laterEvent 1) ∧
    ∀ (proof : List (BytesN 32)) (e : PriceEventPayload),
      verifyEventProof twinHost none (eventRoot twinHost (.full laterEvent 1))
          (proof.map Subtype.val) e = true ↔
        Included twinHost (.full laterEvent 1) proof e := by
  have hperfect : (HashTree.full laterEvent 1).Perfect 1 := ⟨trivial,trivial⟩
  have hisolated : Isolated twinHost (.full laterEvent 1) := by
    have hmessages : messages twinHost ((HashTree.full laterEvent 1).map serializePayload) =
        [[1] ++ laterLeaf ++ laterLeaf,[0] ++ serializePayload laterEvent,
          [0] ++ serializePayload laterEvent] := by decide
    rw [Isolated,hmessages]
    intro m hm m' h
    simp only [List.mem_cons,List.not_mem_nil,or_false] at hm
    rcases hm with rfl | rfl | rfl
    · exact twinHost_node (h.trans (by decide))
    · exact twinHost_leaf (h.trans (by decide))
    · exact twinHost_leaf (h.trans (by decide))
  refine ⟨hisolated,(verifies_included_iff (fun b => ?_) (by decide) hisolated).1.2 ?_⟩
  · change (if b = _ then laterLeaf else if b = _ then twinDigest else _).length = 32
    split_ifs <;> rfl
  · exact (mirrored_iff_constant hperfect).2 ⟨laterEvent,by decide,by decide⟩

/-- A hash without collisions that is SHA-256 on the leaves of both events and the nodes of these. -/
def eventHost : Host := { checksumHost with
  sha256 := (Equiv.swap ([0] ++ serializePayload zeroEvent) zeroLeaf).trans
    ((Equiv.swap ([0] ++ serializePayload laterEvent) laterLeaf).trans
      ((Equiv.swap ([1] ++ zeroLeaf ++ laterLeaf) rootDigest).trans
        (Equiv.swap ([1] ++ laterLeaf ++ zeroLeaf) swappedDigest))) }

/-- The right leaf of a ledger of two events cannot be proved without a configuration, and in the
place of the left one, which has the price zero, an event of a negative price is accepted. -/
theorem right_leaf_refused :
    Function.Injective eventHost.sha256 ∧
    (∃ proof, Included eventHost (.node (.leaf zeroEvent) (.leaf laterEvent)) proof laterEvent ∧
      verifyEventProof eventHost none
        (eventRoot eventHost (.node (.leaf zeroEvent) (.leaf laterEvent)))
        (proof.map Subtype.val) laterEvent = false) ∧
    ∃ proof e, e.price = -7 ∧
      ¬Included eventHost (.node (.leaf zeroEvent) (.leaf laterEvent)) proof e ∧
      verifyEventProof eventHost none
        (eventRoot eventHost (.node (.leaf zeroEvent) (.leaf laterEvent)))
        (proof.map Subtype.val) e = true := by
  refine ⟨Equiv.injective _,⟨[⟨zeroLeaf,rfl⟩],⟨[true],rfl,by decide +kernel⟩,by decide +kernel⟩,
    [⟨laterLeaf,rfl⟩],⟨-7,⟨by decide,by decide⟩,1000,5⟩,rfl,?_,by decide +kernel⟩
  rintro ⟨path,hleaf,-⟩
  have hlisted := HashTree.mem_leaves_iff.2 ⟨path,hleaf⟩
  revert hlisted
  decide

end PriceOracle.Relay
