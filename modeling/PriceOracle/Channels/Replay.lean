import Mathlib.Logic.Equiv.Basic
import PriceOracle.Channels.Effects
import PriceOracle.Lib.Run

/-! # Batches and deposits over whole runs

The digest that is signed names neither the source nor the channel, and the nonces begin anew with
each channel: a batch is as good for another channel as for the one it was signed for. Where none is
presented again, every change of a channel comes from a batch signed for that channel. The deposits
are refunded once, whatever is presented. -/

namespace PriceOracle.Channels

open Model Lib.Run

/-- Which batches a key has signed, for which source and which of its channels, counted from 1. -/
abbrev Signed := Bytes → Address → Nat → List BatchItem → Prop

/-- The hash has no collisions, and a signature that verifies is one of a batch that the key has
signed. -/
structure Unforgeable (signed : Signed) (host : Host) : Prop where
  collisionFree : Function.Injective host.sha256
  genuine : ∀ key message signature, host.ed25519Verify key message signature = true →
    ∃ source n batch, signed key source n batch ∧ message = hashBatchPayload host source batch

def depositsOf (source : Address) (past : List (Store × ChannelTx)) : List (Address × Int) :=
  past.filterMap (depositBy source)

def refundsOf (source : Address) (past : List (Store × ChannelTx)) : List (Address × Int) :=
  past.filterMap (refundBy source)

/-- The deposit of the channel that is open, if there is one. -/
def heldOf (source : Address) (st : Store) : List (Address × Int) :=
  ((st.channels.channel source).map fun c => (c.tokenContract, c.deposit)).toList

/-- Which of its channels the source has open: it makes one deposit for each. -/
def channelNumber (source : Address) (past : List (Store × ChannelTx)) : Nat :=
  (depositsOf source past).length

def state (c : StateChannel) : Nat × Nat × Nat := (c.nonce, c.lastPrice, c.lastTimestamp)

/-- Every change of the state of a channel raises its nonce, and comes from an item of a batch that
its bound key has signed for that channel of the source. -/
def Authentic (signed : Signed) (past : List (Store × ChannelTx)) (st : Store) (t : ChannelTx) :
    Prop :=
  ∀ source channel channel', st.channels.channel source = some channel →
    (execChannel st t).channels.channel source = some channel' → state channel' ≠ state channel →
      channel.nonce < channel'.nonce ∧
        ∃ batch signature key, Presents source batch signature key t ∧
          (∀ k ∈ st.channels.signer source, k = key) ∧
          (execChannel st t).channels.signer source = some key ∧
          signed key source (channelNumber source past) batch ∧
          ∃ item ∈ batch, state channel' = (item.nonce.toNat, item.price, item.timestamp.toNat)

/-- A batch with an item beyond the state of an open channel is presented for it only if the key has
not signed it at all, or has signed it for that channel. -/
def Unreplayed (signed : Signed) (past : List (Store × ChannelTx)) (st : Store) (t : ChannelTx) :
    Prop :=
  ∀ source batch signature key channel, Presents source batch signature key t →
    st.channels.channel source = some channel →
    (∃ item ∈ batch, channel.nonce < item.nonce.toNat) →
    (∃ source' n, signed key source' n batch) → signed key source (channelNumber source past) batch

/-- The changes of the channels, the transfers of tokens, and the refunds of the deposits. -/
structure ChannelsSound (signed : Signed) (st : Store) (ts : List ChannelTx) : Prop where
  authentic : ∀ pre t post, ts = pre ++ t :: post →
    Authentic signed (steps execChannel st pre) (run execChannel st pre) t
  settled : ∀ pre t post, ts = pre ++ t :: post →
    Settles (run execChannel st pre) t (execChannel (run execChannel st pre) t)
  refunded : ∀ source, depositsOf source (steps execChannel st ts) =
    refundsOf source (steps execChannel st ts) ++ heldOf source (run execChannel st ts)

section Steps

variable {signed : Signed} {source : Address} {past : List (Store × ChannelTx)} {st : Store}
  {t : ChannelTx} {batch : List BatchItem} {signature key : Bytes}

/-- The deposits are those that have been refunded, in their order, and the one that is held. -/
structure Accounted (past : List (Store × ChannelTx)) (st : Store) : Prop where
  sound : AllSound st
  refunded : ∀ source, depositsOf source past = refundsOf source past ++ heldOf source st

theorem heldOf_of_line {l : Line} (h : lineOf st source = l) :
    heldOf source st = (l.channel.map fun c => (c.tokenContract,c.deposit)).toList := by
  rw [← h]
  rfl

theorem money_of_presents (st : Store) (h : Presents source batch signature key t) :
    depositBy source (st,t) = none ∧ refundBy source (st,t) = none := by
  unfold depositBy refundBy
  rcases h with h | h
  · rw [h]
    exact ⟨rfl,rfl⟩
  · rw [h]
    exact ⟨rfl,rfl⟩

/-- One step keeps the account. -/
theorem accounted_step (h : Accounted past st) :
    Accounted (past ++ [(st,t)]) (execChannel st t) := by
  refine ⟨execChannel_sound h.sound t,fun source => ?_⟩
  have hbefore := h.refunded source
  unfold depositsOf refundsOf at hbefore ⊢
  rw [filterMap_concat,filterMap_concat,hbefore]
  cases (execChannel_effect h.sound t).1 source with
  | kept hkept hdeposit hrefund =>
    rw [hdeposit,hrefund,heldOf_of_line hkept]
    simp [heldOf,lineOf]
  | opened deposit token hnone hpositive hdeposit hrefund hopened =>
    have hheld : heldOf source st = [] := by
      rw [heldOf_of_line rfl,hnone]
      rfl
    rw [hdeposit,hrefund,heldOf_of_line hopened,hheld]
    simp [StateChannel.opened]
  | advanced channel batch signature key hpresents hchannel hbound hvalid hbest hadvanced =>
    obtain ⟨hdeposit,hrefund⟩ := money_of_presents st hpresents
    obtain ⟨-,hamount,htoken,-⟩ := best_source channel batch
    rw [hdeposit,hrefund,heldOf_of_line hadvanced,heldOf_of_line rfl,hchannel]
    simp [hamount,htoken]
  | closed channel hdeposit hchannel hrefund hclosed =>
    rw [hdeposit,hrefund,heldOf_of_line hclosed,heldOf_of_line rfl,hchannel]
    simp

theorem signed_of_valid {host : Host} (hhost : Unforgeable signed host)
    (hvalid : host.ed25519Verify key (hashBatchPayload host source batch) signature = true) :
    ∃ source' n, signed key source' n batch := by
  obtain ⟨source',n,batch',hsigned,hmessage⟩ := hhost.genuine key _ signature hvalid
  rw [(hashBatchPayload_inj hhost.collisionFree).1 hmessage]
  exact ⟨source',n,hsigned⟩

theorem authentic_step (h : AllSound st) (hhost : Unforgeable signed t.env.host)
    (hunreplayed : Unreplayed signed past st t) : Authentic signed past st t := by
  intro source channel channel' hbefore hafter hmoved
  have hline : (lineOf st source).channel = some channel := hbefore
  have hline' : (lineOf (execChannel st t) source).channel = some channel' := hafter
  cases (execChannel_effect h t).1 source with
  | kept hkept =>
    rw [hkept,hline,Option.some.injEq] at hline'
    exact absurd (congrArg state hline'.symm) hmoved
  | opened deposit token hnone =>
    rw [hline] at hnone
    cases hnone
  | advanced c batch signature key hpresents hchannel hbound hvalid hbest hadvanced =>
    rw [hline,Option.some.injEq] at hchannel
    subst hchannel
    rw [hadvanced,Option.some.injEq] at hline'
    rcases best_cases channel batch with hsame | ⟨item,hitem,hstate,hbeyond⟩
    · exact absurd (congrArg StateChannel.nonce hsame) hbest
    · rw [← hline',hstate]
      refine ⟨hbeyond,batch,signature,key,hpresents,hbound,?_,?_,item,hitem,rfl⟩
      · exact congrArg Line.signer hadvanced
      · exact hunreplayed source batch signature key channel hpresents hbefore ⟨item,hitem,hbeyond⟩
          (signed_of_valid hhost hvalid)
  | closed c _ hchannel _ hclosed =>
    rw [hclosed] at hline'
    cases hline'

end Steps

section Runs

variable {signed : Signed} {st : Store}

/-- In a run from a state without channels in which no batch is replayed, the channels change only by
batches signed for them, and each deposit is refunded once, in its own token. -/
theorem channels_sound (ts : List ChannelTx) (hst : st.channels.channel = fun _ => none)
    (hhost : ∀ t ∈ ts, Unforgeable signed t.env.host)
    (hunreplayed : ∀ pre t post, ts = pre ++ t :: post →
      Unreplayed signed (steps execChannel st pre) (run execChannel st pre) t) :
    ChannelsSound signed st ts := by
  have hstart : Accounted [] st := by
    refine ⟨fun source c hc => ?_,fun source => ?_⟩
    · change st.channels.channel source = some c at hc
      rw [hst] at hc
      cases hc
    · unfold heldOf
      rw [hst]
      rfl
  have hkeep : ∀ past s t, Accounted past s → True → Accounted (past ++ [(s,t)]) (execChannel s t) :=
    fun past s t h _ => accounted_step h
  have hsplit : ∀ pre t post, ts = pre ++ t :: post →
      Accounted (steps execChannel st pre) (run execChannel st pre) :=
    past_satisfies (C := fun _ _ _ => True) (P := fun past s _ => Accounted past s)
      (fun past s t h ht => ⟨h,hkeep past s t h ht⟩) hstart fun _ _ _ _ => trivial
  refine ⟨fun pre t post hts => ?_,fun pre t post hts => ?_,?_⟩
  · have hpast := hsplit pre t post hts
    exact authentic_step hpast.sound (hhost t (by simp [hts])) (hunreplayed pre t post hts)
  · exact (execChannel_effect (hsplit pre t post hts).sound t).2
  · exact (past_keeps (C := fun _ _ _ => True) hkeep hstart fun _ _ _ _ => trivial).refunded

def channelKey : Bytes :=
  [3, 161, 7, 191, 243, 206, 16, 190, 29, 112, 221, 24, 231, 75, 192, 153, 103, 228, 214, 48, 155,
    165, 13, 95, 29, 220, 134, 100, 18, 85, 49, 184]

def channelBatch : List BatchItem := [⟨5, 100, by decide, 1⟩]

def channelDigest : Bytes :=
  [87, 100, 35, 29, 156, 188, 164, 146, 171, 171, 156, 1, 200, 187, 204, 187, 244, 113, 150, 20,
    207, 68, 197, 84, 17, 115, 162, 175, 150, 153, 144, 189]

/-- The signature of `channelDigest` under `channelKey`. -/
def channelSignature : Bytes :=
  [120, 96, 236, 158, 197, 79, 172, 77, 154, 34, 135, 26, 234, 138, 143, 183, 48, 192, 255, 164, 22,
    90, 140, 33, 221, 89, 183, 18, 9, 212, 24, 68, 122, 133, 8, 84, 154, 189, 210, 103, 89, 121, 73,
    233, 153, 153, 197, 177, 171, 185, 151, 104, 128, 171, 69, 178, 91, 55, 138, 168, 110, 171, 13,
    15]

/-- A host on which `channelSignature` is the one signature, with a hash that agrees with SHA-256 on
`channelBatch`. -/
def channelHost : Host :=
  { checksumHost with
    sha256 := Equiv.swap (batchTag ++ channelBatch.flatMap BatchItem.encode) channelDigest
    ed25519Verify := fun key message signature =>
      decide (key = channelKey ∧ message = channelDigest ∧ signature = channelSignature) }

/-- `channelBatch` is signed for the first channel of source 7, and nothing else ever is. -/
def signedOnce : Signed := fun key source n batch =>
  key = channelKey ∧ source = 7 ∧ n = 1 ∧ batch = channelBatch

theorem unforgeable_channelHost : Unforgeable signedOnce channelHost where
  collisionFree := (Equiv.swap _ _).injective
  genuine key message signature h := by
    obtain ⟨hkey,hmessage,-⟩ := of_decide_eq_true h
    refine ⟨7,1,channelBatch,⟨hkey,rfl,rfl,rfl⟩,?_⟩
    rw [hmessage]
    exact (Equiv.swap_apply_left _ _).symm

def channelStore : Store where
  custody := { balance := fun token holder => if token = 3 ∧ holder = 7 then 1000 else 0 }

def channelTx (call : ChannelCall) : ChannelTx := ⟨⟨channelHost, 5, 100, [7].contains⟩, .call call⟩

/-- One channel, from the deposit over the batch to the refund. -/
def settledChannel : List ChannelTx :=
  [channelTx (.openChannel 7 100 3),
    channelTx (.submit 7 channelBatch channelSignature channelKey), channelTx (.close 7)]

theorem settledChannel_sound : ChannelsSound signedOnce channelStore settledChannel := by
  refine channels_sound settledChannel rfl ?_ ?_
  · intro t ht
    simp only [settledChannel,List.mem_cons,List.not_mem_nil,or_false] at ht
    rcases ht with rfl | rfl | rfl <;> exact unforgeable_channelHost
  · refine forall_splits_cons ?_ (forall_splits_cons ?_ (forall_splits_cons ?_ forall_splits_nil))
    · rintro source batch signature key channel (⟨⟨⟩⟩ | ⟨⟨⟩⟩)
    · rintro source batch signature key channel (⟨⟨⟩⟩ | ⟨⟨⟩⟩) - - -
      exact ⟨rfl,rfl,by decide +kernel,rfl⟩
    · rintro source batch signature key channel (⟨⟨⟩⟩ | ⟨⟨⟩⟩)

/-- Source 7 opens a second channel, and presents the batch of the first one there. -/
def replayedBatch : List ChannelTx :=
  settledChannel ++ [channelTx (.openChannel 7 100 3),
    channelTx (.submit 7 channelBatch channelSignature channelKey)]

/-- The second channel takes the batch that was signed for the first one. -/
theorem replayedBatch_unsound :
    (∀ t ∈ replayedBatch, Unforgeable signedOnce t.env.host) ∧
      ¬ChannelsSound signedOnce channelStore replayedBatch := by
  constructor
  · intro t ht
    simp only [replayedBatch,settledChannel,List.mem_append,List.mem_cons,List.not_mem_nil,
      or_false] at ht
    rcases ht with (rfl | rfl | rfl) | rfl | rfl <;> exact unforgeable_channelHost
  · intro h
    have hauthentic := h.authentic (settledChannel ++ [channelTx (.openChannel 7 100 3)])
      (channelTx (.submit 7 channelBatch channelSignature channelKey)) [] rfl
    obtain ⟨-,batch,signature,key,-,-,-,⟨-,-,hnumber,-⟩,-⟩ := hauthentic 7
      (.opened 7 100 3 100) ((StateChannel.opened 7 100 3 100).best channelBatch)
      (by decide +kernel) (by decide +kernel) (by decide)
    exact absurd hnumber (by decide +kernel)

end Runs

end PriceOracle.Channels
