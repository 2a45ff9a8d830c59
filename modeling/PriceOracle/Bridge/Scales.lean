import PriceOracle.Bridge.Delivery

/-! # The scale of a bridged price

A bridged price is stored as it came, beside the decimals of the contract. This is its value at
that scale only where normalising the price would not change it. -/

namespace PriceOracle.Bridge

open Lib.Transaction Lib.MachineInt Model Submissions Aggregation

section Normalizing

variable {price : Int} {d D : Nat}

/-- Normalising does not change the price: the decimals are the same, or the product saturates. -/
def SameScale (price : Int) (d D : Nat) : Prop :=
  d = D ∨ d < D ∧ price = i128Max ∧ 0 < wrap (10 ^ (D - d))

theorem even_wrap_pow {k : Nat} (hk : k ≠ 0) : 2 ∣ wrap (10 ^ k) := by
  have hten : (2 : Int) ∣ 10 ^ k := dvd_pow (by decide) hk
  unfold wrap
  omega

theorem tdiv_lt_self {factor : Int} (hpos : 0 < price) (heven : 2 ∣ factor) :
    price.tdiv factor < price := by
  rcases lt_or_ge 0 factor with hfactor | hfactor
  · rw [Int.tdiv_eq_ediv_of_nonneg hpos.le]
    refine Int.ediv_lt_of_lt_mul hfactor ?_
    have htwo : 2 ≤ factor := by omega
    nlinarith
  · have hquotient := Int.tdiv_nonneg hpos.le (neg_nonneg.2 hfactor)
    rw [Int.tdiv_neg] at hquotient
    omega

theorem normalizeBridgedPrice_eq_self_iff (hpos : 0 < price) :
    normalizeBridgedPrice price D d = some price ↔ SameScale price d D := by
  unfold normalizeBridgedPrice SameScale
  split_ifs with hsame hless
  · simp [hsame]
  · have heven := even_wrap_pow (Nat.sub_ne_zero_of_lt hless)
    simp only [hsame,hless,true_and,false_or,Option.some.injEq]
    rcases lt_or_ge 0 (wrap (10 ^ (D - d))) with hfactor | hfactor
    · have hgrows : price < price * wrap (10 ^ (D - d)) := by
        have htwo : 2 ≤ wrap (10 ^ (D - d)) := by omega
        nlinarith
      rw [satMul_of_nonneg hpos.le hfactor.le]
      omega
    · have hproduct := mul_nonpos_of_nonneg_of_nonpos hpos.le hfactor
      unfold satMul saturate i128Min
      omega
  · have hsmall := tdiv_lt_self hpos (even_wrap_pow (Nat.sub_ne_zero_of_lt (by omega : D < d)))
    simp only [hsame,hless,false_and,or_self,iff_false]
    split_ifs
    · simp
    · rw [Option.some.injEq]
      unfold saturate i128Min
      omega

end Normalizing

section Stamping

variable {price : Int} {w : World} {α : Type}

/-- Every new write has the price, with the decimals of the contract. -/
structure Stamped (price : Int) (w w' : World) : Prop where
  config : w'.store.config = w.store.config
  writes : ∀ x ∈ w'.log.submissions, x ∈ w.log.submissions ∨
    0 < price ∧ x.entry.price = price ∧ x.entry.decimals = w.store.getDecimals

instance : Std.Refl (Stamped price) := ⟨fun _ => ⟨rfl, fun _ h => .inl h⟩⟩

instance : IsTrans World (Stamped price) where
  trans w v u hwv hvu := by
    have hdecimals : v.store.getDecimals = w.store.getDecimals := by
      rw [Store.getDecimals, hwv.config, Store.getDecimals]
    refine ⟨hvu.config.trans hwv.config, fun x hx => ?_⟩
    rcases hvu.writes x hx with hold | hnew
    · exact hwv.writes x hold
    · exact .inr (hdecimals ▸ hnew)

theorem stamped_frame {T : List Region} {m : Contract α} (hm : Frame T m)
    (hconfig : Region.config ∉ T) (hsubmissions : Region.submissions ∉ T) :
    Preserves (Stamped price) m :=
  hm.weaken fun w w' h => by
    have hlog : w'.log.submissions = w.log.submissions :=
      congrArg Prod.snd (h .submissions hsubmissions)
    exact ⟨h .config hconfig,fun x hx => .inl (hlog ▸ hx)⟩

theorem books_stamped {m : Contract α} (hm : Frame bookkeeping m) : Preserves (Stamped price) m :=
  stamped_frame hm (by decide) (by decide)

theorem stamped_respectsRounds : RespectsRounds (Stamped price) where
  quiet w w' h := by
    have hlog : w'.log.submissions = w.log.submissions :=
      congrArg Prod.snd (h .submissions (by decide))
    exact ⟨h .config (by decide),fun x hx => .inl (hlog ▸ hx)⟩
  commit asset decimals recompute d w _ :=
    stamped_frame (commitRound_frame asset w.env.sequence decimals recompute d) (by decide)
      (by decide) w

theorem storeSubmission_stamped (asset source : Address) (hpos : 0 < price) (timestamp : Nat)
    (volume : Option Int) :
    Preserves (Stamped price) (storeSubmission asset source price timestamp volume) := by
  intro w
  rw [storeSubmission,sat_bind,sat_readStore,writeSubmission,sat_update]
  refine ⟨rfl,fun x hx => ?_⟩
  rcases List.mem_append.1 hx with hold | hnew
  · exact .inl hold
  · rw [List.mem_singleton.1 hnew]
    exact .inr ⟨hpos,rfl,rfl⟩

/-- The opening checks and the bookkeeping store nothing, and the store stamps. -/
theorem applyBridgedPrice_stamped (source asset : Address) (price : Int) (timestamp : Nat) :
    Preserves (Stamped price) (applyBridgedPrice source asset price timestamp) := by
  refine (books_stamped checkNotPaused_frame).bind fun _ => ?_
  refine (books_stamped (checkSource_frame source)).bind fun _ => ?_
  refine (books_stamped (checkRegisteredAsset_frame asset)).bind fun _ => ?_
  refine (books_stamped (checkSourceAsset_frame source asset)).bind fun _ => ?_
  refine (books_stamped ((isSourceSuspended_frame source).bind
    fun _ => preserves_ensure _ _)).bind fun _ => ?_
  refine (books_stamped checkPositive_frame).bind fun _ => ?_
  refine (books_stamped ((getMinPrice_frame asset).bind
    fun _ => preserves_ensure _ _)).bind fun _ => ?_
  refine (books_stamped (checkTimestamp_frame timestamp)).bind fun _ => ?_
  refine (books_stamped (readStore_frame _)).bind fun tripped => ?_
  split_ifs
  · exact preserves_pure _
  intro w
  rw [sat_bind]
  have hreference : Sat (recordReferencePrice asset price) w fun _ u =>
      Stamped price w u ∧ 0 < price := by
    have hchecked : Preserves (Stamped price) (checkRegisteredAsset asset) :=
      books_stamped (checkRegisteredAsset_frame asset)
    refine (hchecked w).andThen fun _ u hu => ?_
    rw [sat_ensure]
    exact fun hpos => ⟨hu,hpos⟩
  refine hreference.mono fun _ t ⟨ht,hpos⟩ => ?_
  have hafter : Preserves (Stamped price) (do
      storeSubmission asset source price timestamp none
      recordSuccessfulSubmission source
      recordSubmissionForTriggers asset price
      doAggregate asset) :=
    (storeSubmission_stamped asset source hpos timestamp none).bind fun _ =>
      (books_stamped (recordSuccessfulSubmission_frame source)).bind fun _ =>
      (recordSubmissionForTriggers_preserves stamped_respectsRounds asset price).bind fun _ =>
      doAggregate_preserves stamped_respectsRounds asset
  exact (hafter t).mono fun _ u hu => IsTrans.trans w t u ht hu

theorem lzReceive_stamped (endpoint : Address) (srcEid : Nat) (sender : BytesN 32) (nonce : Nat)
    (guid : BytesN 32) {message : Bytes} {payload : CrossChainPricePayload}
    (h : decodePricePayload message = .ok payload) :
    Preserves (Stamped payload.price) (lzReceive endpoint srcEid sender nonce guid message) := by
  have hendpoint : Frame [.auths] (checkEndpoint endpoint) :=
    Preserves.bind (preserves_consult _) fun _ =>
      Preserves.bind (preserves_ensure _ _) fun _ => requireAuth_frame endpoint
  have hnonce : Frame [.bridge] (acceptInboundNonce srcEid sender nonce) :=
    .read fun _ => .check fun _ => modifyBridge_frame _
  refine (books_stamped checkNotPaused_frame).bind fun _ => ?_
  refine (stamped_frame hendpoint (by decide) (by decide)).bind fun _ => ?_
  refine (stamped_frame hnonce (by decide) (by decide)).bind fun _ => ?_
  refine .lookup fun source => .lookup fun chain => ?_
  intro w
  rw [sat_bind,sat_consult,h]
  rintro _ ⟨⟩
  refine Preserves.bind (.lookup fun mapping => .check fun _ => preserves_pure _) (fun mapping =>
    ?_) w
  exact applyBridgedPrice_stamped source _ payload.price _

end Stamping

/-- The call that brings a payload: a message of the endpoint, or what another bridge has checked. -/
inductive Arrival (payload : CrossChainPricePayload) : Contract Unit → Prop
  | received {message : Bytes} (endpoint : Address) (srcEid : Nat) (sender : BytesN 32)
      (nonce : Nat) (guid : BytesN 32) (h : decodePricePayload message = .ok payload) :
      Arrival payload (lzReceive endpoint srcEid sender nonce guid message)
  | applied (source asset : Address) :
      Arrival payload (applyBridgedPrice source asset payload.price payload.timestamp.toNat)

/-- The entry has the value of the payload, rescaled to the decimals of the contract. -/
def Rescaled (payload : CrossChainPricePayload) (st : Store) (entry : PriceEntry) : Prop :=
  entry.decimals = st.getDecimals ∧
    normalizeBridgedPrice payload.price st.getDecimals payload.decimals.toNat = some entry.price

/-- Whatever an arriving payload stores has the price of the payload and the decimals of the contract,
and has the value of the payload exactly if normalising would not change the price. -/
theorem stored_rescaled_iff (env : Env) (st : Store) :
    ∀ payload m, Arrival payload m → ∀ x ∈ (effects m env st).submissions,
      x.entry.price = payload.price ∧ x.entry.decimals = st.getDecimals ∧
      (Rescaled payload st x.entry ↔
        SameScale payload.price payload.decimals.toNat st.getDecimals) := by
  intro payload m harrival x hx
  have hstamped : Preserves (Stamped payload.price) m := by
    cases harrival with
    | received endpoint srcEid sender nonce guid h =>
      exact lzReceive_stamped endpoint srcEid sender nonce guid h
    | applied source asset => exact applyBridgedPrice_stamped source asset payload.price _
  have hcommit : Stamped payload.price (World.enter env st) (commit m (World.enter env st)) :=
    commit_of_sat (Std.Refl.refl _) (hstamped _)
  rcases hcommit.writes x hx with hold | ⟨hpos,hprice,hdecimals⟩
  · cases hold
  · refine ⟨hprice,hdecimals,?_⟩
    rw [Rescaled,hprice,← normalizeBridgedPrice_eq_self_iff hpos]
    exact and_iff_right hdecimals

/-- The price 5, with 18 decimals as the contract has. -/
def finePayload : CrossChainPricePayload :=
  ⟨word 22, 5000000000000000000, ⟨by decide, by decide⟩, 18, 900, 0⟩

def coarsePayload : CrossChainPricePayload := ⟨word 22, 500000000, ⟨by decide, by decide⟩, 8, 900, 0⟩

def arrival (payload : CrossChainPricePayload) : Contract Unit :=
  lzReceive 5 30101 (word 21) 1 (word 0) (encodePricePayload payload)

theorem arrival_arrives (payload : CrossChainPricePayload) : Arrival payload (arrival payload) :=
  .received 5 30101 (word 21) 1 (word 0) (decodePricePayload_encodePricePayload payload)

theorem fine_price_rescaled :
    ∃ x ∈ (effects (arrival finePayload) (.concrete 5 1000 [5]) bridgeStore).submissions,
      Rescaled finePayload bridgeStore x.entry := by
  have hwrites : (effects (arrival finePayload) (.concrete 5 1000 [5])
      bridgeStore).submissions.length = 1 := by decide +kernel
  obtain ⟨x,hx⟩ := List.exists_mem_of_length_pos (hwrites.symm ▸ Nat.one_pos)
  have hstored := stored_rescaled_iff (.concrete 5 1000 [5]) bridgeStore finePayload _
    (arrival_arrives finePayload) x hx
  exact ⟨x,hx,hstored.2.2.2 (.inl rfl)⟩

/-- The second one is stored as 5 · 10⁻¹⁰. -/
theorem coarse_price_stored :
    Arrival coarsePayload (arrival coarsePayload) ∧
    ∃ x ∈ (effects (arrival coarsePayload) (.concrete 5 1000 [5]) bridgeStore).submissions,
      x.entry.price = 500000000 ∧ x.entry.decimals = 18 ∧
      ¬Rescaled coarsePayload bridgeStore x.entry := by
  refine ⟨arrival_arrives coarsePayload,?_⟩
  have hwrites : (effects (arrival coarsePayload) (.concrete 5 1000 [5])
      bridgeStore).submissions.map (fun x => (x.entry.price,x.entry.decimals)) =
        [(500000000,18)] := by decide +kernel
  obtain ⟨x,hx,hentry⟩ := List.mem_map.1 (hwrites.symm ▸ List.mem_singleton_self _)
  obtain ⟨hprice,hdecimals⟩ := Prod.mk.inj hentry
  refine ⟨x,hx,hprice,hdecimals,fun h => ?_⟩
  have hscaled := h.2
  rw [hprice] at hscaled
  revert hscaled
  decide

end PriceOracle.Bridge
