import PriceOracle.Aggregation.Writers

/-! # Calls that publish nothing

A pause stops every submission path but the fee market and attested prices. These and the other writers
of an aggregate do not ask for the pause: each has reasons of its own to write nothing. -/

namespace PriceOracle.Model.Store

variable (env : Env) (st : Store)

def timeTriggerDue (asset : Address) : Bool :=
  (st.config.triggerTimeInterval asset).getD 0 ≠ 0 ∧
    (st.config.triggerTimeInterval asset).getD 0 ≤
      env.timestamp - (st.rounds.triggerLastAggTime asset).getD 0

/-- Enough compliant submissions are stored for `trigger_aggregation`. -/
def triggerQuorate (asset : Address) : Bool :=
  (st.basePolicy asset).minSources ≤ (st.triggerEntries env asset).length ∧
    st.triggerEntries env asset ≠ []

theorem quorate_of_counters (asset : Address) (counts times : Map Address Nat) :
    Store.quorate env { st with rounds := { st.rounds with
      triggerSubmissionCount := counts
      triggerLastAggTime := times } } asset = st.quorate env asset := rfl

theorem quorate_of_index (asset : Address) (index : Map Address Bool) :
    Store.quorate env { st with registry := { st.registry with assetIndex := index } } asset =
      st.quorate env asset := rfl

end PriceOracle.Model.Store

namespace PriceOracle.Aggregation

open Lib.Transaction Lib.Footprint Model Submissions

/-- No submission has been stored and no aggregate written. -/
structure Silent (w w' : World) : Prop where
  submissions : w'.log.submissions = w.log.submissions
  aggregates : w'.log.aggregates = w.log.aggregates

instance : Std.Refl Silent := ⟨fun _ => ⟨rfl, rfl⟩⟩

instance : IsTrans World Silent :=
  ⟨fun _ _ _ h h' => ⟨h'.submissions.trans h.submissions, h'.aggregates.trans h.aggregates⟩⟩

/-- What keeps a writer from writing while the contract is paused. -/
def PriceCall.Idle (env : Env) (st : Store) : PriceCall → Prop
  | .aggregate (.submit .processFeeMarket) => ∀ x ∈ st.feeMarket.pending.take maxProcessPerLedger,
    st.isCircuitBreakerTripped x.asset = true
  | .aggregate (.submit (.zkSubmitPrice _ asset proof publicSignals)) =>
    ∀ vk ∈ st.config.zkVerifyingKey, ZkVerify.groth16Verify env.host vk proof publicSignals = true →
      st.isCircuitBreakerTripped asset = true
  | .aggregate (.recomputeAssetPrice asset) => st.quorate env asset = false
  | .aggregate (.pokeTimeTrigger asset) =>
    st.timeTriggerDue env asset = true → st.quorate env asset = false
  | .triggerAggregation asset => st.triggerQuorate env asset = false
  | .correctPrice asset newPrice _ => st.adminSigns env = true →
    (st.aggregate asset).isSome = true → st.bounds.admits asset newPrice = false
  | .resolveDispute id resolution => st.adminSigns env = true → resolution = true →
    ∀ p ∈ st.optimistic.proposal id, contested p env.sequence = false
  | .resolveViaExternalData id _ _ => st.adminSigns env = true →
    ∀ p ∈ st.optimistic.proposal id, contested p env.sequence = false
  | .getProposal id => ∀ p ∈ st.optimistic.proposal id, p.due env.sequence = false
  | .getActiveProposals => ∀ id, ∀ p ∈ st.optimistic.proposal id, p.due env.sequence = false
  | .migrateStorage batchSize => st.adminSigns env = true →
    ∀ asset ∈ st.nextBatch env batchSize, (st.aggregate asset).isSome = true
  | _ => True

section Rules

variable {α : Type} {w w' t : World} {T : List Region} {m : Contract α}

theorem silent_of_agreeOff (h : layout.agreeOff T w w')
    (hsubmissions : .submissions ∉ T) (haggregates : .aggregates ∉ T) : Silent w w' :=
  ⟨congrArg Prod.snd (h .submissions hsubmissions),congrArg Prod.snd (h .aggregates haggregates)⟩

theorem silent_of_frame (hm : Frame T m)
    (hsubmissions : .submissions ∉ T) (haggregates : .aggregates ∉ T) :
    Sat m w fun _ w' => Silent w w' :=
  (hm w).mono fun _ _ h => silent_of_agreeOff h hsubmissions haggregates

theorem sat_of_const {P : Prop} (h : P) : Sat m w fun _ _ => P :=
  fun _ _ _ => h

end Rules

section Paused

variable {w : World}

theorem asSource_paused (hpaused : w.store.isPaused = true) (source : Address)
    (body : Contract Unit) (Q : Unit → World → Prop) : Sat (asSource source body) w Q := by
  simp [asSource,checkNotPaused,hpaused]

theorem applyBridgedPrice_paused (hpaused : w.store.isPaused = true) (source asset : Address)
    (price : Int) (timestamp : Nat) (Q : Unit → World → Prop) :
    Sat (applyBridgedPrice source asset price timestamp) w Q := by
  simp [applyBridgedPrice,checkNotPaused,hpaused]

theorem paused_refuses (hpaused : w.store.isPaused = true) {call : SubmissionCall}
    (hgate : Gate.contractPaused ∈ call.gates) (Q : Unit → World → Prop) : Sat call.body w Q := by
  cases call with
  | bySource source call =>
    cases call with
    | submitPrices xs =>
      refine sat_bind _ _ |>.2 ((sat_ensure _ _ _).2 fun _ => ?_)
      exact asSource_paused hpaused source _ Q
    | submitPriceMerkle root proofs =>
      refine sat_bind _ _ |>.2 ((sat_ensure _ _ _).2 fun _ => ?_)
      exact asSource_paused hpaused source _ Q
    | _ => exact asSource_paused hpaused source _ Q
  | processFeeMarket => exact absurd hgate (by decide)
  | zkSubmitPrice source asset proof publicSignals =>
    exact absurd hgate (show _ ∉ feeMarketGates by decide)
  | _ => simp [SubmissionCall.body,submitPriceWithProof,submitPriceRelayed,submitPricesRelayed,
      checkNotPaused,hpaused]

end Paused

section Writers

variable {w t : World} {asset : Address}

theorem submitPriceInternal_tripped {source asset : Address}
    (htripped : t.store.isCircuitBreakerTripped asset = true) (price : Int) (timestamp : Nat) :
    Sat (submitPriceInternal source asset price timestamp) t fun _ u =>
      layout.agreeOff [] t u := by
  have ht : layout.agreeOff [] t t := Std.Refl.refl t
  refine ((checkSource_frame source).from ht).andThen fun _ u hu => ?_
  refine ((checkRegisteredAsset_frame asset).from hu).andThen fun _ u hu => ?_
  refine ((checkSourceAsset_frame source asset).from hu).andThen fun _ u hu => ?_
  refine (enforceCommitRevealForBft_frame.from hu).andThen fun _ u hu => ?_
  have hgates : u.store.gates = t.store.gates := hu .gates (by decide)
  have hdrop : u.store.isCircuitBreakerTripped asset = true := by
    rw [Store.isCircuitBreakerTripped,hgates]
    exact htripped
  simp only [unlessTripped,sat_bind,sat_ensure,sat_readStore,hdrop,if_true,sat_pure]
  exact fun _ => hu

theorem processFeeMarket_idle
    (hidle : ∀ x ∈ w.store.feeMarket.pending.take maxProcessPerLedger,
      w.store.isCircuitBreakerTripped x.asset = true) :
    Sat processFeeMarket w fun _ u => layout.agreeOff [.feeMarket] w u := by
  unfold processFeeMarket
  rw [sat_bind,sat_readStore]
  refine Sat.andThen (sat_forM (I := layout.agreeOff [.feeMarket] w) (fun x hx t ht => ?_)
    (Std.Refl.refl w)) fun _ t ht => (modifyFeeMarket_frame _).from ht
  have hgates : t.store.gates = w.store.gates := ht .gates (by decide)
  have htripped : t.store.isCircuitBreakerTripped x.asset = true := by
    rw [Store.isCircuitBreakerTripped,hgates]
    exact hidle x hx
  refine (submitPriceInternal_tripped htripped x.price x.timestamp).andThen fun _ u hu => ?_
  have hfee : Frame [.feeMarket] (distributeFee x.source x.priorityFee) :=
    .read fun _ => modifyFeeMarket_frame _
  exact hfee.from (IsTrans.trans w t u ht fun r _ => hu r List.not_mem_nil)

theorem zkSubmitPrice_idle {source : Address} {proof : Groth16Proof}
    {publicSignals : List (BytesN 32)} (hidle : ∀ vk ∈ w.store.config.zkVerifyingKey,
      ZkVerify.groth16Verify w.env.host vk proof publicSignals = true →
        w.store.isCircuitBreakerTripped asset = true) :
    Sat (zkSubmitPrice source asset proof publicSignals) w fun _ u =>
      layout.agreeOff [.auths] w u := by
  have hw : layout.agreeOff [.auths] w w := Std.Refl.refl w
  unfold zkSubmitPrice
  rw [sat_bind,sat_ensure]
  intro _
  refine ((requireAuth_frame source).from hw).andThen fun _ t ht => ?_
  rw [sat_bind,sat_readStore,sat_bind,sat_ensure]
  intro _
  refine ((checkRegisteredAsset_frame asset).from ht).andThen fun _ t ht => ?_
  have hconfig : t.store.config = w.store.config := ht .config (by decide)
  have henv : t.env = w.env := ht .env (by decide)
  have hgates : t.store.gates = w.store.gates := ht .gates (by decide)
  refine (sat_lookup (o := t.store.config.zkVerifyingKey) ?_).andThen fun vk v hvk => ?_
  · cases t.store.config.zkVerifyingKey <;> rfl
  obtain ⟨hvk,rfl⟩ := hvk
  rw [sat_bind,sat_readStore,sat_bind,sat_ensure]
  intro hvalid
  rw [sat_bind,sat_consult]
  intro x _
  rw [sat_bind,sat_ensure]
  intro _
  rw [hconfig] at hvk
  rw [henv] at hvalid
  have htripped : v.store.isCircuitBreakerTripped asset = true := by
    rw [Store.isCircuitBreakerTripped,hgates]
    exact hidle vk hvk hvalid
  refine (submitPriceInternal_tripped htripped x.1 x.2).mono fun _ u hu => ?_
  exact IsTrans.trans w v u ht fun r _ => hu r List.not_mem_nil

theorem recomputeAsset_idle (hidle : w.store.quorate w.env asset = false) :
    Sat (recomputeAsset asset) w fun _ u => Quiet w u := by
  unfold recomputeAsset
  simp only [sat_bind,sat_getSequence,sat_readStore]
  exact idleRound_sat hidle w.store.getDecimals true

/-- Passing the registration check adds the asset to the membership index at most. -/
theorem checkRegisteredAsset_indexes (asset : Address) :
    Sat (checkRegisteredAsset asset) w fun _ u => ∃ index, u = { w with store := { w.store with
      registry := { w.store.registry with assetIndex := index } } } := by
  unfold checkRegisteredAsset indexAsset
  simp only [sat_bind,sat_readStore,sat_ensure,sat_update]
  intro _
  split_ifs
  · exact ⟨w.store.registry.assetIndex,rfl⟩
  · exact ⟨_,rfl⟩

theorem doAggregate_idle (hidle : w.store.quorate w.env asset = false) :
    Sat (doAggregate asset) w fun _ u => Quiet w u := by
  unfold doAggregate aggregateAsset
  simp only [sat_bind,sat_getSequence,sat_readStore]
  exact idleRound_sat hidle w.store.getDecimals false

theorem fireTrigger_idle (hidle : w.store.quorate w.env asset = false) :
    Sat (fireTrigger asset) w fun _ u => Quiet w u := by
  refine Sat.mono (doAggregate_idle ?_) fun _ u hu => IsTrans.trans w _ u ?_ hu
  · rw [← hidle]
    exact Store.quorate_of_counters w.env w.store asset _ _
  · intro r hr
    cases r <;> first | rfl | simp at hr

theorem pokeTimeTrigger_idle
    (hidle : w.store.timeTriggerDue w.env asset = true → w.store.quorate w.env asset = false) :
    Sat (pokeTimeTrigger asset) w fun _ u => Quiet w u := by
  refine ((checkRegisteredAsset_indexes asset).and
    (checkRegisteredAsset_frame (T := [.rounds]) asset w)).andThen fun _ t ht => ?_
  obtain ⟨⟨index,ht⟩,hframe⟩ := ht
  have hquorum (h : w.store.timeTriggerDue w.env asset = true) :
      t.store.quorate t.env asset = false := by
    rw [ht]
    exact (Store.quorate_of_index w.env w.store asset index).trans (hidle h)
  refine sat_ite _ (fun _ => (sat_pure _).2 hframe) fun hdue => ?_
  rw [not_or,Nat.not_lt,ht] at hdue
  refine (fireTrigger_idle (hquorum (decide_eq_true hdue))).andThen fun _ u hu => (sat_pure _).2 ?_
  exact IsTrans.trans w t u hframe hu

theorem triggerAggregation_idle
    (hidle : w.store.triggerQuorate w.env asset = false) (Q : Unit → World → Prop) :
    Sat (triggerAggregation asset) w Q := by
  refine (checkRegisteredAsset_indexes asset).andThen fun _ t ht => ?_
  obtain ⟨index,rfl⟩ := ht
  simp only [sat_bind,sat_getSequence,sat_readStore,sat_ensure]
  intro _
  refine (effectivePolicy_sat asset _).mono fun policy u hu => ?_
  obtain ⟨rfl,rfl⟩ := hu
  intro hquorum
  exact absurd (decide_eq_true hquorum) (Bool.eq_false_iff.1 hidle)

theorem correctPrice_idle {newPrice : Int}
    (hidle : w.store.adminSigns w.env = true → (w.store.aggregate asset).isSome = true →
      w.store.bounds.admits asset newPrice = false) (reason : String) :
    Sat (correctPrice asset newPrice reason) w fun _ _ => False := by
  have hsigned : Sat (correctPrice asset newPrice reason) w fun _ _ =>
      w.store.adminSigns w.env = true := by
    unfold correctPrice
    rw [sat_bind,getAdmin,sat_consult]
    intro admin hadmin
    rw [sat_bind,sat_requireAuth]
    intro hauth
    have hstored : w.store.config.admin = some admin :=
      found_of_ok (by cases w.store.config.admin <;> rfl) hadmin
    refine sat_of_const ?_
    rw [Store.adminSigns,hstored]
    exact hauth
  refine (hsigned.and (correctPrice_writes asset newPrice reason w)).mono fun _ _ h => ?_
  obtain ⟨hadmin,previous,-,hprevious,hadmits,-⟩ := h
  rw [hidle hadmin (by rw [hprevious]; rfl)] at hadmits
  cases hadmits

end Writers

theorem migrateStorage_idle {batchSize : Nat} (hidle : w.store.adminSigns w.env = true →
    ∀ asset ∈ w.store.nextBatch w.env batchSize, (w.store.aggregate asset).isSome = true) :
    Sat (migrateStorage batchSize) w fun _ u => layout.agreeOff [.auths,.migration] w u := by
  refine migrateStorage_run (I := layout.agreeOff [.auths] w)
    (fun admin => authorizedBy_off admin (by decide)) (fun hsigned asset hbatch t ht => ?_)
    fun f t ht => ?_
  · refine (initializeAggregate_writes asset t).mono fun _ u hu => ?_
    rcases hu with rfl | ⟨hnone,-⟩
    · exact ht
    · have haggregate : t.store.aggregate = w.store.aggregate :=
        congrArg Prod.fst (ht .aggregates (by decide))
      have hstored := hidle hsigned asset hbatch
      rw [← haggregate,hnone] at hstored
      cases hstored
  · have hwrite : Frame [.auths,.migration] (modifyMigration f) :=
      (modifyMigration_frame f).mono (by simp)
    refine hwrite.from fun r hr => ht r fun h => hr ?_
    rw [List.mem_singleton.1 h]
    decide

section Proposals

variable {w t : World}

/-- A proposal that is not due is at most rejected, and none becomes pending by it. -/
theorem finalizeIfExpired_idle {p : OptimisticProposal} (hidle : p.due w.env.sequence = false) :
    Sat (finalizeIfExpired p) w fun _ u => layout.agreeOff [.optimistic] w u ∧
      ∀ id, ∀ q ∈ u.store.optimistic.proposal id, q.status = .pending →
        q ∈ w.store.optimistic.proposal id := by
  unfold finalizeIfExpired
  rw [sat_bind,sat_getSequence]
  split_ifs
  · exact (sat_pure _).2 ⟨Std.Refl.refl w,fun _ _ h _ => h⟩
  · rw [sat_bind]
    refine (writeProposal_frame _ w).and ?_ |>.mono fun _ u hu => (sat_pure _).2 hu
    unfold writeProposal modifyOptimistic
    rw [sat_update]
    intro id q hq hpending
    rcases stored_of_update hq with ⟨-,rfl⟩ | hold
    · cases hpending
    · exact hold
  · exact (sat_pure _).2 ⟨Std.Refl.refl w,fun _ _ h _ => h⟩

theorem getProposal_idle {id : Nat}
    (hidle : ∀ p ∈ w.store.optimistic.proposal id, p.due w.env.sequence = false) :
    Sat (getProposal id) w fun _ u => layout.agreeOff [.optimistic] w u := by
  unfold getProposal
  rw [sat_bind,sat_readStore]
  cases hstored : w.store.optimistic.proposal id with
  | none => exact (sat_pure _).2 (Std.Refl.refl w)
  | some p =>
    refine (finalizeIfExpired_idle (hidle p hstored)).andThen fun _ u hu => ?_
    exact (sat_pure _).2 hu.1

theorem getActiveProposals_idle
    (hidle : ∀ id, ∀ p ∈ w.store.optimistic.proposal id, p.due w.env.sequence = false) :
    Sat getActiveProposals w fun _ u => layout.agreeOff [.optimistic] w u := by
  refine Sat.mono (sat_foldlM (I := fun _ u => layout.agreeOff [.optimistic] w u ∧
    ∀ id, ∀ p ∈ u.store.optimistic.proposal id, p.due u.env.sequence = false)
    (fun id _ active t ht => ?_) ⟨Std.Refl.refl w,hidle⟩) fun _ _ hu => hu.1
  obtain ⟨hframe,hnone⟩ := ht
  unfold collectActive
  rw [sat_bind,sat_readStore]
  cases hstored : t.store.optimistic.proposal id with
  | none => exact (sat_pure _).2 ⟨hframe,hnone⟩
  | some p =>
    refine (finalizeIfExpired_idle (hnone id p hstored)).andThen fun _ u hu => (sat_pure _).2 ?_
    obtain ⟨htu,hproposals⟩ := hu
    have henv : u.env = t.env := htu .env (by decide)
    refine ⟨IsTrans.trans w t u hframe htu,fun i q hq => ?_⟩
    rw [henv]
    by_cases hpending : q.status = .pending
    · exact hnone i q (hproposals i q hq hpending)
    · simp [OptimisticProposal.due,hpending]

theorem resolveDispute_idle {id : Nat} {resolution : Bool}
    (hidle : w.store.adminSigns w.env = true → resolution = true →
      ∀ p ∈ w.store.optimistic.proposal id, contested p w.env.sequence = false) :
    Sat (resolveDispute id resolution) w fun _ u => layout.agreeOff [.auths,.optimistic] w u := by
  refine sat_asAdmin_of_signed fun hsigned admin => ?_
  have hadmin : layout.agreeOff [.auths,.optimistic] w (w.authorizedBy admin) :=
    authorizedBy_off admin (by decide)
  refine (openDispute_sat id _).andThen fun p t ht => ?_
  obtain ⟨hstored,hcontested,rfl⟩ := ht
  have hwrite (q : OptimisticProposal) : Frame [.auths,.optimistic] (writeProposal q) :=
    (writeProposal_frame q).mono (by simp)
  cases resolution with
  | true =>
    have hopen := hidle hsigned rfl p hstored
    rw [authorizedBy_env,hopen] at hcontested
    cases hcontested
  | false =>
    exact (hwrite _).from hadmin

theorem resolveViaExternalData_idle {id : Nat}
    (hidle : w.store.adminSigns w.env = true →
      ∀ p ∈ w.store.optimistic.proposal id, contested p w.env.sequence = false)
    (externalPrice : Int) (proof : ExternalDataProof) (Q : Unit → World → Prop) :
    Sat (resolveViaExternalData id externalPrice proof) w Q := by
  refine sat_asAdmin_of_signed fun hsigned admin => ?_
  refine (openDispute_sat id _).andThen fun p t ht => ?_
  obtain ⟨hstored,hcontested,rfl⟩ := ht
  rw [authorizedBy_env,hidle hsigned p hstored] at hcontested
  cases hcontested

end Proposals

/-- While the contract is paused, a call that is idle in its storage publishes nothing. -/
theorem PriceCall.idle_sat {w : World} (hpaused : w.store.isPaused = true) {call : PriceCall}
    (hidle : call.Idle w.env w.store) : Sat call.body w fun _ u => Silent w u := by
  have hquiet (u : World) (hu : Quiet w u) : Silent w u :=
    silent_of_agreeOff hu (by decide) (by decide)
  cases call with
  | aggregate call =>
    cases call with
    | submit call =>
      by_cases hgate : Gate.contractPaused ∈ call.gates
      · exact paused_refuses hpaused hgate _
      · cases call with
        | processFeeMarket =>
          exact (processFeeMarket_idle hidle).mono fun _ _ hu =>
            silent_of_agreeOff hu (by decide) (by decide)
        | zkSubmitPrice source asset proof publicSignals =>
          exact (zkSubmitPrice_idle hidle).mono fun _ _ hu =>
            silent_of_agreeOff hu (by decide) (by decide)
        | bySource source call =>
          have hall : Gate.contractPaused ∈ call.gates := by
            cases call <;> exact List.mem_of_elem_eq_true rfl
          exact absurd hall hgate
        | _ => exact absurd (List.mem_of_elem_eq_true rfl) hgate
    | applyBridgedPrice bridgeSource asset price timestamp =>
      exact applyBridgedPrice_paused hpaused bridgeSource asset price timestamp _
    | recomputeAssetPrice asset =>
      exact (recomputeAsset_idle hidle).andThen fun _ u hu => (sat_pure _).2 (hquiet u hu)
    | pokeTimeTrigger asset =>
      exact (pokeTimeTrigger_idle hidle).andThen fun _ u hu => (sat_pure _).2 (hquiet u hu)
  | triggerAggregation asset => exact triggerAggregation_idle hidle _
  | correctPrice asset newPrice reason =>
    exact (correctPrice_idle hidle reason).andThen fun _ _ h => h.elim
  | proposePrice proposer asset price timestamp bondAmount =>
    exact silent_of_frame ((proposePrice_frame proposer asset price timestamp bondAmount).bind
      fun _ => preserves_pure _) (by decide) (by decide)
  | disputeProposal disputer id =>
    exact silent_of_frame (disputeProposal_frame disputer id) (by decide) (by decide)
  | resolveDispute id resolution =>
    exact (resolveDispute_idle hidle).mono fun _ _ hu =>
      silent_of_agreeOff hu (by decide) (by decide)
  | resolveViaExternalData id externalPrice proof =>
    exact resolveViaExternalData_idle hidle externalPrice proof _
  | getProposal id =>
    exact (getProposal_idle hidle).andThen fun _ _ hu => (sat_pure _).2
      (silent_of_agreeOff hu (by decide) (by decide))
  | getActiveProposals =>
    exact (getActiveProposals_idle hidle).andThen fun _ _ hu => (sat_pure _).2
      (silent_of_agreeOff hu (by decide) (by decide))
  | migrateStorage batchSize =>
    exact (migrateStorage_idle hidle).mono fun _ _ hu =>
      silent_of_agreeOff hu (by decide) (by decide)
  | setBounds asset arg => exact silent_of_frame (setBounds_frame asset arg) (by decide) (by decide)
  | clearBounds asset => exact silent_of_frame (clearBounds_frame asset) (by decide) (by decide)

end PriceOracle.Aggregation
