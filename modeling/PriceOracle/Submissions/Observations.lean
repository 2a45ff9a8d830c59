import PriceOracle.Submissions.Paths

/-! # What each path stores

A successful call stores exactly the observations it carries, in their order, except those for
tripped assets; no path but the first two compares them with what is stored. The writes of a call
form a journal of the stored submissions. -/

namespace PriceOracle.Submissions

open Lib.Transaction Lib.Journal Model Aggregation

/-- What a source has seen of an asset, and when. -/
structure Observation where
  asset : Address
  source : Address
  price : Int
  timestamp : Nat
deriving DecidableEq

def observed (s : SubmissionWrite) : Observation :=
  ⟨s.asset, s.source, s.entry.price, s.entry.timestamp⟩

/-- A write as an entry of the journal of the stored submissions. -/
def journalled (s : SubmissionWrite) : Write (Address × Address) PriceEntry :=
  ⟨s.before.submission, (s.asset, s.source), s.entry⟩

/-- The call has stored the observations, one after the other. -/
structure Stored (obs : List Observation) (w w' : World) : Prop where
  frame : layout.agreeOff touched w w'
  writes : ∃ ws, w'.log.submissions = w.log.submissions ++ ws ∧ ws.map observed = obs ∧
    Chained w.store.submission (ws.map journalled) w'.store.submission

/-- The regions a path may write beside the submissions. -/
def unstored : List Region :=
  [.auths, .stats, .aggregates, .rounds, .history, .provenance, .corrections, .relayers,
    .feeMarket]

/-- The observations of assets whose breaker has not tripped. -/
def heard (st : Store) (obs : List Observation) : List Observation :=
  obs.filter fun o => !st.isCircuitBreakerTripped o.asset

section Storing

variable {w t u : World} {o : Observation} {obs obs' : List Observation} {α : Type}

theorem stored_nil (h : layout.agreeOff unstored w t) : Stored [] w t := by
  have hviews : (t.store.submission,t.log.submissions) = (w.store.submission,w.log.submissions) :=
    h .submissions (by decide)
  obtain ⟨hsubmission,hlog⟩ := Prod.mk.inj hviews
  refine ⟨fun r hr => h r fun hu => hr (by revert hu; cases r <;> decide),[],?_,rfl,?_⟩
  · rw [hlog,List.append_nil]
  · rw [hsubmission]
    exact .nil _

theorem stored_of_auth (h : layout.agreeOff [.auths] w t) : Stored [] w t :=
  stored_nil fun r hr => h r fun ha => hr (by rw [List.mem_singleton.1 ha]; decide)

theorem Stored.append (h : Stored obs w t) (h' : Stored obs' t u) : Stored (obs ++ obs') w u := by
  obtain ⟨ws,hlog,hobs,hchained⟩ := h.writes
  obtain ⟨us,hlog',hobs',hchained'⟩ := h'.writes
  refine ⟨IsTrans.trans w t u h.frame h'.frame,ws ++ us,?_,?_,?_⟩
  · rw [hlog',hlog,List.append_assoc]
  · rw [List.map_append,hobs,hobs']
  · rw [List.map_append]
    exact hchained.append hchained'

instance : Std.Refl (Stored []) := ⟨fun w => stored_nil (Std.Refl.refl w)⟩

instance : IsTrans World (Stored []) := ⟨fun _ _ _ h h' => h.append h'⟩

theorem stored_of_frame {T : List Region} {m : Contract α} (hm : Frame T m) (hT : T ⊆ unstored) :
    Preserves (Stored []) m :=
  (hm.mono hT).weaken fun _ _ => stored_nil

theorem stored_respectsRounds : RespectsRounds (Stored []) where
  quiet w w' h := stored_nil fun r hr => h r fun hq => hr (by
    rw [List.mem_singleton.1 hq]
    decide)
  commit asset decimals recompute d w _ :=
    stored_of_frame (commitRound_frame asset w.env.sequence decimals recompute d) (by decide) w

theorem storeSubmission_stores (asset source : Address) (price : Int) (timestamp : Nat)
    (volume : Option Int) (w : World) :
    Sat (storeSubmission asset source price timestamp volume) w fun _ w' =>
      Stored [⟨asset,source,price,timestamp⟩] w w' := by
  unfold storeSubmission
  rw [sat_bind,sat_readStore]
  have hframe := writeSubmission_frame asset source
    ⟨price,timestamp,source,w.store.getDecimals,w.env.sequence,w.env.timestamp,volume⟩ w
  unfold writeSubmission at hframe ⊢
  rw [sat_update] at hframe ⊢
  refine ⟨fun r hr => hframe r fun h => hr (by rw [List.mem_singleton.1 h]; decide),?_⟩
  exact ⟨_,rfl,rfl,chained_singleton w.store.submission (asset,source) _⟩

theorem storing_stores {after : Contract Unit} (hafter : Preserves (Stored []) after)
    (asset source : Address) (price : Int) (timestamp : Nat) (volume : Option Int) (w : World) :
    Sat (do storeSubmission asset source price timestamp volume; after) w fun _ w' =>
      Stored [⟨asset,source,price,timestamp⟩] w w' := by
  refine (storeSubmission_stores asset source price timestamp volume w).andThen fun _ t ht => ?_
  exact (hafter t).mono fun _ u hu => ht.append hu

theorem tripped_same (h : layout.agreeOff touched w t) (asset : Address) :
    t.store.isCircuitBreakerTripped asset = w.store.isCircuitBreakerTripped asset := by
  unfold Store.isCircuitBreakerTripped
  rw [show t.store.gates = w.store.gates from h .gates (by decide)]

theorem heard_same (h : layout.agreeOff touched w t) (obs : List Observation) :
    heard t.store obs = heard w.store obs := by
  unfold heard
  simp only [tripped_same h]

theorem heard_map {β : Type} (st : Store) (g : β → Observation) (xs : List β) :
    heard st (xs.map g) = xs.flatMap fun x => heard st [g x] := by
  induction xs with
  | nil => rfl
  | cons x xs ih =>
    rw [List.map_cons,List.flatMap_cons,← ih]
    exact List.filter_append [g x] (xs.map g)

/-- A tripped breaker drops the observation. -/
theorem unlessTripped_stores {body : Contract Unit} (ht : Stored [] w t)
    (hbody : ∀ u, Sat body u fun _ v => Stored [o] u v) :
    Sat (unlessTripped o.asset body) t fun _ u => Stored (heard w.store [o]) w u := by
  unfold unlessTripped heard
  rw [sat_bind,sat_readStore,tripped_same ht.frame]
  by_cases htripped : w.store.isCircuitBreakerTripped o.asset = true
  · simp [htripped,ht]
  · rw [if_neg htripped]
    refine (hbody t).mono fun _ u hu => ?_
    simpa [htripped] using ht.append hu

/-- A loop stores what its iterations store. -/
theorem stores_forM {β : Type} {xs : List β} {f : β → Contract Unit} {g : β → List Observation}
    (hf : ∀ x ∈ xs, ∀ t, layout.agreeOff touched w t → Sat (f x) t fun _ u => Stored (g x) t u)
    (ht : layout.agreeOff touched w t) :
    Sat (forM xs f) t fun _ u => Stored (xs.flatMap g) t u := by
  induction xs generalizing t with
  | nil => exact (sat_pure _).2 (show Stored [] t t from Std.Refl.refl t)
  | cons x xs ih =>
    rw [List.forM_cons,sat_bind]
    refine (hf x List.mem_cons_self t ht).mono fun _ u hu => ?_
    have hwu : layout.agreeOff touched w u := IsTrans.trans w t u ht hu.frame
    exact (ih (fun y hy => hf y (List.mem_cons_of_mem x hy)) hwu).mono fun _ v hv => hu.append hv

end Storing

section Paths

variable {w t : World} {source asset : Address} {price : Int} {timestamp : Nat} {α : Type}
  (relayer : Address) (salt : Bytes)

theorem Stored.step {T : List Region} {m : Contract α} (ht : Stored [] w t) (hm : Frame T m)
    (hT : T ⊆ unstored) : Sat m t fun _ u => Stored [] w u :=
  (stored_of_frame hm hT).from ht

theorem aggregateAfterSubmission_stores (asset : Address) :
    Preserves (Stored []) (aggregateAfterSubmission asset) := by
  apply (maybeAggregateAfterSubmission_preserves stored_respectsRounds asset).bind
  intro enough
  split_ifs
  · exact doAggregate_preserves stored_respectsRounds asset
  · exact preserves_pure _

theorem afterDirect_stores (asset source : Address) (price : Int) :
    Preserves (Stored []) (afterDirect asset source price) :=
  (stored_of_frame (recordSuccessfulSubmission_frame source) (by decide)).bind fun _ =>
    (stored_of_frame (validateCorrelation_frame asset price source) (by decide)).bind fun _ =>
    recordSubmissionForTriggers_preserves stored_respectsRounds asset price

/-- The check passes only if the stored submission is not newer. -/
theorem checkOrder_sat (asset source : Address) (timestamp : Nat) (w : World) :
    Sat (checkOrder asset source timestamp) w fun _ _ =>
      ∀ prev ∈ w.store.submission (asset,source), prev.timestamp ≤ timestamp := by
  unfold checkOrder
  simp only [sat_bind,sat_readStore,sat_ensure]
  intro hdelayed prev hprev
  rw [hprev] at hdelayed
  simpa using hdelayed

theorem Stored.submission_eq (h : Stored [] w t) : t.store.submission = w.store.submission := by
  obtain ⟨ws,-,hws,hchained⟩ := h.writes
  rw [List.map_eq_nil_iff.1 hws] at hchained
  exact hchained.eq_of_nil

theorem submitPrice_stores (nonce : Nat) :
    Sat (submitPrice source asset price timestamp nonce) w fun _ u =>
      Stored (heard w.store [⟨asset,source,price,timestamp⟩]) w u ∧
      ∀ prev ∈ w.store.submission (asset,source), prev.timestamp ≤ timestamp := by
  apply asSource_sat
  intro t hauth
  have ht : Stored [] w t := stored_of_auth hauth
  refine (ht.step (checkDirect_enforces asset source price).frame (by decide)).andThen
    fun _ t ht => ?_
  refine (ht.step (acceptNonce_frame source nonce) (by decide)).andThen fun _ t ht => ?_
  refine (ht.step checkPositive_frame (List.nil_subset _)).andThen fun _ t ht => ?_
  refine (ht.step (checkSubmission_enforces timestamp).frame (by decide)).andThen fun _ t ht => ?_
  refine ((ht.step (checkOrder_frame timestamp) (List.nil_subset _)).and
    (checkOrder_sat asset source timestamp t)).andThen fun _ u hu => ?_
  obtain ⟨hu,horder⟩ := hu
  rw [ht.submission_eq] at horder
  have hafter : Preserves (Stored []) (do
      afterDirect asset source price
      aggregateAfterSubmission asset) :=
    (afterDirect_stores asset source price).bind fun _ => aggregateAfterSubmission_stores asset
  exact (unlessTripped_stores hu fun v =>
    storing_stores hafter asset source price timestamp none v).mono fun _ _ hv => ⟨hv,horder⟩

theorem submitPriceWithVolume_stores (volume : Option Int) :
    Sat (submitPriceWithVolume source asset price timestamp volume) w fun _ u =>
      Stored (heard w.store [⟨asset,source,price,timestamp⟩]) w u := by
  apply asSource_sat
  intro t hauth
  have ht : Stored [] w t := stored_of_auth hauth
  refine (ht.step (checkDirect_enforces asset source price).frame (by decide)).andThen
    fun _ t ht => ?_
  split_ifs
  · exact rejectInvalid_sat source _ t _
  · refine (ht.step (checkSubmission_enforces timestamp).frame (by decide)).andThen
      fun _ t ht => ?_
    have hafter : Preserves (Stored []) (do afterDirect asset source price; doAggregate asset) :=
      (afterDirect_stores asset source price).bind fun _ =>
        doAggregate_preserves stored_respectsRounds asset
    exact unlessTripped_stores ht fun v =>
      storing_stores hafter asset source price timestamp volume v

def batchObservation (source : Address) (x : BatchEntry) : Observation :=
  ⟨x.1, source, x.2.1, x.2.2⟩

theorem storeBatch_stores {xs : List BatchEntry} {after : Contract Unit}
    (hafter : Preserves (Stored []) after) (ht : layout.agreeOff touched w t) :
    Sat (storeBatch source xs after) t fun _ u =>
      Stored ((xs.map (batchObservation source)).takeWhile fun o =>
        !w.store.isCircuitBreakerTripped o.asset) t u := by
  induction xs generalizing t with
  | nil => exact hafter t
  | cons x xs ih =>
    rw [storeBatch,unlessTripped,sat_bind,sat_readStore,tripped_same ht]
    by_cases htripped : w.store.isCircuitBreakerTripped x.1 = true
    · have hnone : Stored [] t t := Std.Refl.refl t
      simpa [batchObservation,htripped] using hnone
    · rw [if_neg htripped]
      refine (storeSubmission_stores x.1 source x.2.1 x.2.2 none t).andThen fun _ u hu => ?_
      have hbooks : Preserves (Stored []) (do
          recordSuccessfulSubmission source
          recordCompliance x.1 source) :=
        (stored_of_frame (recordSuccessfulSubmission_frame source) (by decide)).bind fun _ =>
          stored_of_frame (recordCompliance_frame x.1 source) (by decide)
      rw [← bind_assoc]
      refine (hbooks u).andThen fun _ v hv => ?_
      have hwv : layout.agreeOff touched w v :=
        IsTrans.trans w t v ht (IsTrans.trans t u v hu.frame hv.frame)
      refine (ih hwv).mono fun _ s hs => ?_
      simpa [batchObservation,htripped] using (hu.append hv).append hs

theorem submitPrices_stores (xs : List BatchEntry) :
    Sat (submitPrices source xs) w fun _ u =>
      Stored ((xs.map (batchObservation source)).takeWhile fun o =>
        !w.store.isCircuitBreakerTripped o.asset) w u := by
  unfold submitPrices
  rw [sat_bind,sat_ensure]
  intro _
  apply asSource_sat
  intro t hauth
  have ht : Stored [] w t := stored_of_auth hauth
  refine (ht.step enforceCommitRevealForBft_frame (List.nil_subset _)).andThen fun _ t ht => ?_
  refine (ht.step (checkNotSuspended_enforces 0 source 0 _).frame (by decide)).andThen
    fun _ t ht => ?_
  have hcheck : Preserves (Stored []) (forM xs (checkBatchEntry source)) :=
    preserves_forM fun x _ => stored_of_frame (checkBatchEntry_enforces x).frame (by decide)
  refine (hcheck.from ht).andThen fun _ t ht => ?_
  have hafter : Preserves (Stored []) (forM xs fun x => aggregateAfterSubmission x.1) :=
    preserves_forM fun x _ => aggregateAfterSubmission_stores x.1
  exact (storeBatch_stores hafter ht.frame).mono fun _ u hu => ht.append hu

def leafObservation (proof : MerkleProof) : Observation :=
  ⟨proof.leaf.asset, proof.leaf.source, proof.leaf.price, proof.leaf.timestamp⟩

theorem submitPriceMerkle_stores (root : Bytes) (proofs : List MerkleProof) :
    Sat (submitPriceMerkle source root proofs) w fun _ u =>
      Stored (proofs.map leafObservation) w u := by
  unfold submitPriceMerkle
  rw [sat_bind,sat_ensure]
  intro _
  apply asSource_sat
  intro t hauth
  have ht : Stored [] w t := stored_of_auth hauth
  refine (ht.step (checkNotSuspended_enforces 0 source 0 .notAuthorized).frame (by decide)).andThen
    fun _ t ht => ?_
  have hcheck : Preserves (Stored []) (forM proofs (checkProof root)) :=
    preserves_forM fun p _ => stored_of_frame (checkProof_enforces root p).frame (by decide)
  refine (hcheck.from ht).andThen fun _ t ht => ?_
  have hstore : Sat (forM proofs storeLeaf) t fun _ u =>
      Stored (proofs.flatMap fun p => [leafObservation p]) t u :=
    stores_forM (fun p _ u _ => storeSubmission_stores p.leaf.asset p.leaf.source p.leaf.price
      p.leaf.timestamp none u) (Std.Refl.refl t)
  refine hstore.andThen fun _ u hu => ?_
  have hafter : Preserves (Stored []) (forM proofs fun p => doAggregate p.leaf.asset) :=
    preserves_forM fun p _ => doAggregate_preserves stored_respectsRounds p.leaf.asset
  refine (hafter u).mono fun _ v hv => ?_
  rw [List.map_eq_flatMap]
  simpa using (ht.append hu).append hv

/-- A reveal is stored with the time of its ledger. -/
theorem doReveal_stores (roundLedger : Nat) :
    Sat (doReveal source asset price salt roundLedger) w fun _ u =>
      Stored [⟨asset,source,price,w.env.timestamp⟩] w u := by
  have hw : Stored [] w w := Std.Refl.refl w
  refine (hw.step (openCommit_frame asset source price salt roundLedger) (by decide)).andThen
    fun _ t ht => ?_
  rw [sat_bind,sat_ensure]
  intro hpos
  refine (ht.step (checkMinPrice_enforces source hpos).frame (by decide)).andThen fun _ t ht => ?_
  rw [sat_bind,sat_getTimestamp,show t.env = w.env from ht.frame .env (by decide)]
  have hafter : Preserves (Stored []) (do
      recordCompliance asset source
      recordPriceSubmitted source
      aggregateAfterSubmission asset) :=
    (stored_of_frame (recordCompliance_frame asset source) (by decide)).bind fun _ =>
      (stored_of_frame (recordPriceSubmitted_frame source) (by decide)).bind fun _ =>
      aggregateAfterSubmission_stores asset
  exact (storing_stores hafter asset source price w.env.timestamp none t).mono
    fun _ _ hu => ht.append hu

theorem revealPrice_stores (roundLedger : Nat) :
    Sat (revealPrice source asset price salt roundLedger) w fun _ u =>
      Stored [⟨asset,source,price,w.env.timestamp⟩] w u := by
  apply asSource_sat
  intro t hauth
  have ht : Stored [] w t := stored_of_auth hauth
  refine (ht.step (checkRegisteredAsset_frame asset) (List.nil_subset _)).andThen fun _ t ht => ?_
  rw [← show t.env = w.env from ht.frame .env (by decide)]
  exact (doReveal_stores salt roundLedger).mono fun _ _ hu => ht.append hu

/-- A reveal as an observation of the time `timestamp`. -/
def revealObservation (timestamp : Nat) (source : Address) (x : Reveal) : Observation :=
  ⟨x.asset, source, x.price, timestamp⟩

theorem revealPricesBatch_stores (reveals : List Reveal) :
    Sat (revealPricesBatch source reveals) w fun _ u =>
      Stored (reveals.map (revealObservation w.env.timestamp source)) w u := by
  apply asSource_sat
  intro t hauth
  have ht : Stored [] w t := stored_of_auth hauth
  rw [sat_bind,sat_ensure]
  intro _
  have hone (x : Reveal) (u : World) (hu : layout.agreeOff touched w u) :
      Sat (revealOne source x) u fun _ v =>
        Stored [revealObservation w.env.timestamp source x] u v := by
    have huu : Stored [] u u := Std.Refl.refl u
    refine (huu.step (checkRegisteredAsset_frame x.asset) (List.nil_subset _)).andThen
      fun _ v hv => ?_
    refine (hv.step (checkSourceAsset_frame source x.asset) (List.nil_subset _)).andThen
      fun _ v hv => ?_
    rw [sat_bind,sat_ensure]
    intro _
    have henv : v.env = w.env :=
      (show v.env = u.env from hv.frame .env (by decide)).trans (hu .env (by decide))
    rw [← henv]
    exact (doReveal_stores x.salt x.roundLedger).mono fun _ _ hs => hv.append hs
  rw [List.map_eq_flatMap]
  exact (stores_forM (fun x _ u hu => hone x u hu) ht.frame).mono fun _ _ hu => ht.append hu

theorem submitPriceWithProof_stores (nonce expirationLedger : Nat) (signature : Bytes) :
    Sat (submitPriceWithProof source asset price timestamp nonce expirationLedger signature) w
      fun _ u => Stored (heard w.store [⟨asset,source,price,timestamp⟩]) w u ∧
        ∀ prev ∈ w.store.submission (asset,source), prev.timestamp ≤ timestamp := by
  have ht : Stored [] w w := Std.Refl.refl w
  refine (ht.step checkNotPaused_frame (List.nil_subset _)).andThen fun _ t ht => ?_
  refine (ht.step (checkSource_frame source) (List.nil_subset _)).andThen fun _ t ht => ?_
  refine (ht.step (checkRegisteredAsset_frame asset) (List.nil_subset _)).andThen fun _ t ht => ?_
  refine (ht.step (checkNotFrozen_frame asset) (List.nil_subset _)).andThen fun _ t ht => ?_
  refine (ht.step (checkSourceAsset_frame source asset) (List.nil_subset _)).andThen
    fun _ t ht => ?_
  refine (ht.step (checkNotSuspended_enforces asset source price _).frame (by decide)).andThen
    fun _ t ht => ?_
  rw [sat_bind,sat_getSequence,sat_bind,sat_ensure]
  intro _
  refine (ht.step (checkSignedNonce_frame source nonce) (by decide)).andThen fun _ t ht => ?_
  refine ((ht.step checkPositive_frame (List.nil_subset _)).and (checkPositive_sat t)).andThen
    fun _ t ht => ?_
  obtain ⟨ht,hpos⟩ := ht
  refine (ht.step (checkSignature_frame source _ signature) (by decide)).andThen fun _ t ht => ?_
  refine (ht.step (checkMinPrice_enforces source hpos).frame (by decide)).andThen fun _ t ht => ?_
  refine (ht.step (checkTimestamp_frame timestamp) (List.nil_subset _)).andThen fun _ t ht => ?_
  refine ((ht.step (checkOrder_frame timestamp) (List.nil_subset _)).and
    (checkOrder_sat asset source timestamp t)).andThen fun _ u hu => ?_
  obtain ⟨hu,horder⟩ := hu
  rw [ht.submission_eq] at horder
  have hafter : Preserves (Stored []) (do
      recordSuccessfulSubmission source
      recordSubmissionForTriggers asset price
      doAggregate asset) :=
    (stored_of_frame (recordSuccessfulSubmission_frame source) (by decide)).bind fun _ =>
      (recordSubmissionForTriggers_preserves stored_respectsRounds asset price).bind fun _ =>
      doAggregate_preserves stored_respectsRounds asset
  refine (unlessTripped_stores (o := ⟨asset,source,price,timestamp⟩) hu fun v => ?_).mono
    fun _ _ hv => ⟨hv,horder⟩
  refine ((stored_of_frame (modifyStats_frame _) (by decide)) v).andThen fun _ s hs => ?_
  exact (storing_stores hafter asset source price timestamp none s).mono
    fun _ _ hr => hs.append hr

def relayedObservation (x : RelayedSubmission) : Observation :=
  ⟨x.asset, x.source, x.price, x.timestamp⟩

theorem processRelayedLeg_stores (x : RelayedSubmission) (w : World) :
    Sat (processRelayedLeg relayer x) w fun _ u =>
      Stored (heard w.store [relayedObservation x]) w u := by
  have ht : Stored [] w w := Std.Refl.refl w
  refine (ht.step (checkRelayer_frame x.source relayer) (by decide)).andThen fun _ t ht => ?_
  refine (ht.step (checkSource_frame x.source) (List.nil_subset _)).andThen fun _ t ht => ?_
  refine (ht.step (checkRegisteredAsset_frame x.asset) (List.nil_subset _)).andThen
    fun _ t ht => ?_
  refine (ht.step (checkSourceAsset_frame x.source x.asset) (List.nil_subset _)).andThen
    fun _ t ht => ?_
  refine (ht.step (checkNotSuspended_enforces x.asset x.source x.price _).frame
    (by decide)).andThen fun _ t ht => ?_
  refine ((ht.step checkPositive_frame (List.nil_subset _)).and (checkPositive_sat t)).andThen
    fun _ t ht => ?_
  obtain ⟨ht,hpos⟩ := ht
  refine (ht.step (checkMinPrice_enforces x.source hpos).frame (by decide)).andThen
    fun _ t ht => ?_
  refine (ht.step (checkTimestamp_frame x.timestamp) (List.nil_subset _)).andThen fun _ t ht => ?_
  have hafter : Preserves (Stored []) (do
      recordSuccessfulSubmission x.source
      doAggregate x.asset
      accrueRelayerSubmissionMetrics relayer x.priorityFee) :=
    (stored_of_frame (recordSuccessfulSubmission_frame x.source) (by decide)).bind fun _ =>
      (doAggregate_preserves stored_respectsRounds x.asset).bind fun _ =>
      stored_of_frame (accrueRelayerSubmissionMetrics_frame relayer x.priorityFee) (by decide)
  exact unlessTripped_stores ht fun v =>
    storing_stores hafter x.asset x.source x.price x.timestamp none v

theorem submitPriceRelayed_stores :
    Sat (submitPriceRelayed relayer source asset price timestamp) w fun _ u =>
      Stored (heard w.store [⟨asset,source,price,timestamp⟩]) w u := by
  have ht : Stored [] w w := Std.Refl.refl w
  refine (ht.step checkNotPaused_frame (List.nil_subset _)).andThen fun _ t ht => ?_
  refine (ht.step (requireAuth_frame relayer) (by decide)).andThen fun _ t ht => ?_
  refine (ht.step (requireAuth_frame source) (by decide)).andThen fun _ t ht => ?_
  have hleg := processRelayedLeg_stores relayer ⟨source,asset,price,timestamp,0⟩ t
  rw [heard_same ht.frame] at hleg
  exact hleg.mono fun _ _ hu => ht.append hu

theorem submitPricesRelayed_stores (xs : List RelayedSubmission) :
    Sat (submitPricesRelayed relayer xs) w fun _ u =>
      Stored (heard w.store (xs.map relayedObservation)) w u := by
  have ht : Stored [] w w := Std.Refl.refl w
  unfold submitPricesRelayed
  rw [sat_bind,sat_ensure]
  intro _
  refine (ht.step checkNotPaused_frame (List.nil_subset _)).andThen fun _ t ht => ?_
  refine (ht.step (requireAuth_frame relayer) (by decide)).andThen fun _ t ht => ?_
  simp only [sat_bind,sat_ensure]
  intro _ _ _
  have hone (x : RelayedSubmission) (u : World) (hu : layout.agreeOff touched w u) :
      Sat (do requireAuth x.source; processRelayedLeg relayer x) u fun _ v =>
        Stored (heard w.store [relayedObservation x]) u v := by
    have huu : Stored [] u u := Std.Refl.refl u
    refine (huu.step (requireAuth_frame x.source) (by decide)).andThen fun _ v hv => ?_
    have hleg := processRelayedLeg_stores relayer x v
    rw [heard_same (IsTrans.trans w u v hu hv.frame)] at hleg
    exact hleg.mono fun _ _ hs => hv.append hs
  rw [heard_map]
  exact (stores_forM (fun x _ u hu => hone x u hu) ht.frame).mono fun _ _ hu => ht.append hu

def queuedObservation (x : FeeMarketSubmission) : Observation :=
  ⟨x.asset, x.source, x.price, x.timestamp⟩

theorem submitPriceInternal_stores (source asset : Address) (price : Int) (timestamp : Nat)
    (w : World) : Sat (submitPriceInternal source asset price timestamp) w fun _ u =>
      Stored (heard w.store [⟨asset,source,price,timestamp⟩]) w u := by
  have ht : Stored [] w w := Std.Refl.refl w
  refine (ht.step (checkSource_frame source) (List.nil_subset _)).andThen fun _ t ht => ?_
  refine (ht.step (checkRegisteredAsset_frame asset) (List.nil_subset _)).andThen fun _ t ht => ?_
  refine (ht.step (checkSourceAsset_frame source asset) (List.nil_subset _)).andThen
    fun _ t ht => ?_
  refine (ht.step enforceCommitRevealForBft_frame (List.nil_subset _)).andThen fun _ t ht => ?_
  rw [sat_bind,sat_ensure]
  intro _
  have hafter : Preserves (Stored []) (do
      recordSuccessfulSubmission source
      aggregateAfterSubmission asset) :=
    (stored_of_frame (recordSuccessfulSubmission_frame source) (by decide)).bind fun _ =>
      aggregateAfterSubmission_stores asset
  exact unlessTripped_stores ht fun v => storing_stores hafter asset source price timestamp none v

def attestedObservation (source asset : Address) (x : Int × Nat) : Observation :=
  ⟨asset, source, x.1, x.2⟩

theorem zkSubmitPrice_stores (proof : Groth16Proof) (publicSignals : List (BytesN 32)) :
    Sat (zkSubmitPrice source asset proof publicSignals) w fun _ u =>
      Stored (heard w.store ((ZkVerify.attested publicSignals).toList.map
        (attestedObservation source asset))) w u := by
  have ht : Stored [] w w := Std.Refl.refl w
  unfold zkSubmitPrice
  rw [sat_bind,sat_ensure]
  intro _
  refine (ht.step (requireAuth_frame source) (by decide)).andThen fun _ t ht => ?_
  rw [sat_bind,sat_readStore,sat_bind,sat_ensure]
  intro _
  refine (ht.step (checkRegisteredAsset_frame asset) (List.nil_subset _)).andThen fun _ t ht => ?_
  rw [sat_bind,sat_consult]
  intro vk _
  rw [sat_bind,sat_readStore,sat_bind,sat_ensure]
  intro _
  refine (sat_lookup (o := ZkVerify.attested publicSignals) ?_).andThen fun x u hx => ?_
  · cases ZkVerify.attested publicSignals <;> rfl
  obtain ⟨hx,rfl⟩ := hx
  rw [sat_bind,sat_ensure,hx]
  intro _
  have hinternal := submitPriceInternal_stores source asset x.1 x.2 u
  rw [heard_same ht.frame] at hinternal
  exact hinternal.mono fun _ _ hu => ht.append hu

theorem processSubmission_stores (x : FeeMarketSubmission) (w : World) :
    Sat (processSubmission x) w fun _ u => Stored (heard w.store [queuedObservation x]) w u := by
  refine (submitPriceInternal_stores x.source x.asset x.price x.timestamp w).andThen fun _ t ht => ?_
  refine ((stored_of_frame (distributeFee_frame x.source x.priorityFee) (by decide)) t).mono
    fun _ u hu => ?_
  simpa [queuedObservation] using ht.append hu

theorem processFeeMarket_stores : Sat processFeeMarket w fun _ u =>
    Stored (heard w.store
      ((w.store.feeMarket.pending.take maxProcessPerLedger).map queuedObservation)) w u := by
  have hone (x : FeeMarketSubmission) (u : World) (hu : layout.agreeOff touched w u) :
      Sat (processSubmission x) u fun _ v =>
        Stored (heard w.store [queuedObservation x]) u v := by
    rw [← heard_same hu]
    exact processSubmission_stores x u
  rw [heard_map]
  refine (stores_forM (fun x _ u hu => hone x u hu) (Std.Refl.refl w)).andThen fun _ t ht => ?_
  refine ((stored_of_frame (modifyFeeMarket_frame _) (by decide)) t).mono fun _ u hu => ?_
  simpa using ht.append hu

end Paths

end PriceOracle.Submissions
