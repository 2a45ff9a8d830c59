import PriceOracle.Model.ZkVerify
import PriceOracle.Submissions.Gates

/-! # What a submission path does

One theorem describes every path: a relation on worlds that tolerates bookkeeping, authorizations
and commits of rounds, and every write of a submission whose enforced gates hold, relates the
worlds before and after the call. The results about submissions choose the relation. -/

namespace PriceOracle.Submissions

open Lib.Transaction Model Aggregation

/-- The worlds are related, differ only where a submission path writes, and authorizations are
kept. -/
structure Within (R : World → World → Prop) (w w' : World) : Prop where
  rel : R w w'
  frame : layout.agreeOff touched w w'
  auths : w.log.auths ⊆ w'.log.auths

/-- A relation every part of a submission path keeps, except for the write itself. -/
structure RespectsSubmissions (R : World → World → Prop) : Prop where
  books : ∀ w w', layout.agreeOff bookkeeping w w' → R w w'
  auth : ∀ a w, Sat (requireAuth a) w fun _ w' => R w w'
  commit : ∀ asset decimals recompute d w, Concluded w.env w.store asset d →
    Sat (commitRound asset w.env.sequence decimals recompute d) w fun _ w' => R w w'

section Steps

variable {R : World → World → Prop} [Std.Refl R] [IsTrans World R] {α : Type}

instance : Std.Refl (Within R) := ⟨fun w => ⟨Std.Refl.refl w, Std.Refl.refl w, fun _ h => h⟩⟩

omit [Std.Refl R] in
instance : IsTrans World (Within R) :=
  ⟨fun w v u hwv hvu => ⟨IsTrans.trans w v u hwv.rel hvu.rel,
    IsTrans.trans w v u hwv.frame hvu.frame, fun _ h => hvu.auths (hwv.auths h)⟩⟩

variable (hR : RespectsSubmissions R)

include hR

omit [Std.Refl R] [IsTrans World R] in
theorem RespectsSubmissions.frame {m : Contract α} (hm : Frame bookkeeping m) :
    Preserves (Within R) m := by
  intro w
  refine (hm w).mono fun _ w' hw => ⟨hR.books w w' hw,?_,?_⟩
  · intro r hr
    exact hw r fun hb => hr (by revert hb; cases r <;> decide)
  · have hauths : w'.log.auths = w.log.auths := hw .auths (by decide)
    rw [hauths]
    exact fun _ h => h

omit [Std.Refl R] [IsTrans World R] in
theorem requireAuth_step (a : Address) (w : World) :
    Sat (requireAuth a) w fun _ w' => Within R w w' ∧ a ∈ w'.log.auths := by
  have hframe := (requireAuth_frame a w).and (hR.auth a w)
  have hauths : Sat (requireAuth a) w fun _ w' => w'.log.auths = w.log.auths ++ [a] := by simp
  refine (hframe.and hauths).mono fun _ w' hw => ?_
  obtain ⟨⟨hoff,hrel⟩,hgrow⟩ := hw
  refine ⟨⟨hrel,fun r hr => hoff r fun h => hr ?_,?_⟩,?_⟩
  · rw [List.mem_singleton.1 h]
    decide
  · rw [hgrow]
    exact List.subset_append_left _ _
  · rw [hgrow]
    simp

omit [Std.Refl R] [IsTrans World R] in
/-- Rounds stay within the relation. -/
theorem RespectsSubmissions.rounds : RespectsRounds (Within R) where
  quiet w w' h := by
    refine ⟨hR.books w w' fun r hr => h r fun h' => hr ?_,fun r hr => h r fun h' => hr ?_,?_⟩
    · rw [List.mem_singleton.1 h']
      decide
    · rw [List.mem_singleton.1 h']
      decide
    · have hauths : w'.log.auths = w.log.auths := h .auths (by decide)
      rw [hauths]
      exact fun _ h => h
  commit asset decimals recompute d w hconcluded := by
    refine ((hR.commit asset decimals recompute d w hconcluded).and
      (commitRound_frame asset w.env.sequence decimals recompute d w)).mono fun _ w' hw => ?_
    refine ⟨hw.1,fun r hr => hw.2 r fun h' => hr (by revert h'; cases r <;> decide),?_⟩
    have hauths : w'.log.auths = w.log.auths := hw.2 .auths (by decide)
    rw [hauths]
    exact fun _ h => h

end Steps

/-- A world that a call which began in `w` reaches, signed by `callers`. -/
structure Reached (R : World → World → Prop) (w : World) (callers : List Address) (t : World) :
    Prop where
  within : Within R w t
  signed : callers ⊆ t.log.auths

/-- The relation tolerates the write of `x` by a call signed by `callers`, once `gates` hold. -/
def Admits (R : World → World → Prop) (w : World) (callers : List Address) (gates : List Gate)
    (x : Leg) : Prop :=
  ∀ t entry, layout.agreeOff touched w t → callers ⊆ t.log.auths → entry.price = x.price →
    (∀ g ∈ gates, g.passes w.env w.store x = true) →
    Sat (writeSubmission x.asset x.source entry) t fun _ u => R t u

section Reaching

variable {R : World → World → Prop} [Std.Refl R] [IsTrans World R] {α : Type} {w t : World}
  {callers : List Address} {asset source : Address} {price : Int}

omit [IsTrans World R] in
theorem Reached.refl (w : World) : Reached R w [] w :=
  ⟨Std.Refl.refl w,List.nil_subset _⟩

omit [Std.Refl R] in
theorem Reached.step {m : Contract α} (ht : Reached R w callers t) (hm : Preserves (Within R) m) :
    Sat m t fun _ u => Reached R w callers u :=
  (hm t).mono fun _ u htu =>
    ⟨IsTrans.trans w t u ht.within htu,fun _ h => htu.auths (ht.signed h)⟩

variable (hR : RespectsSubmissions R)

include hR

omit [Std.Refl R] in
theorem Reached.check {m : Contract α} {x : Leg} {gates : List Gate} (hm : Enforces m x gates)
    (ht : Reached R w callers t) :
    Sat m t fun _ u => Reached R w callers u ∧ ∀ g ∈ gates, g.passes w.env w.store x = true :=
  ((ht.step (hR.frame hm.frame)).and (hm.passes t)).mono fun _ _ hu =>
    ⟨hu.1,fun g hg => (passes_congr ht.within.frame x g).symm.trans (hu.2 g hg)⟩

omit [Std.Refl R] in
theorem Reached.requireAuth (ht : Reached R w callers t) (a : Address) :
    Sat (requireAuth a) t fun _ u => Reached R w (a :: callers) u := by
  refine (requireAuth_step hR a t).mono fun _ u hu => ?_
  refine ⟨IsTrans.trans w t u ht.within hu.1,List.cons_subset.2 ⟨hu.2,?_⟩⟩
  exact fun _ h => hu.1.auths (ht.signed h)

omit [Std.Refl R] in
theorem asSource_run {body : Contract Unit} {Q : Unit → World → Prop} (ht : Reached R w [] t)
    (hbody : (∀ x, Gate.contractPaused.passes w.env w.store x = true) →
      ∀ u, Reached R w [source] u → Sat body u Q) :
    Sat (asSource source body) t Q := by
  refine (ht.check hR (checkNotPaused_enforces ⟨0,0,0⟩)).andThen fun _ u hu => ?_
  refine (hu.1.requireAuth hR source).andThen fun _ v hv => ?_
  refine (hv.step (hR.frame (checkSource_frame source))).andThen fun _ s hs => ?_
  exact hbody (fun _ => hu.2 .contractPaused (by simp)) s hs

omit hR [Std.Refl R] [IsTrans World R] in
theorem unlessTripped_run (source : Address) (price : Int) {body : Contract Unit}
    (ht : Reached R w callers t)
    (hbody : Gate.tripped.passes w.env w.store ⟨asset,source,price⟩ = true →
      Sat body t fun _ u => Reached R w callers u) :
    Sat (unlessTripped asset body) t fun _ u => Reached R w callers u := by
  unfold unlessTripped
  rw [sat_bind,sat_readStore]
  split_ifs with htripped
  · exact (sat_pure _).2 ht
  · refine hbody ?_
    rw [← passes_congr ht.within.frame]
    simpa [Gate.passes] using htripped

omit hR [Std.Refl R] in
theorem storeSubmission_run {gates : List Gate}
    (hx : Admits R w callers gates ⟨asset,source,price⟩)
    (hgates : ∀ g ∈ gates, g.passes w.env w.store ⟨asset,source,price⟩ = true)
    (ht : Reached R w callers t) (timestamp : Nat) (volume : Option Int) :
    Sat (storeSubmission asset source price timestamp volume) t
      fun _ u => Reached R w callers u := by
  refine ((hx t _ ht.within.frame ht.signed rfl hgates).and
    (writeSubmission_frame asset source _ t)).mono fun _ u hu => ?_
  have hauths : u.log.auths = t.log.auths := hu.2 .auths (by simp)
  refine ⟨IsTrans.trans w t u ht.within ⟨hu.1,fun r hr => hu.2 r fun h => hr ?_,?_⟩,?_⟩
  · rw [List.mem_singleton.1 h]
    decide
  · rw [hauths]
    exact fun _ h => h
  · rw [hauths]
    exact ht.signed

end Reaching

section Bookkeeping

variable (asset source : Address) (relayer : Address) (nonce : Nat)

theorem acceptNonce_frame : Frame bookkeeping (acceptNonce source nonce) :=
  .read fun _ => .check fun _ => (modifyStats_frame _).mono (by decide)

theorem recordPriceSubmitted_frame : Frame bookkeeping (recordPriceSubmitted source) :=
  .read fun _ => .read fun _ => (modifyStats_frame _).mono (by decide)

theorem recordSuccessfulSubmission_frame : Frame bookkeeping (recordSuccessfulSubmission source) :=
  (recordPriceSubmitted_frame source).bind fun _ => (modifyStats_frame _).mono (by decide)

theorem recordCompliance_frame : Frame bookkeeping (recordCompliance asset source) :=
  .read fun _ => ((modifyStats_frame _).mono (by decide)).bind fun _ =>
    (modifyRounds_frame _).mono (by decide)

theorem openCommit_frame (price : Int) (salt : Bytes) (roundLedger : Nat) :
    Frame bookkeeping (openCommit source asset price salt roundLedger) :=
  .read fun _ => .read fun _ => .read
    fun _ => .check fun _ => .check fun _ =>
    .lookup fun _ => .check fun _ =>
    .read fun _ => .check fun _ =>
    (modifyStats_frame _).mono (by decide)

theorem checkSignature_frame (digest : Env → Bytes) (signature : Bytes) :
    Frame bookkeeping (checkSignature source digest signature) :=
  Preserves.bind (preserves_consult _) fun _ => .read fun _ =>
    preserves_ensure _ _

theorem checkSignedNonce_frame : Frame bookkeeping (checkSignedNonce source nonce) :=
  .read fun _ => preserves_ensure _ _

theorem checkRelayer_frame : Frame bookkeeping (checkRelayer relayer source) :=
  .read fun _ => .check fun _ => .read fun _ => .read fun _ => preserves_ensure _ _

theorem accrueRelayerSubmissionMetrics_frame (priorityFee : Nat) :
    Frame bookkeeping (accrueRelayerSubmissionMetrics relayer priorityFee) :=
  .read fun _ => (modifyRelayers_frame _).mono (by decide)

theorem distributeFee_frame (fee : Nat) : Frame bookkeeping (distributeFee source fee) :=
  .read fun _ => (modifyFeeMarket_frame _).mono (by decide)

end Bookkeeping

section Paths

variable {R : World → World → Prop} [Std.Refl R] [IsTrans World R] (hR : RespectsSubmissions R)
  {w t : World} {callers : List Address} {source asset : Address} {price : Int}

include hR

omit [Std.Refl R] in
theorem aggregateAfterSubmission_preserves (asset : Address) :
    Preserves (Within R) (aggregateAfterSubmission asset) := by
  refine (maybeAggregateAfterSubmission_preserves hR.rounds asset).bind fun enough => ?_
  split_ifs
  · exact doAggregate_preserves hR.rounds asset
  · exact hR.frame (preserves_pure _)

omit [Std.Refl R] in
theorem afterDirect_preserves (asset source : Address) (price : Int) :
    Preserves (Within R) (afterDirect asset source price) :=
  (hR.frame (recordSuccessfulSubmission_frame source)).bind fun _ =>
    (hR.frame ((validateCorrelation_frame asset price source).mono (by decide))).bind fun _ =>
    recordSubmissionForTriggers_preserves hR.rounds asset price

omit [Std.Refl R] in
/-- What the two direct paths share: every gate is enforced before the price is stored. -/
theorem storeDirect_run (hx : Admits R w callers Gate.all ⟨asset,source,price⟩)
    (hgates : ∀ g ∈ Gate.all, g.passes w.env w.store ⟨asset,source,price⟩ = true)
    {after : Contract Unit} (hafter : Preserves (Within R) after) (timestamp : Nat)
    (volume : Option Int) (ht : Reached R w callers t) :
    Sat (unlessTripped asset do
      storeSubmission asset source price timestamp volume
      afterDirect asset source price
      after) t fun _ u => Reached R w callers u := by
  refine unlessTripped_run source price ht fun _ => ?_
  refine (storeSubmission_run hx hgates ht timestamp volume).andThen fun _ u hu => ?_
  refine (hu.step (afterDirect_preserves hR asset source price)).andThen fun _ v hv => ?_
  exact hv.step hafter

theorem submitPrice_run (hx : Admits R w [source] Gate.all ⟨asset,source,price⟩)
    (timestamp nonce : Nat) :
    Sat (submitPrice source asset price timestamp nonce) w
      fun _ u => Reached R w [source] u := by
  refine asSource_run hR (Reached.refl w) fun hpaused t ht => ?_
  refine (ht.check hR (checkDirect_enforces asset source price)).andThen fun _ t ht => ?_
  obtain ⟨ht,hdirect⟩ := ht
  refine (ht.step (hR.frame (acceptNonce_frame source nonce))).andThen fun _ t ht => ?_
  refine (ht.step (hR.frame checkPositive_frame)).andThen fun _ t ht => ?_
  refine (ht.check hR (checkSubmission_enforces timestamp)).andThen fun _ t ht => ?_
  obtain ⟨ht,hsubmission⟩ := ht
  refine (ht.step (hR.frame (checkOrder_frame timestamp))).andThen fun _ t ht => ?_
  exact storeDirect_run hR hx (direct_gates (hpaused _) hdirect hsubmission)
    (aggregateAfterSubmission_preserves hR asset) timestamp none ht

theorem submitPriceWithVolume_run (hx : Admits R w [source] Gate.all ⟨asset,source,price⟩)
    (timestamp : Nat) (volume : Option Int) :
    Sat (submitPriceWithVolume source asset price timestamp volume) w
      fun _ u => Reached R w [source] u := by
  refine asSource_run hR (Reached.refl w) fun hpaused t ht => ?_
  refine (ht.check hR (checkDirect_enforces asset source price)).andThen fun _ t ht => ?_
  obtain ⟨ht,hdirect⟩ := ht
  split_ifs
  · exact rejectInvalid_sat source _ t _
  · refine (ht.check hR (checkSubmission_enforces timestamp)).andThen fun _ t ht => ?_
    obtain ⟨ht,hsubmission⟩ := ht
    exact storeDirect_run hR hx (direct_gates (hpaused _) hdirect hsubmission)
      (doAggregate_preserves hR.rounds asset) timestamp volume ht

/-- The gates an element of `submit_prices` passes before it is stored. -/
def batchGates : List Gate :=
  [.contractPaused, .suspended, .frozen, .sourceAsset, .minPrice, .maxPrice, .assetPaused, .tripped]

omit [Std.Refl R] in
theorem storeBatch_run {xs : List BatchEntry} {after : Contract Unit}
    (hxs : ∀ x ∈ xs, Admits R w callers batchGates ⟨x.1,source,x.2.1⟩)
    (hgates : ∀ x ∈ xs, ∀ g ∈ batchGates, g.passes w.env w.store ⟨x.1,source,x.2.1⟩ = true)
    (hafter : Preserves (Within R) after) (ht : Reached R w callers t) :
    Sat (storeBatch source xs after) t fun _ u => Reached R w callers u := by
  induction xs generalizing t with
  | nil => exact ht.step hafter
  | cons x xs ih =>
    rw [List.forall_mem_cons] at hxs hgates
    refine unlessTripped_run source x.2.1 ht fun _ => ?_
    refine (storeSubmission_run hxs.1 hgates.1 ht x.2.2 none).andThen fun _ t ht => ?_
    refine (ht.step (hR.frame (recordSuccessfulSubmission_frame source))).andThen fun _ t ht => ?_
    refine (ht.step (hR.frame (recordCompliance_frame x.1 source))).andThen fun _ t ht => ?_
    exact ih hxs.2 hgates.2 ht

omit [Std.Refl R] in
theorem Reached.checkAll {β : Type} {xs : List β} {f : β → Contract Unit} {leg : β → Leg}
    {gates : List Gate} (hf : ∀ x, Enforces (f x) (leg x) gates) (ht : Reached R w callers t) :
    Sat (forM xs f) t fun _ u => Reached R w callers u ∧
      ∀ x ∈ xs, ∀ g ∈ gates, g.passes w.env w.store (leg x) = true :=
  sat_forM_all (I := Reached R w callers) (fun x _ _ hs => hs.check hR (hf x)) ht

theorem submitPrices_run {xs : List BatchEntry}
    (hxs : ∀ x ∈ xs, Admits R w [source] batchGates ⟨x.1,source,x.2.1⟩) :
    Sat (submitPrices source xs) w fun _ u => Reached R w [source] u := by
  unfold submitPrices
  rw [sat_bind,sat_ensure]
  intro _
  refine asSource_run hR (Reached.refl w) fun hpaused t ht => ?_
  refine (ht.step (hR.frame enforceCommitRevealForBft_frame)).andThen fun _ t ht => ?_
  refine (ht.check hR (checkNotSuspended_enforces 0 source 0 _)).andThen fun _ t ht => ?_
  obtain ⟨ht,hsuspended⟩ := ht
  refine (ht.checkAll hR fun x => checkBatchEntry_enforces x).andThen fun _ t ht => ?_
  obtain ⟨ht,hentries⟩ := ht
  refine storeBatch_run hR hxs (fun x hx => ?_) (preserves_forM fun x _ => ?_) ht
  · exact List.forall_mem_cons.2 ⟨hpaused _,
      List.forall_mem_cons.2 ⟨hsuspended .suspended (by simp),hentries x hx⟩⟩
  · exact aggregateAfterSubmission_preserves hR x.1

/-- The gates `submit_price_merkle` enforces: the leaf's source may be suspended. -/
def merkleGates : List Gate := [.contractPaused, .sourceAsset]

theorem submitPriceMerkle_run (root : Bytes) {proofs : List MerkleProof}
    (hproofs : ∀ p ∈ proofs,
      Admits R w [source] merkleGates ⟨p.leaf.asset,p.leaf.source,p.leaf.price⟩) :
    Sat (submitPriceMerkle source root proofs) w fun _ u => Reached R w [source] u := by
  unfold submitPriceMerkle
  rw [sat_bind,sat_ensure]
  intro _
  refine asSource_run hR (Reached.refl w) fun hpaused t ht => ?_
  have hsuspended := checkNotSuspended_enforces 0 source 0 .notAuthorized
  refine (ht.step (hR.frame hsuspended.frame)).andThen fun _ t ht => ?_
  refine (ht.checkAll hR (checkProof_enforces root)).andThen fun _ t ht => ?_
  obtain ⟨ht,hleaves⟩ := ht
  refine Sat.andThen (sat_forM (I := Reached R w [source]) (fun p hp t ht => ?_) ht)
    fun _ t ht => ht.step (preserves_forM fun p _ => doAggregate_preserves hR.rounds p.leaf.asset)
  exact storeSubmission_run (hproofs p hp)
    (List.forall_mem_cons.2 ⟨hpaused _,hleaves p hp⟩) ht p.leaf.timestamp none

/-- The gates a reveal enforces; a batch also asks whether the source may price the asset. -/
def revealGates : List Gate := [.contractPaused, .minPrice]

omit [Std.Refl R] in
theorem doReveal_run {gates : List Gate} (hx : Admits R w callers gates ⟨asset,source,price⟩)
    (hgates : Gate.minPrice.passes w.env w.store ⟨asset,source,price⟩ = true →
      ∀ g ∈ gates, g.passes w.env w.store ⟨asset,source,price⟩ = true)
    (salt : Bytes) (roundLedger : Nat) (ht : Reached R w callers t) :
    Sat (doReveal source asset price salt roundLedger) t fun _ u => Reached R w callers u := by
  refine (ht.step (hR.frame (openCommit_frame asset source price salt roundLedger))).andThen
    fun _ t ht => ?_
  rw [sat_bind,sat_ensure]
  intro hpos
  refine (ht.check hR (checkMinPrice_enforces source hpos)).andThen fun _ t ht => ?_
  obtain ⟨ht,hmin⟩ := ht
  rw [sat_bind,sat_getTimestamp]
  refine (storeSubmission_run hx (hgates (hmin .minPrice (by simp))) ht _ none).andThen
    fun _ t ht => ?_
  refine (ht.step (hR.frame (recordCompliance_frame asset source))).andThen fun _ t ht => ?_
  refine (ht.step (hR.frame (recordPriceSubmitted_frame source))).andThen fun _ t ht => ?_
  exact ht.step (aggregateAfterSubmission_preserves hR asset)

theorem revealPrice_run (hx : Admits R w [source] revealGates ⟨asset,source,price⟩)
    (salt : Bytes) (roundLedger : Nat) :
    Sat (revealPrice source asset price salt roundLedger) w
      fun _ u => Reached R w [source] u := by
  refine asSource_run hR (Reached.refl w) fun hpaused t ht => ?_
  refine (ht.step (hR.frame (checkRegisteredAsset_frame asset))).andThen fun _ t ht => ?_
  refine doReveal_run hR hx (fun hmin => ?_) salt roundLedger ht
  exact List.forall_mem_cons.2 ⟨hpaused _,List.forall_mem_singleton.2 hmin⟩

def batchRevealGates : List Gate := [.contractPaused, .sourceAsset, .minPrice]

theorem revealPricesBatch_run {reveals : List Reveal}
    (hxs : ∀ x ∈ reveals, Admits R w [source] batchRevealGates ⟨x.asset,source,x.price⟩) :
    Sat (revealPricesBatch source reveals) w fun _ u => Reached R w [source] u := by
  refine asSource_run hR (Reached.refl w) fun hpaused t ht => ?_
  rw [sat_bind,sat_ensure]
  intro _
  refine sat_forM (I := Reached R w [source]) (fun x hx t ht => ?_) ht
  refine (ht.step (hR.frame (checkRegisteredAsset_frame x.asset))).andThen fun _ t ht => ?_
  refine (ht.check hR (checkSourceAsset_enforces x.asset source x.price)).andThen fun _ t ht => ?_
  obtain ⟨ht,hallowed⟩ := ht
  rw [sat_bind,sat_ensure]
  intro _
  refine doReveal_run hR (hxs x hx) (fun hmin => ?_) x.salt x.roundLedger ht
  exact List.forall_mem_cons.2 ⟨hpaused _,
    List.forall_mem_cons.2 ⟨hallowed _ (by simp),List.forall_mem_singleton.2 hmin⟩⟩

def proofGates : List Gate :=
  [.contractPaused, .frozen, .sourceAsset, .suspended, .minPrice, .tripped]

theorem submitPriceWithProof_run (hx : Admits R w [] proofGates ⟨asset,source,price⟩)
    (timestamp nonce expirationLedger : Nat) (signature : Bytes) :
    Sat (submitPriceWithProof source asset price timestamp nonce expirationLedger signature) w
      fun _ u => Reached R w [] u := by
  have ht : Reached R w [] w := Reached.refl w
  refine (ht.check hR (checkNotPaused_enforces ⟨asset,source,price⟩)).andThen fun _ t ht => ?_
  obtain ⟨ht,hpaused⟩ := ht
  refine (ht.step (hR.frame (checkSource_frame source))).andThen fun _ t ht => ?_
  refine (ht.step (hR.frame (checkRegisteredAsset_frame asset))).andThen fun _ t ht => ?_
  refine (ht.check hR (checkNotFrozen_enforces asset source price)).andThen fun _ t ht => ?_
  obtain ⟨ht,hfrozen⟩ := ht
  refine (ht.check hR (checkSourceAsset_enforces asset source price)).andThen fun _ t ht => ?_
  obtain ⟨ht,hallowed⟩ := ht
  refine (ht.check hR (checkNotSuspended_enforces asset source price _)).andThen fun _ t ht => ?_
  obtain ⟨ht,hsuspended⟩ := ht
  rw [sat_bind,sat_getSequence,sat_bind,sat_ensure]
  intro _
  refine (ht.step (hR.frame (checkSignedNonce_frame source nonce))).andThen fun _ t ht => ?_
  refine ((ht.step (hR.frame checkPositive_frame)).and (checkPositive_sat t)).andThen
    fun _ t ht => ?_
  obtain ⟨ht,hpos⟩ := ht
  refine (ht.step (hR.frame (checkSignature_frame source _ signature))).andThen fun _ t ht => ?_
  refine (ht.check hR (checkMinPrice_enforces source hpos)).andThen fun _ t ht => ?_
  obtain ⟨ht,hmin⟩ := ht
  refine (ht.step (hR.frame (checkTimestamp_frame timestamp))).andThen fun _ t ht => ?_
  refine (ht.step (hR.frame (checkOrder_frame timestamp))).andThen fun _ t ht => ?_
  refine unlessTripped_run source price ht fun htripped => ?_
  refine (ht.step (hR.frame ((modifyStats_frame _).mono (by decide)))).andThen fun _ t ht => ?_
  have hgates : ∀ g ∈ proofGates, g.passes w.env w.store ⟨asset,source,price⟩ = true := by
    simp [proofGates,hpaused,hfrozen,hallowed,hsuspended,hmin,htripped]
  refine (storeSubmission_run hx hgates ht timestamp none).andThen fun _ t ht => ?_
  refine (ht.step (hR.frame (recordSuccessfulSubmission_frame source))).andThen fun _ t ht => ?_
  refine (ht.step (recordSubmissionForTriggers_preserves hR.rounds asset price)).andThen
    fun _ t ht => ?_
  exact ht.step (doAggregate_preserves hR.rounds asset)

/-- The gates a relayed price passes; frozen assets are not among them. -/
def relayedGates : List Gate := [.contractPaused, .sourceAsset, .suspended, .minPrice, .tripped]

omit [Std.Refl R] in
theorem processRelayedLeg_run {x : RelayedSubmission} (relayer : Address)
    (hx : Admits R w callers relayedGates ⟨x.asset,x.source,x.price⟩)
    (hpaused : Gate.contractPaused.passes w.env w.store ⟨x.asset,x.source,x.price⟩ = true)
    (ht : Reached R w callers t) :
    Sat (processRelayedLeg relayer x) t fun _ u => Reached R w callers u := by
  refine (ht.step (hR.frame (checkRelayer_frame x.source relayer))).andThen fun _ t ht => ?_
  refine (ht.step (hR.frame (checkSource_frame x.source))).andThen fun _ t ht => ?_
  refine (ht.step (hR.frame (checkRegisteredAsset_frame x.asset))).andThen fun _ t ht => ?_
  refine (ht.check hR (checkSourceAsset_enforces x.asset x.source x.price)).andThen
    fun _ t ht => ?_
  obtain ⟨ht,hallowed⟩ := ht
  refine (ht.check hR (checkNotSuspended_enforces x.asset x.source x.price _)).andThen
    fun _ t ht => ?_
  obtain ⟨ht,hsuspended⟩ := ht
  refine ((ht.step (hR.frame checkPositive_frame)).and (checkPositive_sat t)).andThen
    fun _ t ht => ?_
  obtain ⟨ht,hpos⟩ := ht
  refine (ht.check hR (checkMinPrice_enforces x.source hpos)).andThen fun _ t ht => ?_
  obtain ⟨ht,hmin⟩ := ht
  refine (ht.step (hR.frame (checkTimestamp_frame x.timestamp))).andThen fun _ t ht => ?_
  refine unlessTripped_run x.source x.price ht fun htripped => ?_
  have hgates : ∀ g ∈ relayedGates,
      g.passes w.env w.store ⟨x.asset,x.source,x.price⟩ = true := by
    simp [relayedGates,hpaused,hallowed,hsuspended,hmin,htripped]
  refine (storeSubmission_run hx hgates ht x.timestamp none).andThen fun _ t ht => ?_
  refine (ht.step (hR.frame (recordSuccessfulSubmission_frame x.source))).andThen fun _ t ht => ?_
  refine (ht.step (doAggregate_preserves hR.rounds x.asset)).andThen fun _ t ht => ?_
  exact ht.step (hR.frame (accrueRelayerSubmissionMetrics_frame relayer x.priorityFee))

omit [Std.Refl R] [IsTrans World R] hR in
theorem Reached.unsigned (ht : Reached R w callers t) : Reached R w [] t :=
  ⟨ht.within,List.nil_subset _⟩

theorem submitPriceRelayed_run (relayer : Address)
    (hx : Admits R w [] relayedGates ⟨asset,source,price⟩) (timestamp : Nat) :
    Sat (submitPriceRelayed relayer source asset price timestamp) w
      fun _ u => Reached R w [] u := by
  have ht : Reached R w [] w := Reached.refl w
  refine (ht.check hR (checkNotPaused_enforces ⟨asset,source,price⟩)).andThen fun _ t ht => ?_
  obtain ⟨ht,hpaused⟩ := ht
  refine (ht.requireAuth hR relayer).andThen fun _ t ht => ?_
  refine (ht.requireAuth hR source).andThen fun _ t ht => ?_
  exact processRelayedLeg_run hR (x := ⟨source,asset,price,timestamp,0⟩) relayer hx
    (hpaused _ (by simp)) ht.unsigned

theorem submitPricesRelayed_run (relayer : Address) {xs : List RelayedSubmission}
    (hxs : ∀ x ∈ xs, Admits R w [] relayedGates ⟨x.asset,x.source,x.price⟩) :
    Sat (submitPricesRelayed relayer xs) w fun _ u => Reached R w [] u := by
  have ht : Reached R w [] w := Reached.refl w
  unfold submitPricesRelayed
  rw [sat_bind,sat_ensure]
  intro _
  refine (ht.check hR (checkNotPaused_enforces ⟨0,0,0⟩)).andThen fun _ t ht => ?_
  obtain ⟨ht,hpaused⟩ := ht
  refine (ht.requireAuth hR relayer).andThen fun _ t ht => ?_
  simp only [sat_bind,sat_ensure]
  intro _ _ _
  refine sat_forM (I := Reached R w []) (fun x hx t ht => ?_) ht.unsigned
  refine (ht.requireAuth hR x.source).andThen fun _ t ht => ?_
  exact processRelayedLeg_run hR relayer (hxs x hx) (hpaused .contractPaused (by simp)) ht.unsigned

/-- A bridged price passes the gates of a relayed one. -/
theorem applyBridgedPrice_run (hx : Admits R w [] relayedGates ⟨asset,source,price⟩)
    (timestamp : Nat) :
    Sat (applyBridgedPrice source asset price timestamp) w fun _ u => Reached R w [] u := by
  have ht : Reached R w [] w := Reached.refl w
  refine (ht.check hR (checkNotPaused_enforces ⟨asset,source,price⟩)).andThen fun _ t ht => ?_
  obtain ⟨ht,hpaused⟩ := ht
  refine (ht.step (hR.frame (checkSource_frame source))).andThen fun _ t ht => ?_
  refine (ht.step (hR.frame (checkRegisteredAsset_frame asset))).andThen fun _ t ht => ?_
  refine (ht.check hR (checkSourceAsset_enforces asset source price)).andThen fun _ t ht => ?_
  obtain ⟨ht,hallowed⟩ := ht
  refine (ht.check hR (checkNotSuspended_enforces asset source price _)).andThen fun _ t ht => ?_
  obtain ⟨ht,hsuspended⟩ := ht
  refine ((ht.step (hR.frame checkPositive_frame)).and (checkPositive_sat t)).andThen
    fun _ t ht => ?_
  obtain ⟨ht,hpos⟩ := ht
  refine (ht.check hR (checkMinPrice_enforces source hpos)).andThen fun _ t ht => ?_
  obtain ⟨ht,hmin⟩ := ht
  refine (ht.step (hR.frame (checkTimestamp_frame timestamp))).andThen fun _ t ht => ?_
  refine unlessTripped_run source price ht fun htripped => ?_
  have hreference : Frame bookkeeping (recordReferencePrice asset price) :=
    (checkRegisteredAsset_frame asset).bind fun _ => preserves_ensure _ _
  refine (ht.step (hR.frame hreference)).andThen fun _ t ht => ?_
  have hgates : ∀ g ∈ relayedGates, g.passes w.env w.store ⟨asset,source,price⟩ = true := by
    simp [relayedGates,hpaused,hallowed,hsuspended,hmin,htripped]
  refine (storeSubmission_run hx hgates ht timestamp none).andThen fun _ t ht => ?_
  refine (ht.step (hR.frame (recordSuccessfulSubmission_frame source))).andThen fun _ t ht => ?_
  refine (ht.step (recordSubmissionForTriggers_preserves hR.rounds asset price)).andThen
    fun _ t ht => ?_
  exact ht.step (doAggregate_preserves hR.rounds asset)

/-- The gates of the fee market and of attested prices: not even a paused contract stops them. -/
def feeMarketGates : List Gate := [.sourceAsset, .tripped]

omit [Std.Refl R] in
theorem submitPriceInternal_run (hx : Admits R w callers feeMarketGates ⟨asset,source,price⟩)
    (timestamp : Nat) (ht : Reached R w callers t) :
    Sat (submitPriceInternal source asset price timestamp) t fun _ u => Reached R w callers u := by
  refine (ht.step (hR.frame (checkSource_frame source))).andThen fun _ t ht => ?_
  refine (ht.step (hR.frame (checkRegisteredAsset_frame asset))).andThen fun _ t ht => ?_
  refine (ht.check hR (checkSourceAsset_enforces asset source price)).andThen fun _ t ht => ?_
  obtain ⟨ht,hallowed⟩ := ht
  refine (ht.step (hR.frame enforceCommitRevealForBft_frame)).andThen fun _ t ht => ?_
  rw [sat_bind,sat_ensure]
  intro _
  refine unlessTripped_run source price ht fun htripped => ?_
  have hgates : ∀ g ∈ feeMarketGates, g.passes w.env w.store ⟨asset,source,price⟩ = true :=
    List.forall_mem_cons.2 ⟨hallowed _ (by simp),List.forall_mem_singleton.2 htripped⟩
  refine (storeSubmission_run hx hgates ht timestamp none).andThen fun _ t ht => ?_
  refine (ht.step (hR.frame (recordSuccessfulSubmission_frame source))).andThen fun _ t ht => ?_
  exact ht.step (aggregateAfterSubmission_preserves hR asset)

/-- What an attested price goes through before it is treated like one of the fee market. -/
theorem zkSubmitPrice_run (proof : Groth16Proof) {publicSignals : List (BytesN 32)} (hxs : ∀ x ∈ ZkVerify.attested publicSignals,
      Admits R w [] feeMarketGates ⟨asset,source,x.1⟩) :
    Sat (zkSubmitPrice source asset proof publicSignals) w fun _ u => Reached R w [] u := by
  have ht : Reached R w [] w := Reached.refl w
  unfold zkSubmitPrice
  rw [sat_bind,sat_ensure]
  intro _
  refine (ht.requireAuth hR source).andThen fun _ t ht => ?_
  rw [sat_bind,sat_readStore,sat_bind,sat_ensure]
  intro _
  refine (ht.step (hR.frame (checkRegisteredAsset_frame asset))).andThen fun _ t ht => ?_
  rw [sat_bind,sat_consult]
  intro vk _
  rw [sat_bind,sat_readStore,sat_bind,sat_ensure]
  intro _
  refine (sat_lookup (o := ZkVerify.attested publicSignals) ?_).andThen fun x _ hx => ?_
  · cases ZkVerify.attested publicSignals <;> rfl
  obtain ⟨hx,rfl⟩ := hx
  rw [sat_bind,sat_ensure]
  intro _
  exact submitPriceInternal_run hR (hxs x hx) x.2 ht.unsigned

theorem processFeeMarket_run
    (hxs : ∀ x ∈ w.store.feeMarket.pending.take maxProcessPerLedger,
      Admits R w [] feeMarketGates ⟨x.asset,x.source,x.price⟩) :
    Sat processFeeMarket w fun _ u => Reached R w [] u := by
  unfold processFeeMarket
  rw [sat_bind,sat_readStore]
  refine Sat.andThen (sat_forM (I := Reached R w []) (fun x hx t ht => ?_) (Reached.refl w))
    fun _ t ht => ht.step (hR.frame ((modifyFeeMarket_frame _).mono (by decide)))
  refine (submitPriceInternal_run hR (hxs x hx) x.timestamp ht).andThen fun _ t ht => ?_
  exact ht.step (hR.frame (distributeFee_frame x.source x.priorityFee))

end Paths

/-- A submission that a source signs itself. -/
inductive SourceCall
  | submitPrice (asset : Address) (price : Int) (timestamp nonce : Nat)
  | submitPrices (assetPrices : List BatchEntry)
  | submitPriceWithVolume (asset : Address) (price : Int) (timestamp : Nat) (volume : Option Int)
  | revealPrice (asset : Address) (price : Int) (salt : Bytes) (roundLedger : Nat)
  | revealPricesBatch (reveals : List Reveal)
  | submitPriceMerkle (root : Bytes) (proofs : List MerkleProof)

namespace SourceCall

variable (source : Address)

def body : SourceCall → Contract Unit
  | submitPrice asset price timestamp nonce =>
    Model.submitPrice source asset price timestamp nonce
  | submitPrices assetPrices => Model.submitPrices source assetPrices
  | submitPriceWithVolume asset price timestamp volume =>
    Model.submitPriceWithVolume source asset price timestamp volume
  | revealPrice asset price salt roundLedger =>
    Model.revealPrice source asset price salt roundLedger
  | revealPricesBatch reveals => Model.revealPricesBatch source reveals
  | submitPriceMerkle root proofs => Model.submitPriceMerkle source root proofs

/-- The prices a call wants to store. -/
def legs : SourceCall → List Leg
  | submitPrice asset price _ _ => [⟨asset, source, price⟩]
  | submitPrices assetPrices => assetPrices.map fun x => ⟨x.1, source, x.2.1⟩
  | submitPriceWithVolume asset price _ _ => [⟨asset, source, price⟩]
  | revealPrice asset price _ _ => [⟨asset, source, price⟩]
  | revealPricesBatch reveals => reveals.map fun x => ⟨x.asset, source, x.price⟩
  | submitPriceMerkle _ proofs =>
    proofs.map fun p => ⟨p.leaf.asset, p.leaf.source, p.leaf.price⟩

/-- The gates the path of a call enforces. -/
def gates : SourceCall → List Gate
  | submitPrice .. => Gate.all
  | submitPrices _ => batchGates
  | submitPriceWithVolume .. => Gate.all
  | revealPrice .. => revealGates
  | revealPricesBatch _ => batchRevealGates
  | submitPriceMerkle .. => merkleGates

end SourceCall

/-- The calls that store submissions. -/
inductive SubmissionCall
  | bySource (source : Address) (call : SourceCall)
  | submitPriceWithProof (source asset : Address) (price : Int)
      (timestamp nonce expirationLedger : Nat) (signature : Bytes)
  | submitPriceRelayed (relayer source asset : Address) (price : Int) (timestamp : Nat)
  | submitPricesRelayed (relayer : Address) (submissions : List RelayedSubmission)
  | processFeeMarket
  | zkSubmitPrice (source asset : Address) (proof : Groth16Proof)
      (publicSignals : List (BytesN 32))

namespace SubmissionCall

def body : SubmissionCall → Contract Unit
  | bySource source call => call.body source
  | submitPriceWithProof source asset price timestamp nonce expirationLedger signature =>
    Model.submitPriceWithProof source asset price timestamp nonce expirationLedger signature
  | submitPriceRelayed relayer source asset price timestamp =>
    Model.submitPriceRelayed relayer source asset price timestamp
  | submitPricesRelayed relayer submissions => Model.submitPricesRelayed relayer submissions
  | processFeeMarket => Model.processFeeMarket
  | zkSubmitPrice source asset proof publicSignals =>
    Model.zkSubmitPrice source asset proof publicSignals

/-- The prices a call wants to store; the fee market takes them from its queue. -/
def legs (st : Store) : SubmissionCall → List Leg
  | bySource source call => call.legs source
  | submitPriceWithProof source asset price .. => [⟨asset, source, price⟩]
  | submitPriceRelayed _ source asset price _ => [⟨asset, source, price⟩]
  | submitPricesRelayed _ submissions => submissions.map fun x => ⟨x.asset, x.source, x.price⟩
  | processFeeMarket =>
    (st.feeMarket.pending.take maxProcessPerLedger).map fun x => ⟨x.asset, x.source, x.price⟩
  | zkSubmitPrice source asset _ publicSignals =>
    (ZkVerify.attested publicSignals).toList.map fun x => ⟨asset, source, x.1⟩

def gates : SubmissionCall → List Gate
  | bySource _ call => call.gates
  | submitPriceWithProof .. => proofGates
  | submitPriceRelayed .. => relayedGates
  | submitPricesRelayed .. => relayedGates
  | processFeeMarket => feeMarketGates
  | zkSubmitPrice .. => feeMarketGates

end SubmissionCall

section Calls

variable {R : World → World → Prop} [Std.Refl R] [IsTrans World R] (hR : RespectsSubmissions R)
  {w : World}

include hR

/-- A call stores its own legs, each only after its path's gates and the source's signature. -/
theorem SourceCall.body_run (source : Address) (call : SourceCall)
    (hlegs : ∀ x ∈ call.legs source, Admits R w [source] call.gates x) :
    Sat (call.body source) w fun _ u => Reached R w [source] u := by
  cases call with
  | submitPrice asset price timestamp nonce =>
    exact submitPrice_run hR (hlegs _ (by simp [SourceCall.legs])) timestamp nonce
  | submitPrices assetPrices => exact submitPrices_run hR (List.forall_mem_map.1 hlegs)
  | submitPriceWithVolume asset price timestamp volume =>
    exact submitPriceWithVolume_run hR (hlegs _ (by simp [SourceCall.legs])) timestamp volume
  | revealPrice asset price salt roundLedger =>
    exact revealPrice_run hR (hlegs _ (by simp [SourceCall.legs])) salt roundLedger
  | revealPricesBatch reveals => exact revealPricesBatch_run hR (List.forall_mem_map.1 hlegs)
  | submitPriceMerkle root proofs =>
    exact submitPriceMerkle_run hR root (List.forall_mem_map.1 hlegs)

omit [Std.Refl R] [IsTrans World R] hR in
theorem Admits.signed {callers : List Address} {gates : List Gate} {x : Leg}
    (h : Admits R w [] gates x) : Admits R w callers gates x :=
  fun t entry hframe _ => h t entry hframe (List.nil_subset _)

theorem SubmissionCall.body_run (call : SubmissionCall)
    (hlegs : ∀ x ∈ call.legs w.store, Admits R w [] call.gates x) :
    Sat call.body w fun _ u => Within R w u := by
  have hrun : ∃ callers, Sat call.body w fun _ u => Reached R w callers u := by
    cases call with
    | bySource source call =>
      exact ⟨_,call.body_run hR source fun x hx => (hlegs x hx).signed⟩
    | submitPriceWithProof source asset price timestamp nonce expirationLedger signature =>
      exact ⟨_,submitPriceWithProof_run hR (hlegs _ (by simp [SubmissionCall.legs])) timestamp
        nonce expirationLedger signature⟩
    | submitPriceRelayed relayer source asset price timestamp =>
      exact ⟨_,submitPriceRelayed_run hR relayer (hlegs _ (by simp [SubmissionCall.legs]))
        timestamp⟩
    | submitPricesRelayed relayer submissions =>
      exact ⟨_,submitPricesRelayed_run hR relayer (List.forall_mem_map.1 hlegs)⟩
    | processFeeMarket => exact ⟨_,processFeeMarket_run hR (List.forall_mem_map.1 hlegs)⟩
    | zkSubmitPrice source asset proof publicSignals =>
      refine ⟨_,zkSubmitPrice_run hR proof fun x hx => hlegs _ ?_⟩
      exact List.mem_map_of_mem (Option.mem_toList.2 hx)
  obtain ⟨callers,hrun⟩ := hrun
  exact hrun.mono fun _ _ hu => hu.within

omit [Std.Refl R] [IsTrans World R] hR in
/-- What a submission does not touch it leaves as it was, whatever the gates say. -/
theorem SubmissionCall.body_frame (call : SubmissionCall) : Frame touched call.body := by
  intro w
  have hsub : bookkeeping ⊆ touched := by decide
  have htouched : RespectsSubmissions (layout.agreeOff touched) :=
    { books := fun _ _ h r hr => h r fun hbook => hr (hsub hbook)
      auth := fun a => (requireAuth_frame a).mono (by decide)
      commit := fun asset decimals recompute d w _ =>
        (commitRound_frame asset w.env.sequence decimals recompute d).mono (by decide) w }
  refine (call.body_run htouched fun x _ t entry _ _ _ _ => ?_).mono fun _ _ hu => hu.frame
  exact ((writeSubmission_frame x.asset x.source entry).mono (by decide)) t

end Calls

end PriceOracle.Submissions
