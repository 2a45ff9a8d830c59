import PriceOracle.Aggregation.Rounds
import PriceOracle.Model.Submissions

/-! # The acceptance gates

Nine gates decide whether a price should be accepted. A check enforces some of them, and checks in
sequence enforce the gates of both; what each check of the submission paths enforces is read off
here once. -/

namespace PriceOracle.Submissions

open Lib.Transaction Model Aggregation

/-- One price a call wants to store. -/
structure Leg where
  asset : Address
  source : Address
  price : Int
deriving DecidableEq

/-- The acceptance gates. -/
inductive Gate
  | contractPaused | frozen | disabled | assetPaused | tripped | sourceAsset | suspended
  | minPrice | maxPrice
deriving DecidableEq

def Gate.passes (env : Env) (st : Store) (x : Leg) : Gate → Bool
  | .contractPaused => !st.isPaused
  | .frozen => !st.isPriceFrozen x.asset
  | .disabled => !st.isAssetDisabled x.asset
  | .assetPaused => !st.isAssetPaused x.asset
  | .tripped => !st.isCircuitBreakerTripped x.asset
  | .sourceAsset => st.sourceAllowed x.source x.asset
  | .suspended => !st.suspended env x.source
  | .minPrice => (st.priceBoundsOf x.asset).minPrice ≤ x.price
  | .maxPrice => x.price ≤ (st.priceBoundsOf x.asset).maxPrice

def Gate.all : List Gate :=
  [.contractPaused, .disabled, .frozen, .sourceAsset, .suspended, .minPrice, .maxPrice,
    .assetPaused, .tripped]

def Accepts (env : Env) (st : Store) (x : Leg) : Prop := ∀ g : Gate, g.passes env st x = true

def touched : List Region :=
  [.auths, .stats, .submissions, .aggregates, .rounds, .history, .provenance, .corrections,
    .relayers, .feeMarket]

/-- The regions it writes beside submissions, authorizations and rounds. -/
def bookkeeping : List Region := [.rounds, .stats, .relayers, .feeMarket]

theorem moveSubmissions_frame (source newAddress : Address) :
    Frame [.submissions] (moveSubmissions source newAddress) := by
  refine .read fun assets => preserves_forM fun asset _ => .read fun stored => ?_
  cases stored with
  | none => exact preserves_pure _
  | some entry =>
    refine Preserves.bind (preserves_update fun w r hr => ?_) fun _ => writeSubmission_frame _ _ _
    cases r <;> first | rfl | simp at hr

/-- The gates read nothing a submission path writes. -/
theorem passes_congr {w w' : World} (h : layout.agreeOff touched w w') (x : Leg) (g : Gate) :
    g.passes w'.env w'.store x = g.passes w.env w.store x := by
  have hflags : w'.store.flags = w.store.flags := h .flags (by decide)
  have hgates : w'.store.gates = w.store.gates := h .gates (by decide)
  have hsuspended : w'.store.suspended w'.env = w.store.suspended w.env := h .suspension (by decide)
  have hbounds : w'.store.priceBoundsOf x.asset = w.store.priceBoundsOf x.asset := by
    rw [Store.priceBoundsOf,Store.priceBoundsOf,hgates]
  have hallowed : w'.store.sourceAllowed = w.store.sourceAllowed := by
    unfold Store.sourceAllowed Store.on
    rw [hflags,hgates]
  cases g with
  | sourceAsset => rw [Gate.passes,Gate.passes,hallowed]
  | minPrice => rw [Gate.passes,Gate.passes,hbounds]
  | maxPrice => rw [Gate.passes,Gate.passes,hbounds]
  | _ => simp only [Gate.passes,Store.isPaused,Store.isPriceFrozen,Store.isAssetDisabled,
      Store.isAssetPaused,Store.isCircuitBreakerTripped,Store.on,hflags,
      hgates,hsuspended]

/-- A check that leaves only bookkeeping behind and lets a price through only if `gates` do. -/
structure Enforces {α : Type} (m : Contract α) (x : Leg) (gates : List Gate) : Prop where
  frame : Frame bookkeeping m
  passes : ∀ t, Sat m t fun _ _ => ∀ g ∈ gates, g.passes t.env t.store x = true

section Checks

variable {α β : Type} {m : Contract α} {f : α → Contract β} {x : Leg} {gs gs' : List Gate}

theorem Enforces.of_frame (h : Frame bookkeeping m) : Enforces m x [] where
  frame := h
  passes _ := by
    intro _ _ _ g hg
    cases hg

theorem Enforces.mono (h : Enforces m x gs) (hsub : gs' ⊆ gs) : Enforces m x gs' where
  frame := h.frame
  passes t := (h.passes t).mono fun _ _ hall g hg => hall g (hsub hg)

/-- Checks in sequence; the second may use a fact the first establishes. -/
theorem Enforces.bind {P : Prop} (hm : Enforces m x gs) (hP : ∀ t, Sat m t fun _ _ => P)
    (hf : P → ∀ a, Enforces (f a) x gs') : Enforces (m >>= f) x (gs ++ gs') where
  frame t := by
    rw [sat_bind]
    refine ((hm.frame t).and (hP t)).mono fun a u hu => ?_
    exact ((hf hu.2 a).frame u).mono fun _ v huv => IsTrans.trans t u v hu.1 huv
  passes t := by
    rw [sat_bind]
    refine (((hm.frame t).and (hP t)).and (hm.passes t)).mono fun a u hu => ?_
    refine ((hf hu.1.2 a).passes u).mono fun _ _ hall g hg => ?_
    have htouched : layout.agreeOff touched t u := fun r hr =>
      hu.1.1 r fun hb => hr (by revert hb; cases r <;> decide)
    rcases List.mem_append.1 hg with hg | hg
    · exact hu.2 g hg
    · rw [← passes_congr htouched x g]
      exact hall g hg

theorem Enforces.andThen (hm : Enforces m x gs) (hf : ∀ a, Enforces (f a) x gs') :
    Enforces (m >>= f) x (gs ++ gs') :=
  hm.bind (P := True) (fun _ _ _ _ => trivial) fun _ => hf

theorem Enforces.of_ensure {v : Env → Store → Bool} {b : Bool} {e : ErrorCode} {g : Gate}
    (h : ∀ env st, v env st = b → g.passes env st x = true) :
    Enforces (do let y ← readStore v; ensure (y = b) e) x [g] where
  frame := .read fun _ => preserves_ensure _ _
  passes t := by
    simp only [sat_bind,sat_readStore,sat_ensure,List.forall_mem_singleton]
    exact h t.env t.store

theorem rejectInvalid_sat (source : Address) (e : ErrorCode) (t : World) (Q : Unit → World → Prop) :
    Sat (rejectInvalid source e) t Q := by
  unfold rejectInvalid
  rw [sat_bind]
  intro _ _ _
  exact sat_abort e

end Checks

section Gates

variable (asset source : Address) (price : Int) {T : List Region} (timestamp : Nat) (t : World)

theorem checkNotPaused_enforces (x : Leg) : Enforces checkNotPaused x [.contractPaused] :=
  Enforces.of_ensure fun _ _ h => by simp [Gate.passes,h]

theorem checkNotDisabled_enforces :
    Enforces (checkNotDisabled asset) ⟨asset,source,price⟩ [.disabled] :=
  Enforces.of_ensure fun _ _ h => by simp [Gate.passes,h]

theorem checkNotFrozen_enforces :
    Enforces (checkNotFrozen asset) ⟨asset,source,price⟩ [.frozen] :=
  Enforces.of_ensure fun _ _ h => by simp [Gate.passes,h]

theorem checkSourceAsset_enforces :
    Enforces (checkSourceAsset source asset) ⟨asset,source,price⟩ [.sourceAsset] :=
  Enforces.of_ensure fun _ _ h => h

theorem checkNotSuspended_enforces (e : ErrorCode) :
    Enforces (checkNotSuspended source e) ⟨asset,source,price⟩ [.suspended] where
  frame := (isSourceSuspended_frame source).bind fun _ => preserves_ensure _ _
  passes t := by
    unfold checkNotSuspended
    rw [sat_bind]
    refine (isSourceSuspended_sat source t).mono fun b u hb => ?_
    rw [sat_ensure,List.forall_mem_singleton]
    intro hfalse
    rw [hb] at hfalse
    simp [Gate.passes,hfalse]

variable {asset source price}

theorem getPriceBounds_sat :
    Sat (getPriceBounds asset) t fun b _ => b = t.store.priceBoundsOf asset := by
  unfold getPriceBounds
  rw [sat_bind]
  refine (checkRegisteredAsset_frame (T := []) asset t).mono fun _ u htu => ?_
  have hgates : u.store.gates = t.store.gates := htu .gates (by simp)
  rw [sat_readStore,Store.priceBoundsOf,Store.priceBoundsOf,hgates]

theorem getMinPrice_sat : Sat (getMinPrice asset) t fun p _ => p = t.store.minPriceOf asset := by
  unfold getMinPrice
  rw [sat_bind]
  refine (checkRegisteredAsset_frame (T := []) asset t).mono fun _ u htu => ?_
  rw [sat_bind]
  refine (getPriceBounds_frame (T := []) asset u).mono fun _ v huv => ?_
  have hgates : v.store.gates = t.store.gates :=
    (huv .gates (by simp)).trans (htu .gates (by simp))
  rw [sat_readStore]
  unfold Store.minPriceOf Store.priceBoundsOf
  rw [hgates]

/-- A positive price above the configured minimum is above the lower bound. -/
theorem checkMinPrice_enforces (source : Address) (hpos : 0 < price) :
    Enforces (checkMinPrice asset price) ⟨asset,source,price⟩ [.minPrice] where
  frame := (getMinPrice_frame asset).bind fun _ => preserves_ensure _ _
  passes t := by
    unfold checkMinPrice
    rw [sat_bind]
    refine (getMinPrice_sat t).mono fun minPrice _ hmin => ?_
    rw [sat_ensure,List.forall_mem_singleton]
    intro hle
    simp only [hmin,Store.minPriceOf] at hle
    simp only [Gate.passes,decide_eq_true_eq]
    split_ifs at hle with hb
    · exact hle
    · exact (not_lt.1 hb).trans hpos.le

theorem checkPositive_sat : Sat (checkPositive source price) t fun _ _ => 0 < price := by
  unfold checkPositive
  split_ifs with h
  · exact rejectInvalid_sat source _ t _
  · exact (sat_pure _).2 (not_le.1 h)

theorem checkPositive_frame : Frame T (checkPositive source price) := by
  unfold checkPositive
  split_ifs
  · exact fun t => rejectInvalid_sat source _ t _
  · exact preserves_pure _

theorem checkTimestamp_frame : Frame T (checkTimestamp source timestamp) := by
  refine .read fun late => ?_
  split_ifs
  · exact fun t => rejectInvalid_sat source _ t _
  · exact preserves_pure _

theorem checkOrder_frame : Frame T (checkOrder asset source timestamp) :=
  .read fun _ => preserves_ensure _ _

theorem buildCandidateAggregate_frame (timestamp decimals : Nat) :
    Frame T (buildCandidateAggregate asset source price timestamp decimals) := by
  refine (effectivePolicy_frame asset).bind fun policy => .read fun entries => ?_
  split_ifs
  · exact (aggregatePrices_frame asset _ _).bind fun _ => preserves_pure _
  · exact preserves_pure _

theorem checkChange_frame (timestamp decimals limit : Nat) :
    Frame T (checkChange asset source price timestamp decimals limit) := by
  refine .read fun prevPrice => ?_
  split_ifs
  · refine (buildCandidateAggregate_frame timestamp decimals).bind fun candidate => ?_
    cases candidate with
    | none => exact preserves_pure _
    | some c =>
      dsimp only
      split_ifs
      · intro t
        rw [sat_bind]
        intro _ _ _
        exact sat_abort _
      · exact preserves_pure _
  · exact preserves_pure _

theorem validatePriceSubmission_enforces (timestamp decimals : Nat) :
    Enforces (validatePriceSubmission asset source price timestamp decimals)
      ⟨asset,source,price⟩ [.minPrice,.maxPrice,.assetPaused,.tripped] where
  frame := by
    refine (getPriceBounds_frame asset).bind fun bounds => .check fun _ => .read fun halted =>
      .check fun _ => ?_
    split_ifs
    · exact checkChange_frame timestamp decimals _
    · exact preserves_pure _
  passes t := by
    unfold validatePriceSubmission
    rw [sat_bind]
    refine ((getPriceBounds_sat t).and (getPriceBounds_frame (T := []) asset t)).mono
      fun bounds u hu => ?_
    obtain ⟨rfl,htu⟩ := hu
    have hgates : u.store.gates = t.store.gates := htu .gates (by simp)
    simp only [sat_bind,sat_ensure,sat_readStore,Bool.or_eq_false_iff]
    rintro ⟨hmin,hmax⟩ ⟨hpaused,htripped⟩ _ _ _
    unfold Store.isAssetPaused at hpaused
    unfold Store.isCircuitBreakerTripped at htripped
    rw [hgates] at hpaused htripped
    simp [Gate.passes,Store.isAssetPaused,Store.isCircuitBreakerTripped,hmin,hmax,hpaused,htripped]

theorem checkSubmission_enforces :
    Enforces (checkSubmission asset source price timestamp) ⟨asset,source,price⟩
      [.minPrice,.maxPrice,.assetPaused,.tripped] :=
  ((Enforces.of_frame (readStore_frame _)).andThen fun decimals =>
    (validatePriceSubmission_enforces timestamp decimals).andThen fun _ =>
      Enforces.of_frame (checkTimestamp_frame timestamp)).mono (by simp)

theorem checkDirect_enforces (asset source : Address) (price : Int) :
    Enforces (checkDirect source asset) ⟨asset,source,price⟩
      [.disabled,.frozen,.sourceAsset,.suspended] :=
  ((Enforces.of_frame (checkRegisteredAsset_frame asset)).andThen fun _ =>
    (checkNotDisabled_enforces asset source price).andThen fun _ =>
    (checkNotFrozen_enforces asset source price).andThen fun _ =>
    (checkSourceAsset_enforces asset source price).andThen fun _ =>
    (Enforces.of_frame enforceCommitRevealForBft_frame).andThen fun _ =>
    checkNotSuspended_enforces asset source price _).mono (by simp)

theorem direct_gates {env : Env} {st : Store} {x : Leg}
    (hpaused : Gate.contractPaused.passes env st x = true)
    (hdirect : ∀ g ∈ [Gate.disabled,.frozen,.sourceAsset,.suspended],
      g.passes env st x = true)
    (hsubmission : ∀ g ∈ [Gate.minPrice,.maxPrice,.assetPaused,.tripped],
      g.passes env st x = true) :
    ∀ g ∈ Gate.all, g.passes env st x = true :=
  List.forall_mem_cons.2 ⟨hpaused,List.forall_mem_append.2 ⟨hdirect,hsubmission⟩⟩

theorem checkBatchEntry_enforces (x : BatchEntry) :
    Enforces (checkBatchEntry source x) ⟨x.1,source,x.2.1⟩
      [.frozen,.sourceAsset,.minPrice,.maxPrice,.assetPaused,.tripped] :=
  ((Enforces.of_frame (checkRegisteredAsset_frame x.1)).andThen fun _ =>
    (checkNotFrozen_enforces x.1 source x.2.1).andThen fun _ =>
    (checkSourceAsset_enforces x.1 source x.2.1).andThen fun _ =>
    (Enforces.of_frame checkPositive_frame).andThen fun _ =>
    checkSubmission_enforces x.2.2).mono (by simp)

theorem checkProof_enforces (root : Bytes) (proof : MerkleProof) :
    Enforces (checkProof root proof) ⟨proof.leaf.asset,proof.leaf.source,proof.leaf.price⟩
      [.sourceAsset] :=
  ((Enforces.of_frame (readStore_frame _)).andThen fun _ =>
    (Enforces.of_frame (preserves_ensure _ _)).andThen fun _ =>
    (Enforces.of_frame (checkRegisteredAsset_frame _)).andThen fun _ =>
    (checkSourceAsset_enforces _ _ _).andThen fun _ =>
    Enforces.of_frame (.check fun _ => .read fun _ => preserves_ensure _ _)).mono (by simp)

end Gates

theorem asSource_sat {source : Address} {body : Contract Unit} {w : World} {Q : Unit → World → Prop}
    (hbody : ∀ t, layout.agreeOff [.auths] w t → Sat body t Q) :
    Sat (asSource source body) w Q := by
  have hw : layout.agreeOff [.auths] w w := Std.Refl.refl w
  refine (checkNotPaused_frame.from hw).andThen fun _ t ht => ?_
  refine ((requireAuth_frame source).from ht).andThen fun _ t ht => ?_
  exact ((checkSource_frame source).from ht).andThen fun _ t ht => hbody t ht

end PriceOracle.Submissions
