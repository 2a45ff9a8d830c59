import PriceOracle.Lib.Run
import PriceOracle.Model.Invocation
import PriceOracle.Model.StorageTier

/-! # Lowering a storage tier

The history of an asset leaves the persistent tier only on a request that was made while it was
there and that others than its proposer approved, after the delay. The delay runs from the approval
that completes the quorum as long as nobody approves the request again. -/

namespace PriceOracle.Archive

open Model Lib.Transaction Lib.MachineInt Lib.Run

inductive TierCall
  | set (asset : Address) (tier : HistoryStorageTier)
  | propose (asset : Address)
  | approve (asset approver : Address)
  | execute (asset : Address)

def TierCall.body : TierCall → Contract Unit
  | set asset tier => setAssetStorageTier asset tier
  | propose asset => do
    let _ ← proposeStorageTierDowngrade asset
    pure ()
  | approve asset approver => approveStorageTierDowngrade asset approver
  | execute asset => executeStorageTierDowngrade asset

/-- A call, or a change elsewhere: it touches neither the tiers nor the requests. -/
inductive TierAct
  | call (call : TierCall)
  | elsewhere (rest : Store)

structure TierTx where
  env : Env
  act : TierAct

def execTier (st : Store) (t : TierTx) : Store :=
  match t.act with
  | .call call => invoke call.body t.env st
  | .elsewhere rest =>
    { rest with
      flags := Function.update rest.flags .storageTier (st.flags .storageTier)
      config := { rest.config with
        assetStorageTier := st.config.assetStorageTier
        assetStorageTierDowngrade := st.config.assetStorageTierDowngrade } }

def requestOf (st : Store) (asset : Address) : Option StorageTierDowngradeRequest :=
  st.config.assetStorageTierDowngrade asset

/-- The tier may only have been raised, and the request is the one it was. -/
def Kept (asset : Address) (st st' : Store) : Prop :=
  (st'.getAssetStorageTier asset = st.getAssetStorageTier asset ∨
    st'.getAssetStorageTier asset = .persistent) ∧ requestOf st' asset = requestOf st asset

/-- What the approval of a pending request checks. -/
structure Approvable (env : Env) (st : Store) (asset approver : Address)
    (req : StorageTierDowngradeRequest) : Prop where
  signed : env.authorized approver = true
  registered : st.isRegisteredAsset asset = true
  pending : requestOf st asset = some req
  other : approver ≠ req.proposedBy
  fresh : approver ∉ req.approvals

/-- The party that a step adds to the approvals of a request, if it does. -/
def approverOf (asset : Address) (x : Store × TierTx) : Option Address :=
  match x.2.act with
  | .call (.approve b approver) =>
    if b = asset ∧ failure (approveStorageTierDowngrade b approver) x.2.env x.1 = none then
      some approver
    else none
  | _ => none

/-- What one step does to the tier and the request of one asset. -/
inductive TierEffect (asset : Address) (st : Store) (t : TierTx) (st' : Store) : Prop
  | kept (hkept : Kept asset st st') (hparty : approverOf asset (st, t) = none)
  | lowered (req : StorageTierDowngradeRequest) (hreq : requestOf st asset = some req)
    (hready : req.readyAtLedger ≠ 0) (hmature : req.readyAtLedger ≤ t.env.sequence)
    (hreq' : requestOf st' asset = none) (hparty : approverOf asset (st, t) = none)
  | proposed (admin : Address) (hact : t.act = .call (.propose asset))
    (hadmin : st.config.admin = some admin) (hsigned : t.env.authorized admin = true)
    (hpersistent : st.getAssetStorageTier asset = .persistent) (hnone : requestOf st asset = none)
    (htier : st'.getAssetStorageTier asset = .persistent)
    (hreq' : requestOf st' asset = some ⟨admin, [], 0, .persistent⟩)
  | approved (approver : Address) (req : StorageTierDowngradeRequest)
    (hact : t.act = .call (.approve asset approver))
    (hchecks : Approvable t.env st asset approver req)
    (htier : st'.getAssetStorageTier asset = st.getAssetStorageTier asset)
    (hreq' : requestOf st' asset = some (req.approve approver t.env.sequence))
    (hparty : approverOf asset (st, t) = some approver)

section Effects

variable {asset other : Address} {w : World} {env : Env} {st : Store} {act : TierAct} {st' : Store}

theorem getAssetStorageTier_of_on (h : st.on .storageTier = true) :
    st.getAssetStorageTier asset = (st.config.assetStorageTier asset).getD .temporary :=
  if_pos h

theorem getAssetStorageTier_congr (hflag : st'.flags .storageTier = st.flags .storageTier)
    (htier : st'.config.assetStorageTier = st.config.assetStorageTier) :
    st'.getAssetStorageTier asset = st.getAssetStorageTier asset := by
  unfold Store.getAssetStorageTier Store.on
  rw [hflag,htier]

/-- The tier of `asset` is `new`; no other tier is lowered, and no request is touched. -/
def Switched (asset : Address) (new : HistoryStorageTier) (st st' : Store) : Prop :=
  st'.getAssetStorageTier asset = new ∧ (∀ a, a ≠ asset → Kept a st st') ∧
    ∀ a, requestOf st' a = requestOf st a

theorem switched_of_write {new : HistoryStorageTier} (hon : st'.on .storageTier = true)
    (htier : st'.config.assetStorageTier =
      Function.update st.config.assetStorageTier asset (some new))
    (hreq : ∀ a, requestOf st' a = requestOf st a) : Switched asset new st st' := by
  refine ⟨?_,fun a ha => ⟨?_,hreq a⟩,hreq⟩
  · rw [getAssetStorageTier_of_on hon,htier,Function.update_self,Option.getD_some]
  · rw [getAssetStorageTier_of_on hon,htier,Function.update_of_ne ha]
    unfold Store.getAssetStorageTier
    split_ifs with hold
    · exact .inl rfl
    · cases (st.config.assetStorageTier a).getD .temporary
      · exact .inl rfl
      · exact .inr rfl

theorem applyTierChange_sat (new : HistoryStorageTier) :
    Sat (applyTierChange asset new) w fun _ w' => Switched asset new w.store w'.store := by
  unfold applyTierChange writeTier mark writeLastChangeLedger modifyConfig
  simp only [sat_bind,sat_update,sat_getSequence]
  by_cases hon : w.store.on .storageTier = true
  · rw [if_pos hon]
    exact switched_of_write hon rfl fun _ => rfl
  · have hmarked : Function.update w.store.flags .storageTier true .storageTier = true :=
      Function.update_self ..
    rw [if_neg hon]
    exact switched_of_write hmarked rfl fun _ => rfl

theorem setRequest_sat (req : Option StorageTierDowngradeRequest) :
    Sat (setRequest asset req) w fun _ w' =>
      (∀ a, requestOf w'.store a = if a = asset then req else requestOf w.store a) ∧
      ∀ a, w'.store.getAssetStorageTier a = w.store.getAssetStorageTier a := by
  simp only [setRequest,modifyConfig,sat_update]
  exact ⟨fun a => Function.update_apply ..,fun a => rfl⟩

theorem maturedRequest_isSome (h : (w.store.maturedRequest asset w.env).isSome = true) :
    ∃ req, requestOf w.store asset = some req ∧ req.readyAtLedger ≠ 0 ∧
      req.readyAtLedger ≤ w.env.sequence := by
  unfold Store.maturedRequest at h
  unfold requestOf
  cases hpending : w.store.config.assetStorageTierDowngrade asset with
  | none => simp [hpending] at h
  | some req =>
    rw [hpending] at h
    exact ⟨req,rfl,by simpa using h⟩

theorem applyDowngrade_sat (tier : HistoryStorageTier) :
    Sat (applyDowngrade asset tier) w fun _ w' =>
      (∃ req, requestOf w.store asset = some req ∧ req.readyAtLedger ≠ 0 ∧
        req.readyAtLedger ≤ w.env.sequence) ∧
      requestOf w'.store asset = none ∧ ∀ a, a ≠ asset → Kept a w.store w'.store := by
  simp only [applyDowngrade,sat_bind,sat_readStore,sat_ensure]
  intro hmatured
  refine (applyTierChange_sat tier).mono ?_
  rintro _ u ⟨_,hother,_⟩
  refine (setRequest_sat none).mono ?_
  rintro _ v ⟨hreq,htier⟩
  refine ⟨maturedRequest_isSome hmatured,(hreq asset).trans (if_pos rfl),fun a ha => ?_⟩
  obtain ⟨htier',hreq'⟩ := hother a ha
  refine ⟨?_,(hreq a).trans ((if_neg ha).trans hreq')⟩
  rwa [htier a]

/-- What the check of the registration leaves of the tiers, the requests and the call. -/
structure Entered (env : Env) (st : Store) (w : World) : Prop where
  env : w.env = env
  config : w.store.config = st.config
  flags : w.store.flags = st.flags

theorem Entered.tier (h : Entered env st w) (a : Address) :
    w.store.getAssetStorageTier a = st.getAssetStorageTier a :=
  getAssetStorageTier_congr (by rw [h.flags]) (by rw [h.config])

theorem Entered.request (h : Entered env st w) (a : Address) :
    requestOf w.store a = requestOf st a := by
  unfold requestOf
  rw [h.config]

theorem Entered.kept (h : Entered env st w) (hkept : Kept asset w.store st') :
    Kept asset st st' := by
  obtain ⟨htier,hreq⟩ := hkept
  rw [h.tier] at htier
  exact ⟨htier,hreq.trans (h.request asset)⟩

theorem entered_of_agree (admin : Address)
    (h : layout.agreeOff [] ((World.enter env st).authorizedBy admin) w) : Entered env st w :=
  ⟨h .env (by simp),h .config (by simp),h .flags (by simp)⟩

theorem kept_refl : Kept asset st st := ⟨.inl rfl,rfl⟩

/-- A downgrade of any asset, as `set_asset_storage_tier` and `execute_storage_tier_downgrade` make
it. -/
theorem applyDowngrade_effect (h : Entered env st w)
    (hparty : approverOf asset (st,⟨env,act⟩) = none) (b : Address)
    (tier : HistoryStorageTier) : Sat (applyDowngrade b tier) w fun _ w' =>
      TierEffect asset st ⟨env,act⟩ w'.store := by
  refine (applyDowngrade_sat tier).mono ?_
  rintro _ u ⟨⟨req,hreq,hready,hmature⟩,hnone,hother⟩
  by_cases hb : asset = b
  · subst hb
    rw [h.request] at hreq
    rw [h.env] at hmature
    exact .lowered req hreq hready hmature hnone hparty
  · exact .kept (h.kept (hother asset hb)) hparty

theorem setAssetStorageTier_effect
    (hparty : approverOf asset (st,⟨env,act⟩) = none) (b : Address) (tier : HistoryStorageTier) :
    Sat (setAssetStorageTier b tier) (World.enter env st) fun _ w' =>
      TierEffect asset st ⟨env,act⟩ w'.store := by
  rw [setAssetStorageTier,sat_asAdmin]
  intro admin _ _
  rw [sat_bind]
  refine (checkRegisteredAsset_sat b _).mono ?_
  rintro _ u ⟨_,hagree⟩
  have hentered := entered_of_agree admin hagree
  simp only [sat_bind,sat_readStore]
  have hidle : TierEffect asset st ⟨env,act⟩ u.store :=
    .kept (hentered.kept kept_refl) hparty
  cases u.store.getAssetStorageTier b with
  | temporary =>
    cases tier with
    | temporary => exact (sat_pure _).2 hidle
    | persistent =>
      refine (applyTierChange_sat .persistent).mono ?_
      rintro _ v ⟨htier,hother,hreq⟩
      by_cases hb : asset = b
      · subst hb
        exact .kept (hentered.kept ⟨.inr htier,hreq asset⟩) hparty
      · exact .kept (hentered.kept (hother asset hb)) hparty
  | persistent =>
    cases tier with
    | temporary => exact applyDowngrade_effect hentered hparty b .temporary
    | persistent => exact (sat_pure _).2 hidle

theorem executeStorageTierDowngrade_effect
    (hparty : approverOf asset (st,⟨env,act⟩) = none) (b : Address) :
    Sat (executeStorageTierDowngrade b) (World.enter env st) fun _ w' =>
      TierEffect asset st ⟨env,act⟩ w'.store := by
  rw [executeStorageTierDowngrade,sat_asAdmin]
  intro admin _ _
  rw [sat_bind]
  refine (checkRegisteredAsset_sat b _).mono ?_
  rintro _ u ⟨_,hagree⟩
  exact applyDowngrade_effect (entered_of_agree admin hagree) hparty b .temporary

theorem proposeStorageTierDowngrade_effect (b : Address) :
    Sat (proposeStorageTierDowngrade b) (World.enter env st) fun _ w' =>
      TierEffect asset st ⟨env,.call (.propose b)⟩ w'.store := by
  simp only [proposeStorageTierDowngrade,getAdmin,sat_bind,sat_consult,sat_requireAuth]
  intro admin hadmin hsigned
  refine (checkRegisteredAsset_sat b _).mono ?_
  rintro _ u ⟨_,hagree⟩
  have hentered : Entered env st u := entered_of_agree admin hagree
  simp only [sat_readStore,sat_ensure]
  rintro ⟨hpersistent,hnone⟩
  refine (setRequest_sat _).mono ?_
  rintro _ v ⟨hreq,htier⟩
  simp only [sat_getSequence,sat_pure]
  by_cases hb : asset = b
  · subst hb
    have hcurrent := hentered.tier asset
    refine .proposed admin rfl (found_of_ok ?_ hadmin) hsigned (hcurrent.symm.trans hpersistent)
      ((hentered.request asset).symm.trans hnone) ((htier asset).trans hpersistent) ?_
    · dsimp only [authorizedBy_store,World.enter]
      cases st.config.admin <;> rfl
    · rw [hreq asset,if_pos rfl,hpersistent]
  · refine .kept (hentered.kept ⟨.inl (htier asset),?_⟩) rfl
    rw [hreq asset,if_neg hb]

theorem approveStorageTierDowngrade_sat (asset b approver : Address) :
    Sat (approveStorageTierDowngrade b approver) (World.enter env st) fun _ w' =>
      (asset ≠ b → Kept asset st w'.store) ∧
      (asset = b → ∃ req, Approvable env st asset approver req ∧
        w'.store.getAssetStorageTier asset = st.getAssetStorageTier asset ∧
        requestOf w'.store asset = some (req.approve approver env.sequence)) := by
  simp only [approveStorageTierDowngrade,sat_bind,sat_requireAuth]
  intro hsigned
  refine (checkRegisteredAsset_sat b _).mono ?_
  rintro _ u ⟨hregistered,hagree⟩
  have hentered : Entered env st u := entered_of_agree approver hagree
  simp only [sat_readStore]
  cases hpending : u.store.config.assetStorageTierDowngrade b with
  | none => exact sat_abort _
  | some req =>
    simp only [sat_bind,sat_ensure,sat_getSequence]
    intro hother hfresh
    refine (setRequest_sat _).mono ?_
    rintro _ v ⟨hreq,htier⟩
    refine ⟨fun hb => ?_,fun hb => ?_⟩
    · refine hentered.kept ⟨.inl (htier asset),?_⟩
      rw [hreq asset,if_neg hb]
    · subst hb
      refine ⟨req,⟨hsigned,hregistered,?_,hother,hfresh⟩,
        (htier asset).trans (hentered.tier asset),?_⟩
      · rw [← hentered.request asset]
        exact hpending
      · rw [hreq asset,if_pos rfl,hentered.env]

theorem approve_effect (asset : Address) (st : Store) (env : Env) (b approver : Address) :
    let t : TierTx := ⟨env,.call (.approve b approver)⟩
    TierEffect asset st t (execTier st t) := by
  intro t
  change TierEffect asset st t (invoke (approveStorageTierDowngrade b approver) env st)
  rcases invoke_cases (approveStorageTierDowngrade_sat asset b approver) with
    ⟨hfail,hstore,-⟩ | ⟨hok,w,⟨hkept,happroved⟩,hw,-⟩
  · rw [hstore]
    exact .kept kept_refl (if_neg fun h => hfail h.2)
  · rw [← hw]
    by_cases hb : asset = b
    · obtain ⟨req,hchecks,htier,hreq⟩ := happroved hb
      subst hb
      exact .approved approver req rfl hchecks htier hreq (if_pos ⟨rfl,hok⟩)
    · exact .kept (hkept hb) (if_neg fun h => hb h.1.symm)

theorem execTier_effect (asset : Address) (st : Store) (t : TierTx) :
    TierEffect asset st t (execTier st t) := by
  obtain ⟨env,act⟩ := t
  cases act with
  | elsewhere rest =>
    have hflag : Function.update rest.flags .storageTier (st.flags .storageTier) .storageTier =
        st.flags .storageTier := Function.update_self ..
    exact .kept ⟨.inl (getAssetStorageTier_congr hflag rfl),rfl⟩ rfl
  | call call =>
    cases call with
    | set b tier =>
      exact invoke_of_sat (.kept kept_refl rfl) (setAssetStorageTier_effect rfl b tier)
    | execute b =>
      exact invoke_of_sat (.kept kept_refl rfl) (executeStorageTierDowngrade_effect rfl b)
    | approve b approver => exact approve_effect asset st env b approver
    | propose b =>
      refine invoke_of_sat (.kept kept_refl rfl) ?_
      rw [TierCall.body,sat_bind]
      exact (proposeStorageTierDowngrade_effect b).mono fun _ _ h => (sat_pure _).2 h

end Effects

section History

variable {asset : Address} {past : List (Store × TierTx)} {st : Store} {t : TierTx}
  {mid : List (Store × TierTx)} {req : StorageTierDowngradeRequest} {st' : Store}

/-- The parties that the steps add to the approvals of a request. -/
def partiesOf (asset : Address) (xs : List (Store × TierTx)) : List Address :=
  xs.filterMap (approverOf asset)

theorem partiesOf_concat (xs : List (Store × TierTx)) (x : Store × TierTx) :
    partiesOf asset (xs ++ [x]) = partiesOf asset xs ++ (approverOf asset x).toList := by
  unfold partiesOf
  cases h : approverOf asset x <;> simp [h]

/-- The step is a request by `proposer` where none was pending. -/
def Proposes (asset : Address) (x : Store × TierTx) (proposer : Address) : Prop :=
  x.2.act = .call (.propose asset) ∧ x.1.config.admin = some proposer ∧
    x.2.env.authorized proposer = true ∧ requestOf x.1 asset = none

/-- The approval at `q`, after the steps `first` since the request, completes the quorum. -/
def QuorumAt (asset : Address) (first : List (Store × TierTx)) (q : Store × TierTx) : Prop :=
  (partiesOf asset first).length < tierDowngradeRequiredApprovals ∧
    tierDowngradeRequiredApprovals ≤ (partiesOf asset (first ++ [q])).length

def Persistent (asset : Address) (x : Store × TierTx) : Prop :=
  x.1.getAssetStorageTier asset = .persistent

def Lowers (asset : Address) (st : Store) (t : TierTx) : Prop :=
  st.getAssetStorageTier asset = .persistent ∧
    (execTier st t).getAssetStorageTier asset = .temporary

/-- A request was made at `p`, the asset has been persistent since, a quorum of distinct parties other
than the proposer was complete at `q`, and the full delay has passed from there. -/
def LoweredDuly (asset : Address) (past : List (Store × TierTx)) (t : TierTx) : Prop :=
  ∃ pre p first q last proposer, past = pre ++ p :: (first ++ q :: last) ∧
    Proposes asset p proposer ∧ (∀ y ∈ p :: (first ++ q :: last), Persistent asset y) ∧
    (partiesOf asset (first ++ [q])).Nodup ∧ proposer ∉ partiesOf asset (first ++ [q]) ∧
    QuorumAt asset first q ∧ q.2.env.sequence + tierDowngradeDelayLedgers ≤ t.env.sequence

/-- A request that waits for its delay waits no longer after the step. -/
def NotPostponed (asset : Address) (st : Store) (t : TierTx) : Prop :=
  ∀ req req', requestOf st asset = some req → req.readyAtLedger ≠ 0 →
    requestOf (execTier st t) asset = some req' → req'.readyAtLedger ≤ req.readyAtLedger

/-- An approval that passes its checks does not come in the last ledgers there are, and one that
comes after the quorum comes in the same ledger. -/
def Prompt (asset : Address) (st : Store) (t : TierTx) : Prop :=
  ∀ approver req, t.act = .call (.approve asset approver) →
    Approvable t.env st asset approver req →
      (req.approvals.length < tierDowngradeRequiredApprovals →
        t.env.sequence + tierDowngradeDelayLedgers ≤ u32Max) ∧
      (tierDowngradeRequiredApprovals ≤ req.approvals.length →
        satAdd32 t.env.sequence tierDowngradeDelayLedgers = req.readyAtLedger)

/-- The delay of a request runs from the step that completed its quorum, if one did. -/
def Clock (asset : Address) (mid : List (Store × TierTx)) (readyAtLedger : Nat) : Prop :=
  (readyAtLedger = 0 ∧ (partiesOf asset mid).length < tierDowngradeRequiredApprovals) ∨
    ∃ first q last, mid = first ++ q :: last ∧ QuorumAt asset first q ∧
      readyAtLedger = q.2.env.sequence + tierDowngradeDelayLedgers

/-- What the past tells of a pending request. -/
structure Requested (asset : Address) (past : List (Store × TierTx)) (st : Store)
    (req : StorageTierDowngradeRequest) (mid : List (Store × TierTx)) : Prop where
  now : st.getAssetStorageTier asset = .persistent
  made : ∃ pre p, past = pre ++ p :: mid ∧ Proposes asset p req.proposedBy ∧ Persistent asset p
  persistent : ∀ y ∈ mid, Persistent asset y
  approvals : req.approvals = partiesOf asset mid
  nodup : req.approvals.Nodup
  proposer : req.proposedBy ∉ req.approvals
  clock : Clock asset mid req.readyAtLedger

def Accounted (asset : Address) (past : List (Store × TierTx)) (st : Store) : Prop :=
  ∀ req, requestOf st asset = some req → ∃ mid, Requested asset past st req mid

theorem length_partiesOf_le {first last : List (Store × TierTx)} {q : Store × TierTx} :
    (partiesOf asset (first ++ [q])).length ≤ (partiesOf asset (first ++ q :: last)).length := by
  have hsplit : first ++ q :: last = (first ++ [q]) ++ last := by simp
  rw [hsplit]
  unfold partiesOf
  rw [List.filterMap_append (l := first ++ [q]),List.length_append]
  exact Nat.le_add_right _ _

theorem Clock.quorum {ready : Nat} (h : Clock asset mid ready) (hready : ready ≠ 0) :
    tierDowngradeRequiredApprovals ≤ (partiesOf asset mid).length := by
  rcases h with ⟨hzero,-⟩ | ⟨first,q,last,rfl,hquorum,-⟩
  · exact (hready hzero).elim
  · exact hquorum.2.trans length_partiesOf_le

theorem Requested.lowered (h : Requested asset past st req mid) (hready : req.readyAtLedger ≠ 0)
    (hmature : req.readyAtLedger ≤ t.env.sequence) : LoweredDuly asset past t := by
  obtain ⟨pre,p,hpast,hproposes,hp⟩ := h.made
  rcases h.clock with ⟨hzero,-⟩ | ⟨first,q,last,hmid,hquorum,hclock⟩
  · exact (hready hzero).elim
  · have happrovals : req.approvals = partiesOf asset (first ++ [q]) ++ partiesOf asset last := by
      rw [h.approvals,hmid]
      simp [partiesOf,List.filterMap_append,List.filterMap_cons]
      cases approverOf asset q <;> simp
    have hnodup := h.nodup
    have hproposer := h.proposer
    rw [happrovals] at hnodup hproposer
    refine ⟨pre,p,first,q,last,req.proposedBy,by rw [hpast,hmid],hproposes,?_,
      hnodup.of_append_left,fun hmem => hproposer (List.mem_append_left _ hmem),hquorum,?_⟩
    · rw [List.forall_mem_cons,← hmid]
      exact ⟨hp,h.persistent⟩
    · omega

/-- A step that is no approval leaves what is told of a request. -/
theorem Requested.extend (h : Requested asset past st req mid)
    (hparty : approverOf asset (st,t) = none)
    (hnow : st'.getAssetStorageTier asset = .persistent) :
    Requested asset (past ++ [(st,t)]) st' req (mid ++ [(st,t)]) := by
  have hparties : partiesOf asset (mid ++ [(st,t)]) = partiesOf asset mid := by
    rw [partiesOf_concat,hparty]
    exact List.append_nil _
  obtain ⟨pre,p,hpast,hproposes,hp⟩ := h.made
  refine ⟨hnow,⟨pre,p,by simp [hpast],hproposes,hp⟩,?_,h.approvals.trans hparties.symm,
    h.nodup,h.proposer,?_⟩
  · rw [List.forall_mem_append,List.forall_mem_singleton]
    exact ⟨h.persistent,h.now⟩
  · rcases h.clock with ⟨hzero,hfew⟩ | ⟨first,q,last,rfl,hquorum,hclock⟩
    · exact .inl ⟨hzero,hparties ▸ hfew⟩
    · exact .inr ⟨first,q,last ++ [(st,t)],by simp,hquorum,hclock⟩

/-- A prompt approval is told as one more party, and moves no delay that runs. -/
theorem Requested.approve {approver : Address} (h : Requested asset past st req mid)
    (hparty : approverOf asset (st,t) = some approver)
    (hnow : st'.getAssetStorageTier asset = .persistent) (hother : approver ≠ req.proposedBy)
    (hfresh : approver ∉ req.approvals)
    (hroom : req.approvals.length < tierDowngradeRequiredApprovals →
      t.env.sequence + tierDowngradeDelayLedgers ≤ u32Max)
    (hsame : tierDowngradeRequiredApprovals ≤ req.approvals.length →
      satAdd32 t.env.sequence tierDowngradeDelayLedgers = req.readyAtLedger) :
    Requested asset (past ++ [(st,t)]) st' (req.approve approver t.env.sequence)
      (mid ++ [(st,t)]) := by
  have hparties : partiesOf asset (mid ++ [(st,t)]) = req.approvals ++ [approver] := by
    rw [partiesOf_concat,hparty,← h.approvals]
    rfl
  have hlength : (req.approvals ++ [approver]).length = req.approvals.length+1 := by
    rw [List.length_append,List.length_singleton]
  obtain ⟨pre,p,hpast,hproposes,hp⟩ := h.made
  refine ⟨hnow,⟨pre,p,by simp [hpast],hproposes,hp⟩,?_,hparties.symm,?_,?_,?_⟩
  · rw [List.forall_mem_append,List.forall_mem_singleton]
    exact ⟨h.persistent,h.now⟩
  · exact List.nodup_append.2 ⟨h.nodup,List.nodup_singleton _,fun a ha b hb heq =>
      hfresh (List.mem_singleton.1 hb ▸ heq ▸ ha)⟩
  · intro hmem
    rcases List.mem_append.1 hmem with hmem | hmem
    · exact h.proposer hmem
    · exact hother (List.mem_singleton.1 hmem).symm
  · change Clock asset (mid ++ [(st,t)]) (if tierDowngradeRequiredApprovals ≤
      (req.approvals ++ [approver]).length then satAdd32 t.env.sequence tierDowngradeDelayLedgers
      else req.readyAtLedger)
    rcases h.clock with ⟨hzero,hfew⟩ | ⟨first,q,last,rfl,hquorum,hclock⟩
    · have hbefore : req.approvals.length < tierDowngradeRequiredApprovals := by
        rw [h.approvals]
        exact hfew
      split_ifs with hcomplete
      · refine .inr ⟨mid,(st,t),[],rfl,⟨hfew,hparties ▸ hcomplete⟩,?_⟩
        exact Nat.min_eq_left (hroom hbefore)
      · exact .inl ⟨hzero,hparties ▸ not_le.1 hcomplete⟩
    · have hafter : tierDowngradeRequiredApprovals ≤ req.approvals.length := by
        rw [h.approvals]
        exact hquorum.2.trans length_partiesOf_le
      rw [if_pos (by omega),hsame hafter]
      exact .inr ⟨first,q,last ++ [(st,t)],by simp,hquorum,hclock⟩

/-- A prompt step lowers the tier duly, postpones nothing, and leaves every request accounted for. -/
theorem tier_step (h : Accounted asset past st) (hprompt : Prompt asset st t) :
    ((Lowers asset st t → LoweredDuly asset past t) ∧ NotPostponed asset st t) ∧
      Accounted asset (past ++ [(st,t)]) (execTier st t) := by
  have hraised (hnow : st.getAssetStorageTier asset = .persistent →
      (execTier st t).getAssetStorageTier asset = .persistent) : ¬Lowers asset st t := by
    rintro ⟨hbefore,hafter⟩
    rw [hnow hbefore] at hafter
    cases hafter
  cases execTier_effect asset st t with
  | kept hkept hparty =>
    obtain ⟨htier,hreq⟩ := hkept
    have hnow (hbefore : st.getAssetStorageTier asset = .persistent) :
        (execTier st t).getAssetStorageTier asset = .persistent := by
      rcases htier with htier | htier
      · rw [htier,hbefore]
      · exact htier
    refine ⟨⟨fun hlowers => (hraised hnow hlowers).elim,fun req req' h1 _ h2 => ?_⟩,
      fun req hpending => ?_⟩
    · rw [hreq,h1,Option.some.injEq] at h2
      rw [h2]
    · rw [hreq] at hpending
      obtain ⟨mid,hrequested⟩ := h req hpending
      exact ⟨_,hrequested.extend hparty (hnow hrequested.now)⟩
  | lowered req hreq hready hmature hreq' hparty =>
    obtain ⟨mid,hrequested⟩ := h req hreq
    refine ⟨⟨fun _ => hrequested.lowered hready hmature,fun _ req' _ _ h2 => ?_⟩,
      fun req' hpending => ?_⟩
    · rw [hreq'] at h2
      cases h2
    · rw [hreq'] at hpending
      cases hpending
  | proposed admin hact hadmin hsigned hpersistent hnone htier hreq' =>
    refine ⟨⟨fun hlowers => (hraised (fun _ => htier) hlowers).elim,fun req _ h1 => ?_⟩,
      fun req hpending => ⟨[],?_⟩⟩
    · rw [hnone] at h1
      cases h1
    · rw [hreq',Option.some.injEq] at hpending
      subst hpending
      exact ⟨htier,⟨past,(st,t),rfl,⟨hact,hadmin,hsigned,hnone⟩,hpersistent⟩,by simp,rfl,
        List.nodup_nil,List.not_mem_nil,.inl ⟨rfl,Nat.one_pos⟩⟩
  | approved approver req hact hchecks htier hreq' hparty =>
    obtain ⟨hroom,hsame⟩ := hprompt approver req hact hchecks
    obtain ⟨mid,hrequested⟩ := h req hchecks.pending
    have hnow := htier.trans hrequested.now
    have hnext := hrequested.approve hparty hnow hchecks.other hchecks.fresh hroom hsame
    refine ⟨⟨fun hlowers => (hraised (fun _ => hnow) hlowers).elim,fun old new h1 hready h2 => ?_⟩,
      fun new hpending => ⟨mid ++ [(st,t)],?_⟩⟩
    · rw [hchecks.pending,Option.some.injEq] at h1
      rw [hreq',Option.some.injEq] at h2
      subst h1 h2
      have hquorum := hrequested.clock.quorum hready
      rw [← hrequested.approvals] at hquorum
      unfold StorageTierDowngradeRequest.approve
      split_ifs
      · exact (hsame hquorum).le
      · exact le_refl _
    · rw [hreq',Option.some.injEq] at hpending
      exact hpending ▸ hnext

end History

/-- In a run of prompt approvals that begins without a request, a tier is only lowered duly, and no
delay that runs is postponed. -/
theorem downgrades_due {asset : Address} {st : Store} (ts : List TierTx)
    (hst : requestOf st asset = none)
    (hprompt : ∀ x ∈ steps execTier st ts, Prompt asset x.1 x.2) :
    ∀ pre t post, ts = pre ++ t :: post →
      (Lowers asset (run execTier st pre) t → LoweredDuly asset (steps execTier st pre) t) ∧
        NotPostponed asset (run execTier st pre) t := by
  refine past_satisfies (I := fun past s => Accounted asset past s)
    (P := fun past s t => (Lowers asset s t → LoweredDuly asset past t) ∧ NotPostponed asset s t)
    (fun past s t hs ht => tier_step hs ht) ?_ (forall_split hprompt)
  intro req hreq
  rw [hst] at hreq
  cases hreq

/-- Asset 10 is registered and persistent. -/
def tierStore : Store where
  flags := fun f => f = .storageTier
  config :=
    { admin := some 9
      assetStorageTier := fun a => if a = 10 then some .persistent else none }
  registry := { assetRegistered := fun a => if a = 10 then some true else none }

def tierCall (sequence : Nat) (signer : Address) (call : TierCall) : TierTx :=
  ⟨.concrete sequence 5 [signer], .call call⟩

/-- A request that 5 approves at ledger 101, and another approval nine ledgers later. -/
theorem downgrade_postponed :
    requestOf tierStore 10 = none ∧
      ¬∀ pre t post, [tierCall 100 9 (.propose 10), tierCall 101 5 (.approve 10 5),
          tierCall 110 6 (.approve 10 6)] = pre ++ t :: post →
        (Lowers 10 (run execTier tierStore pre) t → LoweredDuly 10 (steps execTier tierStore pre) t) ∧
          NotPostponed 10 (run execTier tierStore pre) t := by
  refine ⟨rfl,fun h => ?_⟩
  have hlast := (h [tierCall 100 9 (.propose 10),tierCall 101 5 (.approve 10 5)]
    (tierCall 110 6 (.approve 10 6)) [] rfl).2
  exact absurd (hlast ⟨9,[5],111,.persistent⟩ ⟨9,[5,6],120,.persistent⟩ (by decide +kernel)
    (by decide) (by decide +kernel)) (by decide)

def matureRun : List TierTx :=
  [tierCall 100 9 (.propose 10), tierCall 101 5 (.approve 10 5), tierCall 111 9 (.execute 10)]

/-- A request that one party approves, executed when its delay is over. -/
theorem downgrade_matured :
    LoweredDuly 10 (steps execTier tierStore (matureRun.take 2)) (tierCall 111 9 (.execute 10)) := by
  have hprompt : ∀ x ∈ steps execTier tierStore matureRun, Prompt 10 x.1 x.2 := by
    rw [matureRun,steps_cons,steps_cons,steps_cons,steps_nil]
    simp only [List.forall_mem_cons]
    refine ⟨nofun,fun approver req _ hchecks => ?_,nofun,by simp⟩
    have hpending : requestOf (execTier tierStore (tierCall 100 9 (.propose 10))) 10 =
        some ⟨9,[],0,.persistent⟩ := by decide +kernel
    have hreq := hchecks.pending.symm.trans hpending
    rw [Option.some.injEq] at hreq
    rw [hreq]
    exact ⟨fun _ => by decide,fun hfull => absurd hfull (by decide)⟩
  exact (downgrades_due matureRun rfl hprompt (matureRun.take 2) _ [] rfl).1
    (by unfold Lowers; decide +kernel)

end PriceOracle.Archive
