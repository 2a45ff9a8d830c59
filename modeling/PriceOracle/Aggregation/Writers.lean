import PriceOracle.Aggregation.Calls
import PriceOracle.Model.Corrections
import PriceOracle.Model.StorageTier

/-! # The writers of an aggregate

Five operations write `Aggregate(asset)`: the commit of a round, `trigger_aggregation`, a
correction, the snapshot of the optimistic oracle and the placeholder of a migration. Every path of a
submission ends in a round, a bridged or proven price too. A call is described once, by the writes it
makes and by what each writer guarantees of the value; invariants of the stored aggregate follow from
what they make of a single write. -/

namespace PriceOracle.Model.Store

variable (env : Env) (st : Store)

def adminSigns : Bool := st.config.admin.any env.authorized

/-- The assets that a batch of a migration looks at. -/
def batchOf (scan : MigrationState) (batch : Nat) : List Address :=
  if scan.fromVersion = 1 ∧ scan.toVersion = 2 then
    (st.registry.assets.take (batchEnd scan.cursor batch st.registry.assets.length)).drop scan.cursor
  else []

def nextBatch (batchSize : Nat) : List Address :=
  st.batchOf (st.migration.state.getD
    ⟨st.getStorageVersion, currentVersion, 0, env.sequence, .inProgress⟩) (effectiveBatch batchSize)

end PriceOracle.Model.Store

namespace PriceOracle.Aggregation

open Lib.Transaction Lib.Footprint Lib.MachineInt Model

/-- The calls that can write an aggregate, with the administrator's changes of the bounds. -/
inductive PriceCall
  | aggregate (call : AggregationCall)
  | triggerAggregation (asset : Address)
  | correctPrice (asset : Address) (newPrice : Int) (reason : String)
  | proposePrice (proposer asset : Address) (price : Int) (timestamp : Nat) (bondAmount : Int)
  | disputeProposal (disputer : Address) (id : Nat)
  | resolveDispute (id : Nat) (resolution : Bool)
  | resolveViaExternalData (id : Nat) (externalPrice : Int) (proof : ExternalDataProof)
  | getProposal (id : Nat)
  | getActiveProposals
  | migrateStorage (batchSize : Nat)
  | setBounds (asset : Address) (arg : BoundsTierArg)
  | clearBounds (asset : Address)

namespace PriceCall

def body : PriceCall → Contract Unit
  | aggregate call => call.body
  | triggerAggregation asset => Model.triggerAggregation asset
  | correctPrice asset newPrice reason => do
    let _ ← Model.correctPrice asset newPrice reason
    pure ()
  | proposePrice proposer asset price timestamp bondAmount => do
    let _ ← Model.proposePrice proposer asset price timestamp bondAmount
    pure ()
  | disputeProposal disputer id => Model.disputeProposal disputer id
  | resolveDispute id resolution => Model.resolveDispute id resolution
  | resolveViaExternalData id externalPrice proof =>
    Model.resolveViaExternalData id externalPrice proof
  | getProposal id => do
    let _ ← Model.getProposal id
    pure ()
  | getActiveProposals => do
    let _ ← Model.getActiveProposals
    pure ()
  | migrateStorage batchSize => Model.migrateStorage batchSize
  | setBounds asset arg => Model.setBounds asset arg
  | clearBounds asset => Model.clearBounds asset

end PriceCall

def unpriced : List Region :=
  [.rounds, .stats, .relayers, .feeMarket, .submissions, .auths, .history, .provenance,
    .corrections, .optimistic, .migration]

/-- One write of an aggregate, made under the bounds and flags of `w`. -/
structure Writes (asset : Address) (value : AggregatePrice) (w w' : World) : Prop where
  aggregate : w'.store.aggregate = Function.update w.store.aggregate asset (some value)
  written : ∃ st, st.bounds = w.store.bounds ∧
    w'.log.aggregates = w.log.aggregates ++ [⟨st, asset, value⟩]
  rest : layout.agreeOff (.aggregates :: unpriced) w w'

/-- A relation that ignores what no aggregate depends on and tolerates the writes `P` allows. -/
structure Tolerates (R : World → World → Prop) (P : World → Address → AggregatePrice → Prop) :
    Prop where
  ignored : ∀ w w', layout.agreeOff unpriced w w' → R w w'
  write : ∀ asset value w w', P w asset value → Writes asset value w w' → R w w'
  setBounds : ∀ asset arg, Preserves R (setBounds asset arg)
  clearBounds : ∀ asset, Preserves R (clearBounds asset)

/-- Every writer's values are allowed: a round's without condition, those of a trigger on assets in
`B`, those of a snapshot and the zero of a migration at prices in `A`, and corrections inside the hard
band. -/
structure Justifies (P : World → Address → AggregatePrice → Prop)
    (A : Bounds → Address → Int → Prop)
    (B : Bounds → Map Address AggregatePrice → Address → Prop) : Prop where
  round : ∀ w asset decimals recompute (d : Decision),
    (∃ raw, w.store.applyBounds asset raw = some d.price) →
      P w asset (d.aggregate (w.store.previousAggregate asset decimals) decimals recompute)
  trigger : ∀ w asset value, B w.store.bounds w.store.aggregate asset → P w asset value
  snapshot : ∀ w asset value, A w.store.bounds asset value.price →
    value.version = w.store.snapshotVersion asset value.price → P w asset value
  correction : ∀ w asset previous newPrice timestamp, w.store.aggregate asset = some previous →
    w.store.bounds.admits asset newPrice = true →
      P w asset (previous.corrected newPrice timestamp)
  migration : ∀ w asset, w.store.aggregate asset = none → A w.store.bounds asset 0 →
    P w asset w.store.zeroAggregate

/-- The proposal is disputed and open: neither settled nor due for settlement by a read. -/
def contested (p : OptimisticProposal) (sequence : Nat) : Bool :=
  p.disputed = true ∧ p.status ≠ .resolved ∧ p.status ≠ .finalized ∧ p.due sequence = false ∧
    ¬(p.status = .disputed ∧ satAdd32 p.expiresAtLedger maxDisputeDuration ≤ sequence)

/-- Before the call, what it may snapshot or set to zero is in `A`, and what it may trigger in `B`. -/
def Settles (A : Bounds → Address → Int → Prop)
    (B : Bounds → Map Address AggregatePrice → Address → Prop) (env : Env) (st : Store) :
    PriceCall → Prop
  | .triggerAggregation asset => B st.bounds st.aggregate asset
  | .resolveDispute id resolution => resolution = true → ∀ p ∈ st.optimistic.proposal id,
    contested p env.sequence = true → A st.bounds p.asset p.price
  | .resolveViaExternalData id externalPrice _ => ∀ p ∈ st.optimistic.proposal id,
    contested p env.sequence = true → A st.bounds p.asset externalPrice
  | .getProposal id =>
    ∀ p ∈ st.optimistic.proposal id, p.due env.sequence = true → A st.bounds p.asset p.price
  | .getActiveProposals => ∀ id, ∀ p ∈ st.optimistic.proposal id,
    p.due env.sequence = true → A st.bounds p.asset p.price
  | .migrateStorage batchSize => st.adminSigns env = true →
    ∀ asset ∈ st.nextBatch env batchSize, st.aggregate asset = none → A st.bounds asset 0
  | _ => True

theorem seedRevisions_frame (asset : Address) (previous : AggregatePrice) :
    Frame [.corrections] (seedRevisions asset previous) := by
  refine .read fun revisions => ?_
  split_ifs
  · exact recordOriginal_frame asset previous
  · exact preserves_pure _

theorem correctPrice_frame (asset : Address) (newPrice : Int) (reason : String) :
    Frame [.auths,.corrections,.aggregates] (correctPrice asset newPrice reason) := by
  have hcheck : Frame [.auths,.corrections,.aggregates] (checkCorrection asset) :=
    .read fun _ => .check fun _ => .read fun _ => .check fun _ => .lookup fun _ => .read fun _ =>
      .read fun _ => .check fun _ => preserves_pure _
  exact getAdmin_frame.bind fun admin => ((requireAuth_frame admin).mono (by simp)).bind fun _ =>
    (checkRegisteredAsset_frame asset).bind fun _ => .check fun _ =>
    .check fun _ => .read fun _ =>
    .check fun _ => hcheck.bind fun previous =>
    ((seedRevisions_frame asset previous).mono (by simp)).bind fun _ =>
    .read fun _ => .read fun _ => .read fun _ =>
    ((writeAggregate_frame asset _).mono (by simp)).bind fun _ =>
    ((modifyCorrections_frame _).mono (by simp)).bind fun _ => preserves_pure _

theorem setBounds_frame (asset : Address) (arg : BoundsTierArg) :
    Frame [.auths,.bounds,.flags,.suspension] (setBounds asset arg) :=
  asAdmin_frame ((checkRegisteredAsset_frame asset).bind fun _ => .lookup
    fun _ => ((modifyBounds_frame _).mono (by simp)).bind fun _ => .read
    fun _ => ((mark_frame _).mono (by simp)).bind fun _ => (modifyBounds_frame _).mono (by simp))

theorem clearBounds_frame (asset : Address) : Frame [.auths,.bounds] (clearBounds asset) :=
  asAdmin_frame ((checkRegisteredAsset_frame asset).bind fun _ => modifyBounds_frame _)

theorem writeProposal_frame (p : OptimisticProposal) : Frame [.optimistic] (writeProposal p) :=
  modifyOptimistic_frame _

theorem writePriceSnapshot_frame (asset : Address) (price : Int)
    (timestamp numSources ledger : Nat) :
    Frame [.aggregates,.history]
      (writePriceSnapshot asset price timestamp numSources ledger) :=
  .read fun _ => .read fun _ => ((writeAggregate_frame asset _).mono (by simp)).bind fun _ =>
    .read fun _ =>
    (modifyHistory_frame _).mono (by simp)

theorem proposePrice_frame (proposer asset : Address) (price : Int) (timestamp : Nat)
    (bondAmount : Int) :
    Frame [.auths,.optimistic] (proposePrice proposer asset price timestamp bondAmount) :=
  (checkRegisteredAsset_frame asset).bind fun _ => .check fun _ => .read fun _ => .check fun _ =>
    .read fun _ => .check fun _ =>
    ((requireAuth_frame proposer).mono (by simp)).bind fun _ =>
    .read fun _ => .read fun _ =>
    .read fun _ => ((modifyOptimistic_frame _).mono (by simp)).bind fun _ =>
    ((writeProposal_frame _).mono (by simp)).bind fun _ => preserves_pure _

theorem initializeAggregate_frame (asset : Address) :
    Frame [.aggregates] (initializeAggregate asset) := by
  refine .read fun _ => .read fun _ => ?_
  split_ifs
  · exact writeAggregate_frame asset _
  · exact preserves_pure _

theorem resumeMigration_frame (state : MigrationState) (batch : Nat) :
    Frame [.aggregates,.migration] (resumeMigration state batch) := by
  have hbatch : Frame [.aggregates] (migrateV1ToV2 state.cursor batch) := by
    refine .read fun assets => ?_
    split_ifs
    · exact preserves_pure _
    · exact (preserves_forM fun asset _ => initializeAggregate_frame asset).bind fun _ =>
        preserves_pure _
  have hstep : Frame [.aggregates,.migration] (runMigrationStep state batch) := by
    unfold runMigrationStep
    split_ifs
    · exact hbatch.mono (by simp)
    · exact preserves_pure _
  exact hstep.bind fun _ => (modifyMigration_frame _).mono (by simp)

theorem migrateStorage_frame (batchSize : Nat) :
    Frame [.auths,.aggregates,.migration] (migrateStorage batchSize) := by
  refine asAdmin_frame (.read fun inProgress => ?_)
  cases inProgress with
  | some state => exact resumeMigration_frame state _
  | none =>
    refine .read fun version => ?_
    split_ifs
    · exact (modifyMigration_frame _).mono (by simp)
    · exact .read fun _ => resumeMigration_frame _ _

theorem checkExternalProof_frame (price : Int) (proof : ExternalDataProof) :
    Frame [] (checkExternalProof price proof) :=
  (checkSource_frame proof.source).bind fun _ => .read fun _ => .check fun _ => .check fun _ =>
    .read fun _ => preserves_ensure _ _

section Writing

variable {asset : Address} {value : AggregatePrice} {w t u : World}

theorem writeAggregate_writes (hwt : layout.agreeOff unpriced w t) (asset : Address)
    (value : AggregatePrice) :
    Sat (writeAggregate asset value) t fun _ u => Writes asset value w u := by
  have haggregates : (t.store.aggregate,t.log.aggregates) =
      (w.store.aggregate,w.log.aggregates) := hwt .aggregates (by decide)
  have hbounds : t.store.bounds = w.store.bounds := hwt .bounds (by decide)
  obtain ⟨haggregate,hlog⟩ := Prod.mk.inj haggregates
  refine ((writeAggregate_frame asset value t).and
    ((sat_writeAggregate (Q := fun _ u => u.store.aggregate =
      Function.update t.store.aggregate asset (some value) ∧
      u.log.aggregates = t.log.aggregates ++ [⟨t.store,asset,value⟩]) asset value).2
      ⟨rfl,rfl⟩)).mono fun _ u hu => ?_
  obtain ⟨hframe,hstored,hnoted⟩ := hu
  refine ⟨by rw [hstored,haggregate],⟨t.store,hbounds,by rw [hnoted,hlog]⟩,?_⟩
  intro r hr
  rw [List.mem_cons,not_or] at hr
  exact (hframe r fun h => hr.1 (List.mem_singleton.1 h)).trans (hwt r hr.2)

/-- What follows a write and leaves aggregates, bounds and flags alone belongs to it. -/
theorem Writes.andThen (h : Writes asset value w t) (htu : layout.agreeOff unpriced t u) :
    Writes asset value w u := by
  have haggregates : (u.store.aggregate,u.log.aggregates) =
      (t.store.aggregate,t.log.aggregates) := htu .aggregates (by decide)
  obtain ⟨haggregate,hlog⟩ := Prod.mk.inj haggregates
  refine ⟨by rw [haggregate,h.aggregate],?_,?_⟩
  · rw [hlog]
    exact h.written
  · intro r hr
    exact (htu r fun hu => hr (List.mem_cons_of_mem _ hu)).trans (h.rest r hr)

theorem commitRound_writes (asset : Address) (ledger decimals : Nat) (recompute : Bool)
    (d : Decision) (w : World) :
    Sat (commitRound asset ledger decimals recompute d) w fun _ w' =>
      Writes asset (d.aggregate (w.store.previousAggregate asset decimals) decimals recompute)
        w w' := by
  refine ((commitRound_sat asset ledger decimals recompute d w).and
    (commitRound_frame asset ledger decimals recompute d w)).mono fun _ w' hw => ?_
  obtain ⟨⟨pub,-,-,hcommit⟩,hframe⟩ := hw
  refine ⟨hcommit.aggregate,⟨w.store,rfl,hcommit.written⟩,?_⟩
  exact fun r hr => hframe r fun hf => hr (by revert hf; cases r <;> decide)

theorem writePriceSnapshot_writes (asset : Address) (price : Int)
    (timestamp numSources ledger : Nat) (w : World) :
    Sat (writePriceSnapshot asset price timestamp numSources ledger) w fun _ w' =>
      ∃ value : AggregatePrice, value.price = price ∧
        value.version = w.store.snapshotVersion asset price ∧ Writes asset value w w' := by
  unfold writePriceSnapshot
  rw [sat_bind,sat_readStore,sat_bind,sat_readStore]
  refine (writeAggregate_writes (Std.Refl.refl w) asset _).andThen fun _ t ht => ?_
  rw [sat_bind,sat_readStore]
  refine (modifyHistory_frame _ t).mono fun _ u hu => ?_
  refine ⟨_,rfl,rfl,ht.andThen fun r hr => hu r fun h => hr ?_⟩
  rw [List.mem_singleton.1 h]
  decide

theorem triggerAggregation_writes (asset : Address) (w : World) :
    Sat (triggerAggregation asset) w fun _ w' => ∃ value, Writes asset value w w' := by
  have hw : layout.agreeOff unpriced w w := Std.Refl.refl w
  refine ((checkRegisteredAsset_frame asset).from hw).andThen fun _ t ht => ?_
  rw [sat_bind,sat_getSequence,sat_bind,sat_readStore,sat_bind,sat_ensure]
  intro _
  refine ((effectivePolicy_frame asset).from ht).andThen fun _ t ht => ?_
  rw [sat_bind,sat_readStore,sat_bind,sat_readStore,sat_bind,sat_ensure]
  intro _
  refine ((aggregatePrices_frame asset _ _).from ht).andThen fun _ t ht => ?_
  refine (writeAggregate_writes ht asset _).andThen fun _ u hu => ?_
  refine (modifyRounds_frame _ u).mono fun _ v hv => ⟨_,hu.andThen fun r hr => hv r fun h => hr ?_⟩
  rw [List.mem_singleton.1 h]
  decide

theorem readAggregate_sat (asset : Address) (w : World) :
    Sat (readAggregate asset) w fun a w' => w.store.aggregate asset = some a ∧ w' = w := by
  exact sat_lookup (by cases w.store.aggregate asset <;> rfl)

theorem checkCorrection_sat (asset : Address) (w : World) :
    Sat (checkCorrection asset) w fun previous w' =>
      w.store.aggregate asset = some previous ∧ w' = w := by
  unfold checkCorrection
  simp only [sat_bind,sat_readStore,sat_ensure]
  intro _ _
  refine (readAggregate_sat asset w).mono fun previous t ht => ?_
  obtain ⟨hprevious,rfl⟩ := ht
  simp only [sat_getSequence,sat_pure]
  intro _
  exact ⟨hprevious,trivial⟩

/-- A correction replaces a published aggregate by a price inside the hard band. -/
theorem correctPrice_writes (asset : Address) (newPrice : Int) (reason : String) (w : World) :
    Sat (correctPrice asset newPrice reason) w fun _ w' => ∃ previous timestamp,
      w.store.aggregate asset = some previous ∧ w.store.bounds.admits asset newPrice = true ∧
        Writes asset (previous.corrected newPrice timestamp) w w' := by
  have hw : layout.agreeOff unpriced w w := Std.Refl.refl w
  refine (getAdmin_frame.from hw).andThen fun admin t ht => ?_
  have hauth : Frame unpriced (requireAuth admin) := (requireAuth_frame admin).mono (by decide)
  refine (hauth.from ht).andThen fun _ t ht => ?_
  refine ((checkRegisteredAsset_frame asset).from ht).andThen fun _ t ht => ?_
  have haggregate : t.store.aggregate = w.store.aggregate :=
    congrArg Prod.fst (ht .aggregates (by decide))
  have hbounds : t.store.bounds = w.store.bounds := ht .bounds (by decide)
  simp only [sat_bind,sat_ensure,sat_readStore]
  intro _ _ hadmits
  rw [hbounds] at hadmits
  refine (checkCorrection_sat asset t).mono fun previous v hv => ?_
  obtain ⟨hprevious,rfl⟩ := hv
  rw [haggregate] at hprevious
  have hseed : Frame unpriced (seedRevisions asset previous) :=
    (seedRevisions_frame asset previous).mono (by decide)
  refine (hseed.from ht).mono fun _ v hv => ?_
  rw [sat_getSequence,sat_getTimestamp]
  refine (writeAggregate_writes hv asset _).mono fun _ u hu => ?_
  refine (modifyCorrections_frame _ u).mono fun _ s hs => ?_
  rw [sat_pure]
  refine ⟨previous,_,hprevious,hadmits,hu.andThen fun r hr => hs r fun h => hr ?_⟩
  rw [List.mem_singleton.1 h]
  decide

end Writing

theorem authorizedBy_off {T : List Region} {w : World} (admin : Address) (hT : .auths ∈ T) :
    layout.agreeOff T w (w.authorizedBy admin) := by
  intro r hr
  cases r <;> first | rfl | exact absurd hT hr

theorem sat_asAdmin_of_signed {α : Type} {body : Contract α} {w : World} {Q : α → World → Prop}
    (h : w.store.adminSigns w.env = true → ∀ admin, Sat body (w.authorizedBy admin) Q) :
    Sat (asAdmin body) w Q := by
  refine (sat_asAdmin Q).2 fun admin hadmin hsigned => h ?_ admin
  rw [Store.adminSigns,hadmin]
  exact hsigned

section Migration

variable {w : World}

theorem initializeAggregate_writes (asset : Address) (w : World) :
    Sat (initializeAggregate asset) w fun _ w' => w' = w ∨
      w.store.aggregate asset = none ∧ Writes asset w.store.zeroAggregate w w' := by
  unfold initializeAggregate
  rw [sat_bind,sat_readStore,sat_bind,sat_readStore]
  split_ifs with hmissing
  · exact (writeAggregate_writes (Std.Refl.refl w) asset _).mono fun _ _ hw =>
      .inr ⟨Option.isNone_iff_eq_none.1 hmissing,hw⟩
  · exact (sat_pure _).2 (.inl rfl)

theorem resumeMigration_run {I Q : World → Prop} {state : MigrationState} {batch : Nat} (hw : I w)
    (hasset : ∀ asset ∈ w.store.batchOf state batch, ∀ t, I t →
      Sat (initializeAggregate asset) t fun _ u => I u)
    (hprogress : ∀ f t, I t → Sat (modifyMigration f) t fun _ u => Q u) :
    Sat (resumeMigration state batch) w fun _ u => Q u := by
  have hstep : Sat (runMigrationStep state batch) w fun _ u => I u := by
    unfold Store.batchOf at hasset
    unfold runMigrationStep migrateV1ToV2
    split_ifs at hasset ⊢
    · rw [sat_bind,sat_readStore]
      refine sat_ite _ (fun _ => (sat_pure _).2 hw) fun _ => ?_
      exact (sat_forM hasset hw).andThen fun _ u hu => (sat_pure _).2 hu
    · exact (sat_pure _).2 hw
  exact hstep.andThen fun _ t ht => hprogress _ t ht

/-- A migration that the administrator signs goes through its next batch and writes how far it is. -/
theorem migrateStorage_run {I Q : World → Prop} {batchSize : Nat}
    (hw : ∀ admin, I (w.authorizedBy admin))
    (hasset : w.store.adminSigns w.env = true → ∀ asset ∈ w.store.nextBatch w.env batchSize,
      ∀ t, I t → Sat (initializeAggregate asset) t fun _ u => I u)
    (hprogress : ∀ f t, I t → Sat (modifyMigration f) t fun _ u => Q u) :
    Sat (migrateStorage batchSize) w fun _ u => Q u := by
  refine sat_asAdmin_of_signed fun hsigned admin => ?_
  have hbatch := hasset hsigned
  unfold Store.nextBatch at hbatch
  simp only [sat_bind,sat_readStore,authorizedBy_store]
  cases hstate : w.store.migration.state with
  | some state =>
    rw [hstate,Option.getD_some] at hbatch
    exact resumeMigration_run (hw admin) hbatch hprogress
  | none =>
    rw [hstate,Option.getD_none] at hbatch
    refine sat_ite _ (fun _ => hprogress _ _ (hw admin)) fun _ => ?_
    exact resumeMigration_run (hw admin) hbatch hprogress

end Migration

section Optimistic

variable {w t : World}

/-- A proposal that comes back open comes back as it was, and nothing has been written. -/
theorem finalizeIfExpired_open (p : OptimisticProposal) (w : World) :
    Sat (finalizeIfExpired p) w fun q w' => q.status = .resolved ∨ q.status = .finalized ∨
      q = p ∧ w' = w ∧ p.due w.env.sequence = false ∧
        ¬(p.status = .disputed ∧
          satAdd32 p.expiresAtLedger maxDisputeDuration ≤ w.env.sequence) := by
  unfold finalizeIfExpired
  rw [sat_bind,sat_getSequence]
  split_ifs with hdisputed hopen hdue
  · rw [sat_pure]
    have hnotDue : p.due w.env.sequence = false := by simp [OptimisticProposal.due,hdisputed]
    exact Or.inr (Or.inr ⟨rfl,rfl,hnotDue,by omega⟩)
  · rw [sat_bind]
    intro _ _ _
    simp
  · rw [sat_pure]
    exact Or.inr (Or.inr ⟨rfl,rfl,hdue,fun h => hdisputed h.1⟩)
  · rw [sat_bind]
    intro _ _ _
    rw [sat_bind]
    intro _ _ _
    simp

theorem readProposal_sat (id : Nat) (w : World) :
    Sat (readProposal id) w fun p w' => w.store.optimistic.proposal id = some p ∧ w' = w := by
  exact sat_lookup (by cases w.store.optimistic.proposal id <;> rfl)

/-- Only a stored proposal that is still open can be resolved. -/
theorem openDispute_sat (id : Nat) (w : World) :
    Sat (openDispute id) w fun p w' => w.store.optimistic.proposal id = some p ∧
      contested p w.env.sequence = true ∧ w' = w := by
  refine (readProposal_sat id w).andThen fun stored t ht => ?_
  obtain ⟨hstored,rfl⟩ := ht
  refine (finalizeIfExpired_open stored t).andThen fun p u hu => ?_
  simp only [sat_bind,sat_ensure,sat_pure]
  rintro hdisputed ⟨hresolved,hfinalized⟩
  rcases hu with hu | hu | ⟨rfl,rfl,hdue,hlapsed⟩
  · exact absurd hu hresolved
  · exact absurd hu hfinalized
  · refine ⟨hstored,?_,rfl⟩
    exact decide_eq_true ⟨hdisputed,hresolved,hfinalized,hdue,hlapsed⟩

/-- A dispute is recorded only while the proposal is open, so that nothing else is written. -/
theorem disputeProposal_frame (disputer : Address) (id : Nat) :
    Frame [.auths,.optimistic] (disputeProposal disputer id) := by
  intro w
  have hauth : Frame [.auths,.optimistic] (requireAuth disputer) :=
    (requireAuth_frame disputer).mono (by simp)
  refine (hauth w).andThen fun _ t hwt => ?_
  refine (readProposal_sat id t).andThen fun stored v hv => ?_
  obtain ⟨-,rfl⟩ := hv
  refine (finalizeIfExpired_open stored v).andThen fun p u hu => ?_
  simp only [sat_bind,sat_ensure,sat_getSequence,sat_readStore]
  rintro - ⟨hresolved,hfinalized⟩ - -
  rcases hu with hu | hu | ⟨rfl,rfl,-,-⟩
  · exact absurd hu hresolved
  · exact absurd hu hfinalized
  · have hwrite : Frame [.auths,.optimistic] (writeProposal { p with
        status := .disputed, disputed := true, disputer := some disputer }) :=
      (writeProposal_frame _).mono (by simp)
    exact hwrite.from hwt

end Optimistic

section Calls

variable {R : World → World → Prop} [Std.Refl R] [IsTrans World R]
  {P : World → Address → AggregatePrice → Prop} {A : Bounds → Address → Int → Prop}
  {B : Bounds → Map Address AggregatePrice → Address → Prop}
  (hR : Tolerates R P) (hP : Justifies P A B) {w t : World}

include hR

omit [Std.Refl R] [IsTrans World R] in
theorem Tolerates.frame {α : Type} {T : List Region} {m : Contract α} (hm : Frame T m)
    (hT : T ⊆ unpriced) : Preserves R m :=
  (hm.mono hT).weaken hR.ignored

include hP

omit [Std.Refl R] [IsTrans World R] in
theorem Tolerates.aggregation : RespectsAggregation R where
  ignored w w' h := hR.ignored w w' fun r hr => h r fun hb => hr (by revert hb; cases r <;> decide)
  commit asset decimals recompute d w hconcluded :=
    (commitRound_writes asset w.env.sequence decimals recompute d w).mono fun _ w' hw =>
      hR.write asset _ w w' (hP.round w asset decimals recompute d ⟨_,hconcluded.price⟩) hw

omit [Std.Refl R] [IsTrans World R] in
theorem snapshot_sat {asset : Address} {price : Int} (hA : A w.store.bounds asset price)
    (timestamp numSources ledger : Nat) :
    Sat (writePriceSnapshot asset price timestamp numSources ledger) w fun _ w' => R w w' := by
  refine (writePriceSnapshot_writes asset price timestamp numSources ledger w).mono
    fun _ w' hw => ?_
  obtain ⟨value,hprice,hversion,hwrites⟩ := hw
  refine hR.write asset value w w' (hP.snapshot w asset value ?_ ?_) hwrites
  · rw [hprice]
    exact hA
  · rw [hprice]
    exact hversion

/-- A proposal that falls due is written; nothing else happens to prices, and no proposal becomes
due by it. -/
theorem finalizeIfExpired_sat {p : OptimisticProposal}
    (hA : p.due w.env.sequence = true → A w.store.bounds p.asset p.price) :
    Sat (finalizeIfExpired p) w fun _ w' => R w w' ∧
      layout.agreeOff [.aggregates,.history,.optimistic] w w' ∧
      ∀ id, ∀ q ∈ w'.store.optimistic.proposal id, q.status = .pending →
        q ∈ w.store.optimistic.proposal id := by
  have hclosed (q : OptimisticProposal) (hq : q.status ≠ .pending) (v : World) :
      Sat (writeProposal q) v fun _ v' => (R v v' ∧
        layout.agreeOff [.aggregates,.history,.optimistic] v v') ∧
        ∀ id, ∀ x ∈ v'.store.optimistic.proposal id, x.status = .pending →
          x ∈ v.store.optimistic.proposal id := by
    refine Sat.and (Sat.and (hR.frame (writeProposal_frame q) (by decide) v)
      ((writeProposal_frame q).mono (by simp) v)) ?_
    unfold writeProposal modifyOptimistic
    rw [sat_update]
    intro id x hx hpending
    rcases stored_of_update hx with ⟨-,rfl⟩ | hold
    · exact absurd hpending hq
    · exact hold
  have hsame : R w w ∧ layout.agreeOff [.aggregates,.history,.optimistic] w w ∧
      ∀ id, ∀ q ∈ w.store.optimistic.proposal id, q.status = .pending →
        q ∈ w.store.optimistic.proposal id :=
    ⟨Std.Refl.refl w,Std.Refl.refl w,fun _ _ h _ => h⟩
  unfold finalizeIfExpired
  rw [sat_bind,sat_getSequence]
  split_ifs with hdisputed hopen hdue
  · exact (sat_pure _).2 hsame
  · refine (hclosed _ (by simp) w).andThen fun _ v hv => (sat_pure _).2 ?_
    exact ⟨hv.1.1,hv.1.2,hv.2⟩
  · exact (sat_pure _).2 hsame
  · rw [Bool.not_eq_false] at hdue
    refine (hclosed _ (by simp) w).andThen fun _ v hv => ?_
    obtain ⟨⟨hwv,hframe⟩,hproposals⟩ := hv
    have hbounds : v.store.bounds = w.store.bounds := hframe .bounds (by decide)
    refine ((snapshot_sat hR hP (by rw [hbounds]; exact hA hdue) p.timestamp 1 _).and
      ((writePriceSnapshot_frame p.asset p.price p.timestamp 1 w.env.sequence) v)).andThen
      fun _ u hu => (sat_pure _).2 ?_
    have hoptimistic : u.store.optimistic = v.store.optimistic := hu.2 .optimistic (by decide)
    refine ⟨IsTrans.trans w v u hwv hu.1,IsTrans.trans w v u hframe fun r hr => ?_,?_⟩
    · exact hu.2 r fun h => hr (by revert h; cases r <;> decide)
    · rw [hoptimistic]
      exact hproposals

theorem collectActive_sat {v : World} (active : List OptimisticProposal) (id : Nat)
    (hvw : R w v ∧ v.env = w.env ∧ v.store.bounds = w.store.bounds)
    (hA : ∀ id, ∀ p ∈ v.store.optimistic.proposal id,
      p.due v.env.sequence = true → A v.store.bounds p.asset p.price) :
    Sat (collectActive active id) v fun _ u =>
      (R w u ∧ u.env = w.env ∧ u.store.bounds = w.store.bounds) ∧
        ∀ id, ∀ p ∈ u.store.optimistic.proposal id,
          p.due u.env.sequence = true → A u.store.bounds p.asset p.price := by
  unfold collectActive
  rw [sat_bind,sat_readStore]
  cases hstored : v.store.optimistic.proposal id with
  | none => exact (sat_pure _).2 ⟨hvw,hA⟩
  | some p =>
    refine (finalizeIfExpired_sat hR hP (hA id p hstored)).andThen fun _ u hu => (sat_pure _).2 ?_
    obtain ⟨hvu,hframe,hproposals⟩ := hu
    have henv : u.env = v.env := hframe .env (by decide)
    have hbounds : u.store.bounds = v.store.bounds := hframe .bounds (by decide)
    rw [henv,hbounds]
    refine ⟨⟨IsTrans.trans w v u hvw.1 hvu,hvw.2⟩,?_⟩
    intro id q hq hdue
    have hpending : q.status = .pending := by
      simp only [OptimisticProposal.due,decide_eq_true_eq] at hdue
      exact hdue.1
    exact hA id q (hproposals id q hq hpending) hdue

theorem getActiveProposals_sat
    (hA : ∀ id, ∀ p ∈ w.store.optimistic.proposal id,
      p.due w.env.sequence = true → A w.store.bounds p.asset p.price) :
    Sat getActiveProposals w fun _ w' => R w w' := by
  refine Sat.mono (sat_foldlM (I := fun _ u =>
    (R w u ∧ u.env = w.env ∧ u.store.bounds = w.store.bounds) ∧
      ∀ id, ∀ p ∈ u.store.optimistic.proposal id,
        p.due u.env.sequence = true → A u.store.bounds p.asset p.price)
    (fun id _ active v hv => collectActive_sat hR hP active id hv.1 hv.2)
    ⟨⟨Std.Refl.refl w,rfl,rfl⟩,hA⟩) fun _ _ hu => hu.1.1

theorem getProposal_sat {id : Nat}
    (hA : ∀ p ∈ w.store.optimistic.proposal id,
      p.due w.env.sequence = true → A w.store.bounds p.asset p.price) :
    Sat (getProposal id) w fun _ w' => R w w' := by
  unfold getProposal
  rw [sat_bind,sat_readStore]
  cases hstored : w.store.optimistic.proposal id with
  | none => exact (sat_pure _).2 (Std.Refl.refl w)
  | some p =>
    refine (finalizeIfExpired_sat hR hP (hA p hstored)).andThen fun _ u hu => ?_
    exact (sat_pure _).2 hu.1

omit [Std.Refl R] hP in
/-- What the administrator does with a dispute starts from the proposal and the bounds as stored. -/
theorem onDispute_sat {id : Nat} {settle : OptimisticProposal → Contract Unit}
    (hsettle : ∀ p ∈ w.store.optimistic.proposal id, contested p w.env.sequence = true →
      ∀ v : World, v.store.bounds = w.store.bounds → Sat (settle p) v fun _ u => R v u) :
    Sat (asAdmin do let p ← openDispute id; settle p) w fun _ w' => R w w' := by
  apply asAdmin_sat (R := R)
  · exact fun t t' h => hR.ignored t t' fun r hr => h r fun h' => hr (by
      rw [List.mem_singleton.1 h']
      decide)
  · intro t hwt
    have hoptimistic : t.store.optimistic = w.store.optimistic := hwt .optimistic (by decide)
    have henv : t.env = w.env := hwt .env (by decide)
    refine (openDispute_sat id t).andThen fun p v hv => ?_
    obtain ⟨hstored,hcontested,rfl⟩ := hv
    rw [hoptimistic] at hstored
    rw [henv] at hcontested
    exact hsettle p hstored hcontested v (hwt .bounds (by decide))

theorem resolveDispute_sat {id : Nat} {resolution : Bool}
    (hA : resolution = true → ∀ p ∈ w.store.optimistic.proposal id,
      contested p w.env.sequence = true → A w.store.bounds p.asset p.price) :
    Sat (resolveDispute id resolution) w fun _ w' => R w w' := by
  refine onDispute_sat hR fun p hstored hcontested v hbounds => ?_
  have huphold : Sat (upholdProposal p resolution) v fun _ u => R v u := by
    unfold upholdProposal
    split_ifs with hres
    · have hA' : A v.store.bounds p.asset p.price := by
        rw [hbounds]
        exact hA hres p hstored hcontested
      exact snapshot_sat hR hP hA' p.timestamp 1 _
    · exact (sat_pure _).2 (Std.Refl.refl v)
  refine huphold.andThen fun _ u hvu => ?_
  exact (hR.frame (writeProposal_frame _) (by decide)).from hvu

omit [Std.Refl R] in
theorem resolveViaExternalData_sat {id : Nat} {externalPrice : Int} (proof : ExternalDataProof)
    (hA : ∀ p ∈ w.store.optimistic.proposal id,
      contested p w.env.sequence = true → A w.store.bounds p.asset externalPrice) :
    Sat (resolveViaExternalData id externalPrice proof) w fun _ w' => R w w' := by
  refine onDispute_sat hR fun p hstored hcontested v hbounds => ?_
  have hproof := checkExternalProof_frame externalPrice proof
  refine ((hR.frame hproof (by decide) v).and (hproof v)).andThen fun _ u hu => ?_
  have hbounds' : u.store.bounds = w.store.bounds := (hu.2 .bounds (by decide)).trans hbounds
  have hA' : A u.store.bounds p.asset externalPrice := by
    rw [hbounds']
    exact hA p hstored hcontested
  rw [sat_bind,sat_getSequence]
  refine (snapshot_sat hR hP hA' proof.timestamp 1 _).andThen fun _ s hus => ?_
  have hvs : R v s := IsTrans.trans v u s hu.1 hus
  exact (hR.frame (writeProposal_frame _) (by decide)).from hvs

omit [Std.Refl R] in
/-- The placeholders of a migration are allowed where `A` admits zero. -/
theorem migrateStorage_tolerated {batchSize : Nat} (hA : w.store.adminSigns w.env = true →
    ∀ asset ∈ w.store.nextBatch w.env batchSize, w.store.aggregate asset = none →
      A w.store.bounds asset 0) : Sat (migrateStorage batchSize) w fun _ u => R w u := by
  refine migrateStorage_run (I := fun t => R w t ∧ t.store.bounds = w.store.bounds ∧
    ∀ asset, t.store.aggregate asset = none → w.store.aggregate asset = none)
    (fun admin => ⟨hR.ignored _ _ (authorizedBy_off admin (by decide)),rfl,fun _ h => h⟩)
    (fun hsigned asset hbatch t ht => ?_) fun f t ht => ?_
  · obtain ⟨hwt,hbounds,hmissing⟩ := ht
    refine (initializeAggregate_writes asset t).mono fun _ u hu => ?_
    rcases hu with rfl | ⟨hnone,hwrites⟩
    · exact ⟨hwt,hbounds,hmissing⟩
    have hadmitted : A t.store.bounds asset 0 := by
      rw [hbounds]
      exact hA hsigned asset hbatch (hmissing asset hnone)
    refine ⟨IsTrans.trans w t u hwt (hR.write asset _ t u (hP.migration t asset hnone hadmitted)
      hwrites),?_,fun a ha => hmissing a ?_⟩
    · exact (hwrites.rest .bounds (by decide)).trans hbounds
    · rw [hwrites.aggregate] at ha
      by_cases hasset : a = asset
      · rw [hasset,Function.update_self] at ha
        cases ha
      · rwa [Function.update_of_ne hasset] at ha
  · exact ((hR.frame (modifyMigration_frame f) (by decide)).from ht.1)

omit [Std.Refl R] [IsTrans World R] hP in
theorem proposePrice_preserves (proposer asset : Address) (price : Int) (timestamp : Nat)
    (bondAmount : Int) : Preserves R (proposePrice proposer asset price timestamp bondAmount) :=
  hR.frame (proposePrice_frame proposer asset price timestamp bondAmount) (by decide)

/-- Every call moves along the relation, as long as it settles what `A` and `B` ask for. -/
theorem PriceCall.body_sat (call : PriceCall) (hcall : Settles A B w.env w.store call) :
    Sat call.body w fun _ w' => R w w' := by
  cases call with
  | aggregate call => exact call.body_preserves (hR.aggregation hP) w
  | triggerAggregation asset =>
    refine (triggerAggregation_writes asset w).mono fun _ w' hw => ?_
    obtain ⟨value,hwrites⟩ := hw
    exact hR.write asset value w w' (hP.trigger w asset value hcall) hwrites
  | correctPrice asset newPrice reason =>
    refine (correctPrice_writes asset newPrice reason w).andThen fun _ w' hw => (sat_pure _).2 ?_
    obtain ⟨previous,timestamp,hprevious,hadmits,hwrites⟩ := hw
    exact hR.write asset _ w w'
      (hP.correction w asset previous newPrice timestamp hprevious hadmits) hwrites
  | proposePrice proposer asset price timestamp bondAmount =>
    exact ((proposePrice_preserves hR proposer asset price timestamp bondAmount).bind fun _ =>
      preserves_pure _) w
  | disputeProposal disputer id =>
    exact hR.frame (disputeProposal_frame disputer id) (by decide) w
  | resolveDispute id resolution => exact resolveDispute_sat hR hP hcall
  | resolveViaExternalData id externalPrice proof =>
    exact resolveViaExternalData_sat hR hP proof hcall
  | getProposal id => exact (getProposal_sat hR hP hcall).andThen fun _ _ h => (sat_pure _).2 h
  | getActiveProposals =>
    exact (getActiveProposals_sat hR hP hcall).andThen fun _ _ h => (sat_pure _).2 h
  | migrateStorage batchSize => exact migrateStorage_tolerated hR hP hcall
  | setBounds asset arg => exact hR.setBounds asset arg w
  | clearBounds asset => exact hR.clearBounds asset w

end Calls

end PriceOracle.Aggregation

/-! ## Relations that every price call keeps

A commit, a trigger, a correction, a snapshot of the optimistic oracle and a migration each publish a
value in their own way. A relation that holds of these five, and that ignores the records no published
value is kept in, holds of every call. -/

namespace PriceOracle.Aggregation

open Lib.Transaction Model

/-- The regions that price calls write besides aggregates, history and corrections. -/
def unpublished : List Region :=
  [.rounds, .stats, .relayers, .feeMarket, .submissions, .auths, .provenance, .optimistic, .bounds,
    .flags, .suspension, .migration]

/-- A relation within one call that holds of every publication and ignores everything else. -/
structure RespectsPrices (R : World → World → Prop) : Prop where
  env : ∀ w w', R w w' → w'.env = w.env
  ignored : ∀ w w', layout.agreeOff unpublished w w' → R w w'
  commit : ∀ asset decimals recompute d w, Concluded w.env w.store asset d →
    Sat (commitRound asset w.env.sequence decimals recompute d) w fun _ w' => R w w'
  trigger : ∀ asset, Preserves R (triggerAggregation asset)
  correct : ∀ asset newPrice reason, Preserves R (correctPrice asset newPrice reason)
  snapshot : ∀ asset price timestamp numSources w,
    Sat (writePriceSnapshot asset price timestamp numSources w.env.sequence) w fun _ w' => R w w'
  placeholder : ∀ asset, Preserves R (initializeAggregate asset)

section Calls

variable {R : World → World → Prop} (hR : RespectsPrices R)

include hR

theorem RespectsPrices.frame {α : Type} {T : List Region} {m : Contract α} (hm : Frame T m)
    (hT : T ⊆ unpublished) : Preserves R m :=
  (hm.mono hT).weaken hR.ignored

theorem RespectsPrices.aggregation : RespectsAggregation R where
  ignored w w' h := hR.ignored w w' fun r hr => h r fun hb => hr (by revert hb; cases r <;> decide)
  commit := hR.commit

theorem writeProposal_preserves (p : OptimisticProposal) : Preserves R (writeProposal p) :=
  hR.frame (writeProposal_frame p) (by decide)

variable [Std.Refl R] [IsTrans World R]

theorem asAdmin_preserves {α : Type} {body : Contract α} (hbody : Preserves R body) :
    Preserves R (asAdmin body) :=
  .lookup fun admin => (hR.frame (requireAuth_frame admin) (by decide)).bind fun _ => hbody

/-- The snapshot of a proposal past its window is dated by the ledger of the call. -/
theorem finalizeIfExpired_preserves (p : OptimisticProposal) :
    Preserves R (finalizeIfExpired p) := by
  intro w
  unfold finalizeIfExpired
  rw [sat_bind,sat_getSequence]
  split_ifs
  · exact preserves_pure p w
  · exact ((writeProposal_preserves hR _).bind fun _ => preserves_pure _) w
  · exact preserves_pure p w
  · refine (writeProposal_preserves hR _ w).andThen fun _ t ht => ?_
    rw [← hR.env w t ht]
    refine (hR.snapshot p.asset p.price p.timestamp 1 t).andThen fun _ u hu => ?_
    exact (sat_pure _).2 (IsTrans.trans w t u ht hu)

theorem openDispute_preserves (id : Nat) : Preserves R (openDispute id) :=
  .lookup fun stored => (finalizeIfExpired_preserves hR stored).bind fun _ => .check fun _ =>
    .check fun _ => preserves_pure _

omit [IsTrans World R] in
theorem upholdProposal_preserves (p : OptimisticProposal) (resolution : Bool) :
    Preserves R (upholdProposal p resolution) := by
  intro w
  unfold upholdProposal
  split_ifs
  · exact hR.snapshot p.asset p.price p.timestamp 1 w
  · exact preserves_pure () w

theorem getProposal_preserves (id : Nat) : Preserves R (getProposal id) := by
  apply Preserves.read
  intro stored
  cases stored with
  | none => exact preserves_pure _
  | some p => exact (finalizeIfExpired_preserves hR p).bind fun _ => preserves_pure _

theorem getActiveProposals_preserves : Preserves R getActiveProposals := by
  intro count
  apply preserves_foldlM
  intro id _ active
  apply Preserves.read
  intro stored
  cases stored with
  | none => exact preserves_pure _
  | some p => exact (finalizeIfExpired_preserves hR p).bind fun _ => preserves_pure _

theorem resolveViaExternalData_preserves (id : Nat) (price : Int) (proof : ExternalDataProof) :
    Preserves R (resolveViaExternalData id price proof) := by
  apply asAdmin_preserves hR
  apply (openDispute_preserves hR id).bind
  intro p
  apply (hR.frame (checkExternalProof_frame price proof) (by decide)).bind
  intro _ w
  rw [sat_bind,sat_getSequence]
  refine (hR.snapshot p.asset price proof.timestamp 1 w).andThen fun _ t ht => ?_
  exact (writeProposal_preserves hR _).from ht

/-- Every call that can write an aggregate. -/
theorem PriceCall.body_preserves (call : PriceCall) : Preserves R call.body := by
  cases call with
  | aggregate call => exact call.body_preserves hR.aggregation
  | triggerAggregation asset => exact hR.trigger asset
  | correctPrice asset newPrice reason =>
    exact (hR.correct asset newPrice reason).bind fun _ => preserves_pure _
  | proposePrice proposer asset price timestamp bond =>
    exact (hR.frame (proposePrice_frame proposer asset price timestamp bond)
      (by decide)).bind fun _ => preserves_pure _
  | disputeProposal disputer id =>
    exact hR.frame (disputeProposal_frame disputer id) (by decide)
  | resolveDispute id resolution =>
    exact asAdmin_preserves hR ((openDispute_preserves hR id).bind fun p =>
      (upholdProposal_preserves hR p resolution).bind fun _ => writeProposal_preserves hR _)
  | resolveViaExternalData id price proof =>
    exact resolveViaExternalData_preserves hR id price proof
  | getProposal id => exact (getProposal_preserves hR id).bind fun _ => preserves_pure _
  | getActiveProposals =>
    exact (getActiveProposals_preserves hR).bind fun _ => preserves_pure _
  | migrateStorage batchSize =>
    exact fun w => migrateStorage_run (I := R w)
      (fun admin => hR.ignored _ _ (authorizedBy_off admin (by decide)))
      (fun _ asset _ t ht => (hR.placeholder asset).from ht)
      fun f t ht => (hR.frame (modifyMigration_frame f) (by decide)).from ht
  | setBounds asset arg => exact hR.frame (setBounds_frame asset arg) (by decide)
  | clearBounds asset => exact hR.frame (clearBounds_frame asset) (by decide)

end Calls

end PriceOracle.Aggregation
