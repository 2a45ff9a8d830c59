import PriceOracle.Lib.Run
import PriceOracle.Model.Invocation
import PriceOracle.Model.StorageTier

/-! # The migration cursor

A migration scans the registered assets in batches and gives each an aggregate. It is complete when
the scan is, provided that no batch wraps the cursor and that no asset without an aggregate comes to
lie before it in the meantime. -/

namespace PriceOracle.Migration

open Model Lib.Transaction Lib.MachineInt Lib.Run Lib.Scan

/-- The aggregates once each of the assets has one. -/
def filled (st : Store) (assets : List Address) : Map Address AggregatePrice := fun a =>
  if a ∈ assets ∧ st.aggregate a = none then some st.zeroAggregate else st.aggregate a

def HasAggregate (st : Store) (asset : Address) : Prop := (st.aggregate asset).isSome = true

deriving instance Decidable for HasAggregate

section Batches

variable {w : World} {st : Store} {assets : List Address} {a : Address}

theorem filled_some {g : AggregatePrice} (h : st.aggregate a = some g) :
    filled st assets a = some g := by
  simp [filled,h]

theorem filled_isSome (h : a ∈ assets ∨ (st.aggregate a).isSome = true) :
    (filled st assets a).isSome = true := by
  unfold filled
  cases hagg : st.aggregate a with
  | some g => simp
  | none =>
    rw [hagg] at h
    simpa using h

theorem filled_cons (asset : Address) :
    filled { st with aggregate := filled st [asset] } assets = filled st (asset :: assets) := by
  funext x
  simp only [filled,Store.zeroAggregate,Store.getDecimals,List.mem_cons]
  by_cases hx : x = asset
  · cases hagg : st.aggregate x <;> simp [hx]
  · simp [hx]

theorem initializeAggregate_sat (asset : Address) :
    Sat (initializeAggregate asset) w fun _ w' =>
      w'.store = { w.store with aggregate := filled w.store [asset] } := by
  simp only [initializeAggregate,sat_bind,sat_readStore]
  cases hagg : w.store.aggregate asset with
  | none =>
    refine (sat_update _ _).2 ?_
    have hfilled : filled w.store [asset] =
        Function.update w.store.aggregate asset (some w.store.zeroAggregate) := by
      funext x
      by_cases hx : x = asset
      · simp [filled,hx,hagg]
      · simp [filled,hx]
    rw [hfilled]
  | some g =>
    refine (sat_pure _).2 ?_
    have hfilled : filled w.store [asset] = w.store.aggregate := by
      funext x
      by_cases hx : x = asset
      · simp [filled,hx,hagg]
      · simp [filled,hx]
    rw [hfilled]

theorem initializeAggregates_sat (assets : List Address) :
    Sat (forM assets initializeAggregate) w fun _ w' =>
      w'.store = { w.store with aggregate := filled w.store assets } := by
  induction assets generalizing w with
  | nil =>
    refine (sat_pure _).2 ?_
    have hfilled : filled w.store [] = w.store.aggregate := by
      funext x
      simp [filled]
    rw [hfilled]
  | cons asset assets ih =>
    rw [List.forM_cons,sat_bind]
    refine (initializeAggregate_sat asset).mono fun _ u hu => ih.mono fun _ v hv => ?_
    rw [hv,hu,filled_cons]

/-- The storage after a batch from version 1. -/
def migrated (st : Store) (state : MigrationState) (batch : Nat) : Store :=
  let assets := st.registry.assets
  let stop := batchEnd state.cursor batch assets.length
  if assets.length ≤ state.cursor then
    { st with migration := { st.migration with version := some currentVersion, state := none } }
  else
    { st with
      aggregate := filled st ((assets.take stop).drop state.cursor)
      migration := if assets.length ≤ stop then
          { st.migration with version := some currentVersion, state := none }
        else { st.migration with state := some { state with cursor := stop } } }

theorem resumeMigration_sat {state : MigrationState} {batch : Nat} (hfrom : state.fromVersion = 1)
    (hto : state.toVersion = currentVersion) :
    Sat (resumeMigration state batch) w fun _ w' => w'.store = migrated w.store state batch := by
  have hversions : state.fromVersion = 1 ∧ state.toVersion = 2 := ⟨hfrom,hto⟩
  simp only [resumeMigration,runMigrationStep,if_pos hversions,migrateV1ToV2,sat_bind,
    sat_readStore]
  by_cases hdone : w.store.registry.assets.length ≤ state.cursor
  · simp [migrated,hdone,hto]
  · rw [if_neg hdone,sat_bind]
    refine (initializeAggregates_sat _).mono fun _ u hu => ?_
    by_cases hend : w.store.registry.assets.length ≤
        batchEnd state.cursor batch w.store.registry.assets.length
    · simp [migrated,hdone,hend,hu,hto]
    · simp [migrated,hdone,hend,hu]

end Batches

/-- What a batch makes of a migration. -/
inductive Progress (st : Store) (state : MigrationState) (st' : Store) : Prop
  | complete (hversion : st'.migration.version = some currentVersion)
    (hstate : st'.migration.state = none) (hall : ∀ a ∈ st.registry.assets, HasAggregate st' a)
  | pause (cursor : Nat) (hforward : state.cursor ≤ cursor)
    (hversion : st'.migration.version = st.migration.version)
    (hstate : st'.migration.state = some { state with cursor := cursor })
    (hcovered : Covered (HasAggregate st') st.registry.assets cursor)

section Scan

variable {st : Store} {state : MigrationState} {batch : Nat}

theorem migrated_registry : (migrated st state batch).registry = st.registry := by
  unfold migrated
  dsimp only
  split_ifs <;> rfl

theorem migrated_keeps {a : Address} {g : AggregatePrice} (h : st.aggregate a = some g) :
    (migrated st state batch).aggregate a = some g := by
  unfold migrated
  dsimp only
  split_ifs
  · exact h
  · exact filled_some h
  · exact filled_some h

theorem le_batchEnd {cursor total : Nat} (hcursor : cursor < total)
    (hfits : cursor + batch ≤ u32Max) : cursor ≤ batchEnd cursor batch total := by
  have hsum : wrap32 (cursor + batch) = cursor + batch := by
    unfold wrap32
    unfold u32Max at hfits
    omega
  rw [batchEnd,hsum]
  omega

theorem migrated_progress (hcovered : Covered (HasAggregate st) st.registry.assets state.cursor)
    (hfits : state.cursor < st.registry.assets.length → state.cursor + batch ≤ u32Max) :
    Progress st state (migrated st state batch) := by
  by_cases hdone : st.registry.assets.length ≤ state.cursor
  · have hst : migrated st state batch = { st with
        migration := { st.migration with version := some currentVersion, state := none } } := by
      simp [migrated,hdone]
    rw [hst]
    exact .complete rfl rfl (hcovered.all hdone)
  · have hlt : state.cursor < st.registry.assets.length := Nat.not_le.1 hdone
    have hforward : state.cursor ≤ batchEnd state.cursor batch st.registry.assets.length :=
      le_batchEnd hlt (hfits hlt)
    have hnext : Covered (HasAggregate (migrated st state batch)) st.registry.assets
        (batchEnd state.cursor batch st.registry.assets.length) := by
      refine Covered.advance (c := state.cursor) (hcovered.imp fun x hx => ?_) fun x hx => ?_
      · obtain ⟨g,hg⟩ := Option.isSome_iff_exists.1 hx
        rw [HasAggregate,migrated_keeps hg]
        rfl
      · have hfilled : (filled st _ x).isSome = true := filled_isSome (.inl hx)
        simpa [HasAggregate,migrated,hdone] using hfilled
    by_cases hend : st.registry.assets.length ≤
        batchEnd state.cursor batch st.registry.assets.length
    · exact .complete (by simp [migrated,hdone,hend]) (by simp [migrated,hdone,hend])
        (hnext.all hend)
    · exact .pause _ hforward (by simp [migrated,hdone,hend]) (by simp [migrated,hdone,hend])
        hnext

end Scan

inductive MigrationCall
  | migrateStorage (batchSize : Nat)
  | registerAsset (asset : Address)
  | unregisterAsset (asset : Address)

def MigrationCall.body : MigrationCall → Contract Unit
  | migrateStorage batchSize => Model.migrateStorage batchSize
  | registerAsset asset => Model.registerAsset asset
  | unregisterAsset asset => Model.unregisterAsset asset

/-- A call, or a change of storage that leaves the migration as it is, removes no aggregate and at most
indexes assets that are registered. -/
inductive MigrationAct
  | call (call : MigrationCall)
  | elsewhere (rest : Store)

structure MigrationTx where
  env : Env
  act : MigrationAct

def execMigration (st : Store) (t : MigrationTx) : Store :=
  match t.act with
  | .call call => invoke call.body t.env st
  | .elsewhere rest =>
    { rest with
      registry := { rest.registry with
        assetIndex := fun a =>
          if st.isRegisteredAsset a = true ∧ rest.registry.assetIndex a = some true then some true
          else st.registry.assetIndex a
        assetRegistered := st.registry.assetRegistered
        assets := st.registry.assets }
      migration := st.migration
      aggregate := fun a => (rest.aggregate a).or (st.aggregate a) }

section Calls

variable {w : World}

/-- A migration goes on from the saved state, or starts from version 1. -/
theorem migrateStorage_sat (batchSize : Nat) :
    Sat (Model.migrateStorage batchSize) w fun _ w' =>
      (∀ state, w.store.migration.state = some state → state.fromVersion = 1 →
        state.toVersion = currentVersion →
        w'.store = migrated w.store state (effectiveBatch batchSize)) ∧
      (w.store.migration.state = none → currentVersion ≤ w.store.getStorageVersion →
        w'.store = { w.store with
          migration := { w.store.migration with version := some currentVersion } }) ∧
      (w.store.migration.state = none → w.store.getStorageVersion = 1 →
        w'.store = migrated w.store ⟨1,currentVersion,0,w.env.sequence,.inProgress⟩
          (effectiveBatch batchSize)) := by
  refine (sat_asAdmin _).2 fun admin _ _ => ?_
  simp only [sat_bind,sat_readStore,authorizedBy_store]
  cases hstate : w.store.migration.state with
  | some state =>
    by_cases hversions : state.fromVersion = 1 ∧ state.toVersion = currentVersion
    · refine (resumeMigration_sat hversions.1 hversions.2).mono fun _ u hu => ?_
      refine ⟨fun x hx _ _ => ?_,fun h => (by cases h),fun h => (by cases h)⟩
      rw [Option.some.injEq] at hx
      rw [← hx]
      exact hu
    · intro _ u _
      refine ⟨fun x hx hfrom hto => ?_,fun h => (by cases h),fun h => (by cases h)⟩
      rw [Option.some.injEq] at hx
      subst hx
      exact absurd ⟨hfrom,hto⟩ hversions
  | none =>
    simp only [sat_bind,sat_readStore,authorizedBy_store]
    refine sat_ite _ (fun hcurrent => ?_) fun hcurrent => ?_
    · rw [modifyMigration,sat_update]
      refine ⟨fun x hx => (by cases hx),fun _ _ => by simp [hstate],fun _ hone => ?_⟩
      rw [hone] at hcurrent
      exact absurd hcurrent (by decide)
    · by_cases hone : w.store.getStorageVersion = 1
      · rw [hone]
        refine (resumeMigration_sat rfl rfl).mono fun _ u hu => ?_
        refine ⟨fun x hx => (by cases hx),fun _ h => absurd h (by decide),fun _ _ => hu⟩
      · intro _ u _
        exact ⟨fun x hx => (by cases hx),fun _ h => absurd h hcurrent,fun _ h => absurd h hone⟩

theorem registerAsset_sat (asset : Address) :
    Sat (Model.registerAsset asset) w fun _ w' =>
      w'.store.registry = w.store.registry.register asset ∧
        w'.store.aggregate = w.store.aggregate ∧ w'.store.migration = w.store.migration := by
  refine (sat_asAdmin _).2 fun admin _ _ => ?_
  simp only [initializeAssetPriceBounds,modifyGates,sat_bind,sat_readStore,sat_ensure,
    sat_update,authorizedBy_store]
  simp

theorem isRegisteredAsset_unregister {st : Store} {asset a : Address}
    {aggregate : Map Address AggregatePrice}
    (h : Store.isRegisteredAsset { st with
      registry := st.registry.unregister asset
      aggregate := aggregate } a = true) : a ≠ asset ∧ st.isRegisteredAsset a = true := by
  unfold Store.isRegisteredAsset Registry.unregister at h
  by_cases ha : a = asset
  · simp [ha] at h
  · simp only [Function.update_of_ne ha] at h
    exact ⟨ha,h⟩

theorem unregisterAsset_sat (asset : Address) :
    Sat (Model.unregisterAsset asset) w fun _ w' =>
      w'.store.registry.assets = (w.store.registry.assets.filter fun a => a ≠ asset) ∧
        (∀ a, w'.store.isRegisteredAsset a = true →
          a ≠ asset ∧ w.store.isRegisteredAsset a = true) ∧
        w'.store.aggregate = Function.update w.store.aggregate asset none ∧
        w'.store.migration = w.store.migration := by
  refine (sat_asAdmin _).2 fun admin _ _ => ?_
  rw [sat_bind]
  refine (checkRegisteredAsset_sat asset _).mono ?_
  rintro _ u ⟨_,hu⟩
  have hreg : u.store.isRegisteredAsset = w.store.isRegisteredAsset :=
    congrArg Prod.fst (hu .registry (by simp))
  have hassets : u.store.registry.assets = w.store.registry.assets :=
    congrArg (fun v => v.2.1) (hu .registry (by simp))
  have hagg : u.store.aggregate = w.store.aggregate :=
    congrArg Prod.fst (hu .aggregates (by simp))
  have hmig : u.store.migration = w.store.migration := hu .migration (by simp)
  rw [sat_update]
  refine ⟨?_,fun a ha => ?_,?_,hmig⟩
  · rw [← hassets]
    rfl
  · rw [← hreg]
    exact isRegisteredAsset_unregister ha
  · rw [← hagg]

end Calls

/-- A migration in progress goes from version 1 to the current one, and the assets before its cursor
have their aggregates. -/
structure Scanning (st : Store) : Prop where
  listed : ∀ a, st.isRegisteredAsset a = true → a ∈ st.registry.assets
  version : st.getStorageVersion = 1 ∨ st.getStorageVersion = currentVersion
  saved : ∀ m, st.migration.state = some m → m.fromVersion = 1 ∧ m.toVersion = currentVersion ∧
    Covered (HasAggregate st) st.registry.assets m.cursor

/-- A step of a migration, or past one. -/
structure Advance (st st' : Store) : Prop where
  scanning : Scanning st'
  complete : st.getStorageVersion ≠ currentVersion → st'.getStorageVersion = currentVersion →
    ∀ a, st'.isRegisteredAsset a = true → HasAggregate st' a
  forward : ∀ m m', st.migration.state = some m → st'.migration.state = some m' →
    m.cursor ≤ m'.cursor

section Advance

variable {st st' : Store}

theorem Scanning.stay (h : Scanning st) : Advance st st where
  scanning := h
  complete hbefore hafter := absurd hafter hbefore
  forward m m' hm hm' := by
    rw [hm,Option.some.injEq] at hm'
    exact Nat.le_of_eq (congrArg MigrationState.cursor hm')

/-- A change that leaves the migration as it is. -/
theorem Scanning.aside (h : Scanning st) (hmig : st'.migration = st.migration)
    (hlisted : ∀ a, st'.isRegisteredAsset a = true → a ∈ st'.registry.assets)
    (hcovered : ∀ m, st.migration.state = some m →
      Covered (HasAggregate st') st'.registry.assets m.cursor) : Advance st st' := by
  have hversion : st'.getStorageVersion = st.getStorageVersion := by
    rw [Store.getStorageVersion,hmig]
    rfl
  refine ⟨⟨hlisted,?_,fun m hm => ?_⟩,fun hbefore hafter => ?_,fun m m' hm hm' => ?_⟩
  · rw [hversion]
    exact h.version
  · rw [hmig] at hm
    exact ⟨(h.saved m hm).1,(h.saved m hm).2.1,hcovered m hm⟩
  · rw [hversion] at hafter
    exact absurd hafter hbefore
  · rw [hmig,hm,Option.some.injEq] at hm'
    exact Nat.le_of_eq (congrArg MigrationState.cursor hm')

theorem Scanning.batch {state : MigrationState} (h : Scanning st) (hp : Progress st state st')
    (hreg : st'.registry = st.registry)
    (hversions : state.fromVersion = 1 ∧ state.toVersion = currentVersion)
    (hstate : ∀ m, st.migration.state = some m → m = state) : Advance st st' := by
  have hlisted (a : Address) (ha : st'.isRegisteredAsset a = true) : a ∈ st'.registry.assets := by
    unfold Store.isRegisteredAsset at ha
    rw [hreg] at ha ⊢
    exact h.listed a ha
  cases hp with
  | complete hversion hnone hall =>
    refine ⟨⟨hlisted,.inr ?_,fun m hm => ?_⟩,fun _ _ a ha => ?_,fun m m' _ hm' => ?_⟩
    · rw [Store.getStorageVersion,hversion]
      rfl
    · rw [hnone] at hm
      cases hm
    · apply hall
      rw [← hreg]
      exact hlisted a ha
    · rw [hnone] at hm'
      cases hm'
  | pause cursor hforward hversion hsome hcovered =>
    have hsame : st'.getStorageVersion = st.getStorageVersion := by
      rw [Store.getStorageVersion,hversion]
      rfl
    refine ⟨⟨hlisted,?_,fun m hm => ?_⟩,fun hbefore hafter => ?_,fun m m' hm hm' => ?_⟩
    · rw [hsame]
      exact h.version
    · rw [hsome,Option.some.injEq] at hm
      rw [← hm,hreg]
      exact ⟨hversions.1,hversions.2,hcovered⟩
    · rw [hsame] at hafter
      exact absurd hafter hbefore
    · rw [hsome,Option.some.injEq] at hm'
      rw [← hm',hstate m hm]
      exact hforward

end Advance

def scanCursor (st : Store) : Nat := (st.migration.state.map MigrationState.cursor).getD 0

/-- The list of assets after a call. -/
def MigrationCall.listed (assets : List Address) : MigrationCall → List Address
  | migrateStorage _ => assets
  | registerAsset asset => assets ++ [asset]
  | unregisterAsset asset => assets.filter fun a => a ≠ asset

/-- What comes to lie before the cursor lay there already or has an aggregate. -/
def NoneSkipped (st : Store) (call : MigrationCall) : Prop :=
  ∀ a ∈ (call.listed st.registry.assets).take (scanCursor st),
    a ∈ st.registry.assets.take (scanCursor st) ∨ HasAggregate st a

deriving instance Decidable for NoneSkipped

/-- The sum of the cursor and the batch size does not wrap. -/
def BatchFits (st : Store) (batchSize : Nat) : Prop :=
  scanCursor st < st.registry.assets.length →
    scanCursor st + effectiveBatch batchSize ≤ u32Max

deriving instance Decidable for BatchFits

def Steady (s : Store) (t : MigrationTx) : Prop :=
  match t.act with
  | .call call => Model.failure call.body t.env s = none →
    NoneSkipped s call ∧ ∀ batchSize, call = .migrateStorage batchSize → BatchFits s batchSize
  | .elsewhere _ => True

/-- A migration is complete when it ends, leaves the aggregates that exist as they are and never
moves its cursor backwards. -/
def MigrationSound (s : Store) (t : MigrationTx) : Prop :=
  (s.getStorageVersion ≠ currentVersion → (execMigration s t).getStorageVersion = currentVersion →
    ∀ a, (execMigration s t).isRegisteredAsset a = true → HasAggregate (execMigration s t) a) ∧
  (∀ batchSize, t.act = .call (.migrateStorage batchSize) →
    ∀ a g, s.aggregate a = some g → (execMigration s t).aggregate a = some g) ∧
  ∀ m m', s.migration.state = some m → (execMigration s t).migration.state = some m' →
    m.cursor ≤ m'.cursor

section Steps

variable {w : World} {st : Store} {m : MigrationState} {asset : Address} {env : Env}

theorem Scanning.covered (h : Scanning st) :
    Covered (HasAggregate st) st.registry.assets (scanCursor st) := by
  unfold scanCursor
  cases hstate : st.migration.state with
  | none => exact covered_zero
  | some m => exact (h.saved m hstate).2.2

theorem scanCursor_some (hm : st.migration.state = some m) : scanCursor st = m.cursor := by
  simp [scanCursor,hm]

/-- A batch that does not wrap is a step of the migration. -/
theorem migrateStorage_advance (h : Scanning w.store) {batchSize : Nat}
    (hfits : BatchFits w.store batchSize) :
    Sat (Model.migrateStorage batchSize) w fun _ w' => Advance w.store w'.store := by
  refine (migrateStorage_sat batchSize).mono ?_
  rintro _ u ⟨hresume,hcurrent,hstart⟩
  have hbatch (state : MigrationState) (hcursor : state.cursor = scanCursor w.store) :
      Progress w.store state (migrated w.store state (effectiveBatch batchSize)) := by
    apply migrated_progress
    · rw [hcursor]
      exact h.covered
    · rw [hcursor]
      exact hfits
  cases hstate : w.store.migration.state with
  | some state =>
    obtain ⟨hfrom,hto,-⟩ := h.saved state hstate
    rw [hresume state hstate hfrom hto]
    refine h.batch (hbatch state (scanCursor_some hstate).symm) migrated_registry ⟨hfrom,hto⟩ ?_
    intro m hm
    rw [hstate,Option.some.injEq] at hm
    exact hm.symm
  | none =>
    rcases h.version with hone | htwo
    · rw [hstart hstate hone]
      refine h.batch (hbatch _ ?_) migrated_registry ⟨rfl,rfl⟩ ?_
      · simp [scanCursor,hstate]
      · intro m hm
        rw [hstate] at hm
        cases hm
    · rw [hcurrent hstate (Nat.le_of_eq htwo.symm)]
      refine ⟨⟨h.listed,.inr rfl,fun m hm => ?_⟩,fun hbefore => ?_,fun m _ hm => ?_⟩
      · have hm' : w.store.migration.state = some m := hm
        rw [hstate] at hm'
        cases hm'
      · exact absurd htwo hbefore
      · rw [hstate] at hm
        cases hm

theorem migrateStorage_keeps (h : Scanning w.store) (batchSize : Nat) {a : Address}
    {g : AggregatePrice} (hg : w.store.aggregate a = some g) :
    Sat (Model.migrateStorage batchSize) w fun _ w' => w'.store.aggregate a = some g := by
  refine (migrateStorage_sat batchSize).mono ?_
  rintro _ u ⟨hresume,hcurrent,hstart⟩
  cases hstate : w.store.migration.state with
  | some state =>
    obtain ⟨hfrom,hto,-⟩ := h.saved state hstate
    rw [hresume state hstate hfrom hto]
    exact migrated_keeps hg
  | none =>
    rcases h.version with hone | htwo
    · rw [hstart hstate hone]
      exact migrated_keeps hg
    · rw [hcurrent hstate (Nat.le_of_eq htwo.symm)]
      exact hg

theorem registerAsset_advance (h : Scanning w.store)
    (hnone : NoneSkipped w.store (.registerAsset asset)) :
    Sat (Model.registerAsset asset) w fun _ w' => Advance w.store w'.store := by
  refine (registerAsset_sat asset).mono ?_
  rintro _ u ⟨hreg,hagg,hmig⟩
  refine h.aside hmig (fun a ha => ?_) fun m hm => ?_
  · rw [hreg]
    unfold Store.isRegisteredAsset at ha
    rw [hreg] at ha
    simp only [Registry.register,List.mem_append,List.mem_singleton]
    by_cases h' : a = asset
    · exact .inr h'
    · simp only [Registry.register,Function.update_of_ne h'] at ha
      exact .inl (h.listed a ha)
  · rw [hreg,← scanCursor_some hm]
    have hnow : Covered (HasAggregate w.store) (w.store.registry.assets ++ [asset])
        (scanCursor w.store) := h.covered.change hnone
    refine hnow.imp fun x hx => ?_
    rw [HasAggregate,hagg]
    exact hx

theorem unregisterAsset_advance (h : Scanning w.store)
    (hnone : NoneSkipped w.store (.unregisterAsset asset)) :
    Sat (Model.unregisterAsset asset) w fun _ w' => Advance w.store w'.store := by
  refine (unregisterAsset_sat asset).mono ?_
  rintro _ u ⟨hassets,hflags,hagg,hmig⟩
  refine h.aside hmig (fun a ha => ?_) fun m hm => ?_
  · obtain ⟨hne,hold⟩ := hflags a ha
    rw [hassets,List.mem_filter]
    exact ⟨h.listed a hold,by simpa using hne⟩
  · rw [hassets,← scanCursor_some hm]
    intro x hx
    have hne : x ≠ asset := by simpa using (List.mem_filter.1 (List.mem_of_mem_take hx)).2
    have hnow : HasAggregate w.store x := h.covered.change hnone x hx
    rw [HasAggregate,hagg,Function.update_of_ne hne]
    exact hnow

theorem call_advance (h : Scanning st) {call : MigrationCall}
    (hsteady : Steady st ⟨env,.call call⟩) : Advance st (execMigration st ⟨env,.call call⟩) := by
  dsimp only [execMigration] at hsteady ⊢
  cases hrun : Model.failure call.body env st with
  | some e =>
    rw [invoke_of_failure hrun]
    exact h.stay
  | none =>
    obtain ⟨hnone,hfits⟩ := hsteady hrun
    have hw : Scanning (World.enter env st).store := h
    refine invoke_of_success hrun ?_
    cases call with
    | migrateStorage batchSize => exact migrateStorage_advance hw (hfits batchSize rfl)
    | registerAsset asset => exact registerAsset_advance hw hnone
    | unregisterAsset asset => exact unregisterAsset_advance hw hnone

theorem elsewhere_advance (h : Scanning st) (rest : Store) :
    Advance st (execMigration st ⟨env,.elsewhere rest⟩) := by
  refine h.aside rfl (fun a ha => ?_) fun m hm => ?_
  · apply h.listed a
    unfold Store.isRegisteredAsset at ha ⊢
    by_cases hreg : st.isRegisteredAsset a = true
    · exact hreg
    · simpa [execMigration,hreg] using ha
  · refine (h.saved m hm).2.2.imp fun x hx => ?_
    obtain ⟨g,hg⟩ := Option.isSome_iff_exists.1 hx
    have hor : (execMigration st ⟨env,.elsewhere rest⟩).aggregate x =
        (rest.aggregate x).or (st.aggregate x) := rfl
    rw [HasAggregate,hor,hg]
    cases rest.aggregate x <;> rfl

end Steps

/-- As long as no batch wraps and no asset without an aggregate slips behind the cursor, every run
migrates soundly. -/
theorem migration_sound {st : Store} (ts : List MigrationTx)
    (hlisted : ∀ a, st.isRegisteredAsset a = true → a ∈ st.registry.assets)
    (hversion : st.getStorageVersion = 1) (hstate : st.migration.state = none)
    (hsteady : ∀ x ∈ steps execMigration st ts, Steady x.1 x.2) :
    ∀ x ∈ steps execMigration st ts, MigrationSound x.1 x.2 := by
  have hstart : Scanning st := ⟨hlisted,.inl hversion,fun m hm => by rw [hstate] at hm; cases hm⟩
  have hstep (s : Store) (t : MigrationTx) (h : Scanning s) (ht : Steady s t) :
      MigrationSound s t ∧ Scanning (execMigration s t) := by
    have hadvance : Advance s (execMigration s t) := by
      obtain ⟨env,act⟩ := t
      cases act with
      | call call => exact call_advance h ht
      | elsewhere rest => exact elsewhere_advance h rest
    refine ⟨⟨hadvance.complete,fun batchSize hact a g hg => ?_,hadvance.forward⟩,hadvance.scanning⟩
    unfold execMigration
    rw [hact]
    have hw : Scanning (World.enter t.env s).store := h
    exact invoke_of_sat (P := fun st' => st'.aggregate a = some g) hg
      (migrateStorage_keeps hw batchSize hg)
  exact (steps_satisfy hstep hstart hsteady).1

def migrationStore : Store := { config := { admin := some 9 } }

def registrations : List MigrationTx :=
  [⟨.concrete 100 5 [9], .call (.registerAsset 5)⟩, ⟨.concrete 101 6 [9], .call (.registerAsset 6)⟩,
    ⟨.concrete 102 7 [9], .call (.registerAsset 7)⟩]

/-- The first asset is unregistered once it has been scanned, and the next one takes its place. -/
def skippedRun : List MigrationTx :=
  registrations ++
    [⟨.concrete 103 8 [9], .call (.migrateStorage 1)⟩,
      ⟨.concrete 104 9 [9], .call (.unregisterAsset 5)⟩,
      ⟨.concrete 105 10 [9], .call (.migrateStorage 5)⟩]

theorem migration_skips_asset :
    ¬∀ x ∈ steps execMigration migrationStore skippedRun, MigrationSound x.1 x.2 := by
  intro h
  have hlast := h (run execMigration migrationStore (skippedRun.take 5),
    ⟨.concrete 105 10 [9],.call (.migrateStorage 5)⟩) (by simp [skippedRun,registrations])
  exact absurd (hlast.1 (by decide) (by decide) 6 (by decide)) (by decide)

/-- The registry changes ahead of the cursor only. -/
def steadyRun : List MigrationTx :=
  registrations ++
    [⟨.concrete 103 8 [9], .call (.migrateStorage 2)⟩,
      ⟨.concrete 104 9 [9], .call (.registerAsset 8)⟩,
      ⟨.concrete 105 10 [9], .call (.unregisterAsset 7)⟩,
      ⟨.concrete 106 11 [9], .call (.migrateStorage 5)⟩]

theorem steady_run_sound :
    (∀ x ∈ steps execMigration migrationStore steadyRun, MigrationSound x.1 x.2) ∧
      (run execMigration migrationStore steadyRun).getStorageVersion = currentVersion := by
  refine ⟨migration_sound steadyRun (fun a ha => ?_) rfl rfl ?_,by decide⟩
  · simp [Store.isRegisteredAsset,migrationStore] at ha
  · simp only [steadyRun,registrations,List.cons_append,List.nil_append,steps_cons,steps_nil,
      List.forall_mem_cons]
    refine ⟨fun _ => ⟨by decide,?_⟩,fun _ => ⟨by decide,?_⟩,fun _ => ⟨by decide,?_⟩,
      fun _ => ⟨by decide,?_⟩,fun _ => ⟨by decide,?_⟩,fun _ => ⟨by decide,?_⟩,
      fun _ => ⟨by decide,?_⟩,by simp⟩
    all_goals
      intro batchSize hcall
      cases hcall
    · decide
    · decide

end PriceOracle.Migration
