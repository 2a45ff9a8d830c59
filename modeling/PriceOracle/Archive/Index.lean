import PriceOracle.Aggregation.Writers
import PriceOracle.Archive.Listing
import PriceOracle.Archive.Retention

/-! # The index over whole runs

Aggregations and the snapshots of the optimistic oracle write history; pruning, compaction, sharding
and the storage tiers rearrange it. Whatever else happens to storage in between, a ledger of the
asset is readable exactly when it is indexed. -/

namespace PriceOracle.Archive

open Lib.Transaction Lib.Run Model Aggregation

/-- The index of the asset stays the list of its readable ledgers. -/
structure KeepsIndex (asset : Address) (w w' : World) : Prop where
  env : w'.env = w.env
  upToDate : UpToDate asset w.env.sequence w.store.history →
    UpToDate asset w.env.sequence w'.store.history

section Steps

variable {asset : Address} {w w' : World} {p p' : Provenance} {T : List Region}

instance : Std.Refl (KeepsIndex asset) := ⟨fun _ => ⟨rfl, fun h => h⟩⟩

instance : IsTrans World (KeepsIndex asset) where
  trans w v u hwv hvu := by
    constructor
    · exact hvu.env.trans hwv.env
    · intro h
      have hnext := hvu.upToDate
      rw [hwv.env] at hnext
      exact hnext (hwv.upToDate h)

theorem keepsIndex_of_frame (h : layout.agreeOff T w w')
    (hT : ∀ r ∈ [Region.env,.history], r ∉ T) : KeepsIndex asset w w' := by
  constructor
  · exact h .env (hT _ (by simp))
  · have hhistory : w'.store.history = w.store.history := h .history (hT _ (by simp))
    rw [hhistory]
    exact fun h => h

theorem keepsIndex_frame {α : Type} {m : Contract α} (hm : Frame T m)
    (hT : ∀ r ∈ [Region.env,.history], r ∉ T) : Preserves (KeepsIndex asset) m :=
  hm.weaken fun _ _ h => keepsIndex_of_frame h hT

theorem upToDate_agreeOn {ledger : Nat} {h h' : History}
    (hagree : Archive.AgreeOn asset ⟨h,p⟩ ⟨h',p'⟩) (hc : UpToDate asset ledger h) :
    UpToDate asset ledger h' := by
  have hindex : h'.ledgerList asset = h.ledgerList asset := hagree.ledgerList
  unfold UpToDate
  rw [hindex]
  exact Catalogued.agreeOn hagree hc

/-- A new history for `a` that is up to date whenever it is the asset's own. -/
theorem keepsIndex_of_history {a : Address} (henv : w'.env = w.env)
    (hself : UpToDate a w.env.sequence w.store.history → UpToDate a w.env.sequence w'.store.history)
    (hother : asset ≠ a → Archive.AgreeOn asset ⟨w.store.history,p⟩ ⟨w'.store.history,p'⟩) :
    KeepsIndex asset w w' := by
  constructor
  · exact henv
  · intro h
    by_cases ha : asset = a
    · subst ha
      exact hself h
    · exact upToDate_agreeOn (hother ha) h

theorem commitRound_keepsIndex (a : Address) (decimals : Nat) (recompute : Bool) (d : Decision)
    (w : World) :
    Sat (commitRound a w.env.sequence decimals recompute d) w fun _ w' =>
      KeepsIndex asset w w' := by
  refine ((commitRound_sat a w.env.sequence decimals recompute d w).and
    (commitRound_frame a w.env.sequence decimals recompute d w)).mono fun _ w' hw => ?_
  obtain ⟨⟨pub,-,-,hcommit⟩,hframe⟩ := hw
  apply keepsIndex_of_history (a := a) (hframe .env (by decide))
  · intro h
    rw [hcommit.history]
    exact upToDate_archiveRound h pub
  · intro ha
    rw [hcommit.history]
    exact Archive.agreeOn_archiveRound ha w.env w.store w.env.sequence pub

theorem writePriceSnapshot_keepsIndex (a : Address) (price : Int) (timestamp numSources : Nat)
    (w : World) :
    Sat (writePriceSnapshot a price timestamp numSources w.env.sequence) w fun _ w' =>
      KeepsIndex asset w w' := by
  unfold writePriceSnapshot
  simp only [sat_bind,sat_readStore,sat_writeAggregate,modifyHistory,sat_update]
  apply keepsIndex_of_history (a := a)
  · rfl
  · intro h
    exact upToDate_snapshotHistory h rfl
  · intro ha
    exact agreeOn_snapshotHistory ha w.store.provenance w.env _ _

theorem keepsIndex_respects : RespectsPrices (KeepsIndex asset) where
  env _ _ h := h.env
  ignored _ _ h := keepsIndex_of_frame h (by decide)
  commit a decimals recompute d w _ := commitRound_keepsIndex a decimals recompute d w
  trigger a := keepsIndex_frame (triggerAggregation_frame a) (by decide)
  correct a newPrice reason := keepsIndex_frame (correctPrice_frame a newPrice reason) (by decide)
  snapshot := writePriceSnapshot_keepsIndex
  placeholder a := keepsIndex_frame (initializeAggregate_frame a) (by decide)

end Steps

section Administration

variable {asset : Address} (a : Address)

theorem pruneHistory_keepsIndex (targetEntries : Nat) :
    Preserves (KeepsIndex asset) (pruneHistory a targetEntries) := by
  apply asAdmin_preserves keepsIndex_respects
  apply (keepsIndex_frame (T := []) (checkRegisteredAsset_frame a) (by decide)).bind
  intro _ w
  simp only [sat_bind,sat_readStore,modifyHistory,sat_update,sat_pure]
  set index := w.store.history.ledgerList a
  set kept := trimHistory a targetEntries index w.store.history
  apply keepsIndex_of_history (a := a)
  · rfl
  · intro h
    have htrimmed : Catalogued a w.env.sequence kept.1 kept.2 := Catalogued.trimHistory h _
    split_ifs with hpruned
    · exact UpToDate.setLedgers htrimmed
    · -- nothing was dropped, so the stored index is the one the loop returns
      have hlen : index.length ≤ kept.1.length := by omega
      have hsame : kept.1 = index :=
        (trimHistory_suffix targetEntries index w.store.history).eq_of_length_le hlen
      rw [hsame] at htrimmed
      exact UpToDate.of_ledgers (trimHistory_ledgers _ _ _) htrimmed
  · intro ha
    have htrimmed := agreeOn_trimHistory ha w.store.provenance targetEntries index w.store.history
    split_ifs
    · exact htrimmed.trans (Archive.agreeOn_setLedgers (a := ⟨kept.2,_⟩) ha kept.1)
    · exact htrimmed

theorem compactHistory_keepsIndex : Preserves (KeepsIndex asset) (compactHistory a) := by
  apply (keepsIndex_frame (T := []) (checkRegisteredAsset_frame a) (by decide)).bind
  intro _ w
  simp only [sat_bind,sat_getSequence,sat_readStore]
  split
  · next first next rest hindex =>
    split_ifs
    · simp only [sat_bind,modifyRounds,sat_update,sat_pure]
      exact ⟨rfl,fun h => h⟩
    · simp only [sat_bind,sat_readStore,modifyHistory,sat_update,modifyRounds,sat_pure]
      apply keepsIndex_of_history (a := a)
      · rfl
      · intro h
        unfold UpToDate at h
        rw [hindex] at h
        apply UpToDate.setLedgers
        exact h.compacted (by simp)
      · intro ha
        exact agreeOn_compacted ha w.store.provenance w.store.history first (next :: rest)
  · simp only [sat_bind,modifyRounds,sat_update,sat_pure]
    exact ⟨rfl,fun h => h⟩

theorem migrateHistoryToShards_keepsIndex :
    Preserves (KeepsIndex asset) (migrateHistoryToShards a) := by
  apply asAdmin_preserves keepsIndex_respects
  apply (keepsIndex_frame (T := []) (checkRegisteredAsset_frame a) (by decide)).bind
  intro _ w
  simp only [sat_bind,sat_readStore,modifyHistory,sat_update,sat_pure]
  apply keepsIndex_of_history (a := a)
  · rfl
  · intro h
    exact UpToDate.of_ledgers (shardLedgers_ledgers _ _ _) (Catalogued.shardLedgers h _ _)
  · intro ha
    exact agreeOn_shardLedgers ha w.store.provenance _ _ _

theorem migrateHistoryToTier_keepsIndex (toTier : HistoryStorageTier) :
    Preserves (KeepsIndex asset) (migrateHistoryToTier a toTier) := by
  apply asAdmin_preserves keepsIndex_respects
  apply (keepsIndex_frame (T := []) (checkRegisteredAsset_frame a) (by decide)).bind
  intro _ w
  rw [sat_bind,sat_readStore]
  split_ifs
  · exact preserves_pure 0 w
  · simp only [sat_bind,sat_readStore,modifyHistory,sat_update,sat_getSequence,
      writeLastChangeLedger,modifyConfig,sat_pure]
    apply keepsIndex_of_history (a := a)
    · rfl
    · intro h
      exact UpToDate.of_ledgers (copyLedgers_ledgers _ _ _ _) (Catalogued.copyLedgers h _ _ _)
    · intro ha
      exact agreeOn_copyLedgers ha w.store.provenance toTier _ _ _

theorem setRequest_frame (req : Option StorageTierDowngradeRequest) :
    Frame [.config,.suspension] (setRequest a req) := modifyConfig_frame _

theorem applyTierChange_frame (new : HistoryStorageTier) :
    Frame [.config,.flags,.suspension] (applyTierChange a new) := by
  have hwrite : Frame [.config,.flags,.suspension] (writeTier a new) :=
    ((mark_frame .storageTier).mono (by simp)).bind fun _ => (modifyConfig_frame _).mono (by simp)
  exact hwrite.bind fun _ => .read fun _ => (modifyConfig_frame _).mono (by simp)

theorem applyDowngrade_frame (tier : HistoryStorageTier) :
    Frame [.config,.flags,.suspension] (applyDowngrade a tier) :=
  .read fun _ => .check fun _ => (applyTierChange_frame a tier).bind fun _ =>
    (setRequest_frame a none).mono (by simp)

theorem setAssetStorageTier_frame (tier : HistoryStorageTier) :
    Frame [.auths,.config,.flags,.suspension] (setAssetStorageTier a tier) := by
  apply asAdmin_frame
  apply (checkRegisteredAsset_frame a).bind
  intro _
  apply Preserves.read
  intro current
  cases current <;> cases tier
  · exact preserves_pure _
  · exact applyTierChange_frame a _
  · exact applyDowngrade_frame a _
  · exact preserves_pure _

theorem proposeStorageTierDowngrade_frame :
    Frame [.auths,.config,.suspension] (proposeStorageTierDowngrade a) :=
  getAdmin_frame.bind fun admin => ((requireAuth_frame admin).mono (by simp)).bind fun _ =>
    (checkRegisteredAsset_frame a).bind fun _ => .read fun _ =>
    .read fun _ => .check fun _ =>
    ((setRequest_frame a _).mono (by simp)).bind fun _ => .read fun _ =>
    preserves_pure _

theorem approveStorageTierDowngrade_frame (a approver : Address) :
    Frame [.auths,.config,.suspension] (approveStorageTierDowngrade a approver) := by
  apply ((requireAuth_frame approver).mono (by simp)).bind
  intro _
  apply (checkRegisteredAsset_frame a).bind
  intro _
  apply Preserves.read
  intro pending
  cases pending with
  | none => exact preserves_abort _
  | some req =>
    exact .check fun _ => .check fun _ => .read fun _ => (setRequest_frame a _).mono (by simp)

end Administration

/-- The calls that write, prune, rearrange or reroute the history of an asset. -/
inductive HistoryCall
  | priced (call : PriceCall)
  | pruneHistory (asset : Address) (targetEntries : Nat)
  | compactHistory (asset : Address)
  | migrateHistoryToShards (asset : Address)
  | setAssetStorageTier (asset : Address) (tier : HistoryStorageTier)
  | proposeStorageTierDowngrade (asset : Address)
  | approveStorageTierDowngrade (asset approver : Address)
  | executeStorageTierDowngrade (asset : Address)
  | migrateHistoryToTier (asset : Address) (toTier : HistoryStorageTier)
  | configure (setting : HistorySetting)

def HistoryCall.body : HistoryCall → Contract Unit
  | priced call => call.body
  | pruneHistory asset targetEntries => do
    let _ ← Model.pruneHistory asset targetEntries
    pure ()
  | compactHistory asset => asAdmin do
    let _ ← Model.compactHistory asset
    pure ()
  | migrateHistoryToShards asset => do
    let _ ← Model.migrateHistoryToShards asset
    pure ()
  | setAssetStorageTier asset tier => Model.setAssetStorageTier asset tier
  | proposeStorageTierDowngrade asset => do
    let _ ← Model.proposeStorageTierDowngrade asset
    pure ()
  | approveStorageTierDowngrade asset approver => Model.approveStorageTierDowngrade asset approver
  | executeStorageTierDowngrade asset => Model.executeStorageTierDowngrade asset
  | migrateHistoryToTier asset toTier => do
    let _ ← Model.migrateHistoryToTier asset toTier
    pure ()
  | configure setting => setting.body

theorem HistoryCall.body_keepsIndex {asset : Address} (call : HistoryCall) :
    Preserves (KeepsIndex asset) call.body := by
  cases call with
  | priced call => exact call.body_preserves keepsIndex_respects
  | pruneHistory a targetEntries =>
    exact (pruneHistory_keepsIndex a targetEntries).bind fun _ => preserves_pure _
  | compactHistory a =>
    exact asAdmin_preserves keepsIndex_respects ((compactHistory_keepsIndex a).bind fun _ => preserves_pure _)
  | migrateHistoryToShards a =>
    exact (migrateHistoryToShards_keepsIndex a).bind fun _ => preserves_pure _
  | setAssetStorageTier a tier => exact keepsIndex_frame (setAssetStorageTier_frame a tier) (by decide)
  | proposeStorageTierDowngrade a =>
    exact (keepsIndex_frame (proposeStorageTierDowngrade_frame a) (by decide)).bind fun _ =>
      preserves_pure _
  | approveStorageTierDowngrade a approver =>
    exact keepsIndex_frame (approveStorageTierDowngrade_frame a approver) (by decide)
  | executeStorageTierDowngrade a =>
    exact asAdmin_preserves keepsIndex_respects ((keepsIndex_frame (T := []) (checkRegisteredAsset_frame a)
      (by decide)).bind fun _ => keepsIndex_frame (applyDowngrade_frame a _) (by decide))
  | migrateHistoryToTier a toTier =>
    exact (migrateHistoryToTier_keepsIndex a toTier).bind fun _ => preserves_pure _
  | configure setting => exact keepsIndex_frame setting.body_frame (by decide)

section Runs

/-- A call, or a change of storage that leaves the history as it is. -/
inductive HistoryAct
  | call (call : HistoryCall)
  | elsewhere (rest : Store)

structure HistoryTx where
  env : Env
  act : HistoryAct

def execHistory (st : Store) (t : HistoryTx) : Store :=
  match t.act with
  | .call call => invoke call.body t.env st
  | .elsewhere rest => { rest with history := st.history }

/-- Nothing is indexed for the asset, and nothing can be read. -/
def NoHistory (asset : Address) (h : History) : Prop :=
  h.ledgerList asset = [] ∧ ∀ l, h.readHistoryEntry asset l = none

/-- The readers find what the index lists, and what it does not list is in neither store. -/
structure ReadsIndex (asset : Address) (st : Store) : Prop where
  readable : ∀ l, (st.history.readHistoryEntry asset l).isSome = true ↔
    l ∈ st.history.ledgerList asset
  historical : ∀ l, st.hasHistoricalPrice asset l = true ↔
    (st.registry.assetRegistered asset).isSome = true ∧ l ∈ st.history.ledgerList asset
  gone : ∀ l, l ∉ st.history.ledgerList asset →
    st.history.entry (asset, l) = none ∧ st.history.shardEntry asset l = none

variable {asset : Address} {st : Store} {h : History} {n : Nat}

theorem Catalogued.mono {n m : Nat} {index : List Nat}
    (hc : Catalogued asset n index h) (hle : n ≤ m) : Catalogued asset m index h :=
  ⟨hc.indexes,hc.dated,fun l hl => (hc.bounded l hl).trans hle⟩

theorem upToDate_of_noHistory (hnone : NoHistory asset h) (n : Nat) : UpToDate asset n h := by
  unfold UpToDate
  rw [hnone.1]
  refine ⟨⟨.nil,?_⟩,?_,by simp⟩
  · simp [hnone.2]
  · intro l e he
    have hread := hnone.2 l
    simp [History.readHistoryEntry,Option.mem_def.1 he] at hread

theorem hasHistoricalPrice_eq (st : Store) (l : Nat) :
    st.hasHistoricalPrice asset l = ((st.registry.assetRegistered asset).isSome &&
      (st.history.readHistoryEntry asset l).isSome) := by
  unfold Store.hasHistoricalPrice History.readHistoryEntry History.shardEntry
  cases st.history.entry (asset,l) with
  | some e => simp
  | none =>
    rw [Bool.eq_iff_iff]
    cases st.history.bucketOf asset l with
    | none => simp
    | some bucket => simp [List.find?_isSome]

theorem readsIndex_of_upToDate (h : UpToDate asset n st.history) : ReadsIndex asset st where
  readable := h.indexes.listed
  historical l := by
    rw [hasHistoricalPrice_eq,Bool.and_eq_true,h.indexes.listed]
  gone l hl := by
    rw [← h.indexes.listed,Option.not_isSome_iff_eq_none] at hl
    unfold History.readHistoryEntry at hl
    cases hentry : st.history.entry (asset,l) with
    | some e => simp [hentry] at hl
    | none => exact ⟨rfl,by simpa [hentry] using hl⟩

theorem execHistory_upToDate {t : HistoryTx} (h : UpToDate asset t.env.sequence st.history) :
    UpToDate asset t.env.sequence (execHistory st t).history := by
  unfold execHistory
  cases t.act with
  | call call =>
    apply invoke_of_sat (P := fun u => UpToDate asset t.env.sequence u.history) h
    exact (call.body_keepsIndex (World.enter t.env st)).mono fun _ _ hw => hw.upToDate h
  | elsewhere rest => exact h

/-- A whole run, at ledgers that do not decrease. -/
theorem run_upToDate {ts : List HistoryTx}
    (h : UpToDate asset n st.history) (hfrom : ∀ t ∈ ts, n ≤ t.env.sequence)
    (hledgers : ts.Pairwise fun t u => t.env.sequence ≤ u.env.sequence) :
    ∃ m, UpToDate asset m (run execHistory st ts).history := by
  induction ts generalizing st n with
  | nil => exact ⟨n,h⟩
  | cons t ts ih =>
    rw [List.pairwise_cons] at hledgers
    have hstart : UpToDate asset t.env.sequence st.history := h.mono (hfrom t (by simp))
    exact ih (execHistory_upToDate hstart) hledgers.1 hledgers.2

theorem ledgerList_sorted (asset : Address) (st : Store) (ts : List HistoryTx)
    (hnone : NoHistory asset st.history)
    (hledgers : ts.Pairwise fun t u => t.env.sequence ≤ u.env.sequence) :
    ((run execHistory st ts).history.ledgerList asset).Pairwise (· < ·) := by
  obtain ⟨m,h⟩ := run_upToDate (upToDate_of_noHistory hnone 0) (by simp) hledgers
  exact h.indexes.sorted

/-- After every run a ledger of the asset is readable exactly when it is indexed. -/
theorem readable_iff_indexed (asset : Address) (st : Store) (ts : List HistoryTx)
    (hnone : NoHistory asset st.history)
    (hledgers : ts.Pairwise fun t u => t.env.sequence ≤ u.env.sequence) :
    ReadsIndex asset (run execHistory st ts) := by
  obtain ⟨m,h⟩ := run_upToDate (upToDate_of_noHistory hnone 0) (by simp) hledgers
  exact readsIndex_of_upToDate h

/-- Three publications of asset `10`, rearranged by its administrator in between. -/
def rearrangedRun : List HistoryTx :=
  [⟨.concrete 1 5 [], .call (.priced (.aggregate (.recomputeAssetPrice 10)))⟩,
    ⟨.concrete 2 5 [9], .call (.setAssetStorageTier 10 .persistent)⟩,
    ⟨.concrete 2 5 [], .call (.priced (.aggregate (.recomputeAssetPrice 10)))⟩,
    ⟨.concrete 3 5 [9], .call (.migrateHistoryToTier 10 .temporary)⟩,
    ⟨.concrete 3 5 [], .call (.priced (.aggregate (.recomputeAssetPrice 10)))⟩,
    ⟨.concrete 4 5 [9], .call (.migrateHistoryToShards 10)⟩,
    ⟨.concrete 4 5 [9], .call (.pruneHistory 10 2)⟩]

/-- The pruned ledger is in neither store; the others are read through both. -/
theorem rearranged_run_reads_index :
    ReadsIndex 10 (run execHistory (thresholdStore 0) rearrangedRun) ∧
      (run execHistory (thresholdStore 0) rearrangedRun).history.ledgerList 10 = [2, 3] :=
  ⟨readable_iff_indexed 10 (thresholdStore 0) rearrangedRun ⟨rfl,fun _ => rfl⟩ (by decide),
    by decide⟩

end Runs

end PriceOracle.Archive
