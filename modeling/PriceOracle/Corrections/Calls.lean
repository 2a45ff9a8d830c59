import PriceOracle.Archive.Chain
import PriceOracle.Archive.Index
import PriceOracle.Corrections.Effects

/-! # The calls on a record

The index of an asset grows only by the ledger of a publication; pruning and compaction take ledgers
out of it. So every call that writes aggregates, history or the scope of corrections accounts for what
it publishes and continues the record. -/

namespace PriceOracle.Corrections

open Lib.Transaction Model Aggregation Archive

section Indexing

variable {asset a : Address} {l ledger : Nat} {st : Store} {env : Env} (thresholdBps : Nat)

theorem mem_of_mem_pushLedger {index : List Nat} (h : l ∈ pushLedger index ledger) :
    l ∈ index ∨ l = ledger := by
  unfold pushLedger at h
  split_ifs at h
  · exact .inl h
  · simpa using h

theorem mem_index_archiveRound {pub : Publication}
    (h : l ∈ (st.archiveRound env a ledger pub).history.ledgerList asset) :
    l ∈ st.history.ledgerList asset ∨ a = asset ∧ l = ledger := by
  by_cases ha : asset = a
  · subst ha
    unfold Store.archiveRound at h
    rw [History.ledgerList_setLedgers] at h
    have hpruned := pruneLoop_subset asset _ _ _ _ _ _ (pruneLoop_subset asset _ _ _ _ _ _ h)
    unfold Store.appendRound at hpruned
    split_ifs at hpruned
    · exact .inl hpruned
    · exact (mem_of_mem_pushLedger hpruned).imp_right fun h => ⟨rfl,h⟩
  · have hother : (st.archiveRound env a ledger pub).history.ledgerList asset =
        st.history.ledgerList asset := (agreeOn_archiveRound ha env st ledger pub).ledgerList
    rw [hother] at h
    exact .inl h

theorem mem_index_snapshotHistory {entry : PriceHistoryEntry}
    (h : l ∈ (st.snapshotHistory env a entry).ledgerList asset) :
    l ∈ st.history.ledgerList asset ∨ a = asset ∧ l = entry.ledger := by
  by_cases ha : asset = a
  · subst ha
    unfold Store.snapshotHistory at h
    rw [History.ledgerList_setLedgers] at h
    have htrimmed := (trimHistory_suffix _ _ _).subset h
    split_ifs at htrimmed
    · exact .inl htrimmed
    · exact (mem_of_mem_pushLedger htrimmed).imp_right fun h => ⟨rfl,h⟩
  · have hother : (st.snapshotHistory env a entry).ledgerList asset =
        st.history.ledgerList asset :=
      (agreeOn_snapshotHistory ha st.provenance env st entry).ledgerList
    rw [hother] at h
    exact .inl h

theorem compactMiddle_subset (ls : List Nat) (h : History) (retained : List Nat) (lastKept : Int) :
    (compactMiddle thresholdBps a ls h retained lastKept).2 ⊆ retained ++ ls := by
  induction ls generalizing h retained lastKept with
  | nil => simp [compactMiddle]
  | cons l ls ih =>
    have hskip : retained ++ ls ⊆ retained ++ l :: ls := by
      exact List.append_subset.2 ⟨List.subset_append_left _ _,
        fun x hx => List.mem_append_right _ (List.mem_cons_of_mem l hx)⟩
    unfold compactMiddle
    split
    · split_ifs
      · exact fun x hx => hskip (ih _ _ _ hx)
      · intro x hx
        have hkept := ih _ _ _ hx
        rwa [List.append_assoc,List.singleton_append] at hkept
    · exact fun x hx => hskip (ih _ _ _ hx)

theorem compacted_subset (h : History) (first : Nat) (rest : List Nat) :
    (compacted thresholdBps a h first rest).2 ⊆ first :: rest := by
  have hwalk := compactMiddle_subset (a := a) thresholdBps rest.dropLast h [first]
    (((h.readHistoryEntry a first).map PriceHistoryEntry.price).getD 0)
  have hinner : [first] ++ rest.dropLast ⊆ first :: rest :=
    List.cons_subset_cons first (List.dropLast_subset rest)
  unfold compacted
  cases hlast : rest.getLast? with
  | none => exact fun x hx => hinner (hwalk hx)
  | some last =>
    dsimp only
    split_ifs
    · exact fun x hx => hinner (hwalk hx)
    · refine List.append_subset.2 ⟨fun x hx => hinner (hwalk hx),fun x hx => ?_⟩
      rw [List.mem_singleton.1 hx]
      exact List.mem_cons_of_mem first (List.mem_of_getLast? hlast)

theorem index_compacted_subset {h : History} {first : Nat} {rest : List Nat}
    (hindex : h.ledgerList a = first :: rest) :
    ((compacted thresholdBps a h first rest).1.setLedgers a
      (compacted thresholdBps a h first rest).2).ledgerList asset ⊆ h.ledgerList asset := by
  by_cases ha : asset = a
  · subst ha
    rw [History.ledgerList_setLedgers,hindex]
    exact compacted_subset thresholdBps h first rest
  · have hother : ((compacted thresholdBps a h first rest).1.setLedgers a
        (compacted thresholdBps a h first rest).2).ledgerList asset = h.ledgerList asset :=
      (agreeOn_compacted ha {} h first rest).ledgerList
    rw [hother]
    exact List.Subset.refl _

end Indexing

section Writers

variable {asset : Address} (a : Address)

theorem commitRound_begun (ledger decimals : Nat) (recompute : Bool) (d : Decision) (w : World) :
    Sat (commitRound a ledger decimals recompute d) w fun _ w' =>
      Begun a w.store.corrections w'.store.corrections := by
  have hw : layout.agreeOff [.aggregates,.history,.provenance,.rounds] w w := Std.Refl.refl w
  refine ((readStore_frame _).from hw).andThen fun prev t ht => ?_
  refine (((writeAggregate_frame a _).mono (by simp)).from ht).andThen fun _ t ht => ?_
  refine ((readStore_frame _).from ht).andThen fun publication t ht => ?_
  refine (((archivePublication_frame a ledger publication).mono (by simp)).from ht).andThen
    fun _ t ht => ?_
  refine (((markPublished_frame a).mono (by simp)).from ht).andThen fun _ t ht => ?_
  have hcorrections : t.store.corrections = w.store.corrections := ht .corrections (by decide)
  rw [← hcorrections]
  exact recordOriginal_sat a _ t

theorem commitRound_moves (decimals : Nat) (recompute : Bool) (d : Decision) (w : World) :
    Sat (commitRound a w.env.sequence decimals recompute d) w fun _ w' => Moves asset w w' := by
  refine (((commitRound_sat a w.env.sequence decimals recompute d w).and
    (commitRound_frame a w.env.sequence decimals recompute d w)).and
    (commitRound_begun a w.env.sequence decimals recompute d w)).mono fun _ w' hw => ?_
  obtain ⟨⟨⟨pub,-,-,hcommit⟩,hframe⟩,hbegun⟩ := hw
  refine moves_of_write hframe (by decide) hcommit.aggregate ⟨_,hcommit.written⟩ ?_ ?_
  · intro l hl
    rw [hcommit.history] at hl
    exact mem_index_archiveRound hl
  · exact fun _ hrecord => hbegun.continues hrecord

theorem triggerAggregation_moves : Preserves (Moves asset) (triggerAggregation a) := by
  intro w
  refine ((triggerAggregation_writes a w).and (triggerAggregation_frame a w)).mono fun _ w' hw => ?_
  obtain ⟨⟨value,hwrites⟩,hframe⟩ := hw
  have hhistory : w'.store.history = w.store.history := hframe .history (by decide)
  have hcorrections : w'.store.corrections = w.store.corrections := hframe .corrections (by decide)
  obtain ⟨st,-,hwritten⟩ := hwrites.written
  refine moves_of_write hframe (by decide) hwrites.aggregate ⟨st,hwritten⟩ ?_ ?_
  · intro l hl
    rw [hhistory] at hl
    exact .inl hl
  · intro _ hrecord
    rw [hcorrections]
    exact .refl hrecord

theorem correctPrice_moves (newPrice : Int) (reason : String) :
    Preserves (Moves asset) (correctPrice a newPrice reason) := by
  intro w
  refine ((correctPrice_replaces a newPrice reason w).and
    (correctPrice_frame a newPrice reason w)).mono fun _ w' hw => ?_
  obtain ⟨⟨previous,hreplaces⟩,hframe⟩ := hw
  have hhistory : w'.store.history = w.store.history := hframe .history (by decide)
  refine moves_of_write hframe (by decide) hreplaces.aggregate hreplaces.written ?_ ?_
  · intro l hl
    rw [hhistory] at hl
    exact .inl hl
  · intro hscope hrecord
    obtain ⟨c,r,hseeded,hindex,hcorrected,hamended⟩ := hreplaces.recorded
    have hfirst := hseeded.continues asset hrecord
    rw [hamended]
    refine hfirst.trans (continues_amend hfirst.onRecord ?_ hindex hcorrected)
    rintro rfl
    refine ⟨hseeded.begun hrecord,?_⟩
    rw [hseeded.count]
    exact lt_of_lt_of_le hreplaces.uncapped hscope

theorem writePriceSnapshot_moves (price : Int) (timestamp numSources : Nat) (w : World) :
    Sat (writePriceSnapshot a price timestamp numSources w.env.sequence) w fun _ w' =>
      Moves asset w w' := by
  have hframe := writePriceSnapshot_frame a price timestamp numSources w.env.sequence w
  unfold writePriceSnapshot at hframe ⊢
  simp only [sat_bind,sat_readStore,sat_writeAggregate,modifyHistory,sat_update] at hframe ⊢
  refine moves_of_write hframe (by decide) rfl ⟨_,rfl⟩ ?_ ?_
  · intro l hl
    exact mem_index_snapshotHistory hl
  · exact fun _ hrecord => .refl hrecord

/-- A migration publishes a price of zero where none is stored. -/
theorem initializeAggregate_moves (a : Address) :
    Preserves (Moves asset) (initializeAggregate a) := by
  intro w
  unfold initializeAggregate
  simp only [sat_bind,sat_readStore]
  split_ifs
  · refine ((writeAggregate_frame a _ w).and ((sat_writeAggregate (Q := fun _ u =>
      u = _) a _).2 rfl)).mono fun _ u hu => ?_
    obtain ⟨hframe,rfl⟩ := hu
    exact moves_of_write hframe (by decide) rfl ⟨_,rfl⟩ (fun _ h => .inl h)
      (fun _ hrecord => .refl hrecord)
  · exact preserves_pure () w

theorem moves_respects : RespectsPrices (Moves asset) where
  env _ _ h := h.choose_spec.env
  ignored _ _ h := moves_of_frame h (by decide)
  commit a decimals recompute d w _ := commitRound_moves a decimals recompute d w
  trigger := triggerAggregation_moves
  correct := correctPrice_moves
  snapshot := writePriceSnapshot_moves
  placeholder := initializeAggregate_moves

end Writers

section Administration

variable {asset : Address} (a : Address) (scope : CorrectionScope)

theorem boundedScope_bounded : scope.bounded.maxCorrections ≤ maxCorrectionsPerAsset :=
  Nat.min_le_right _ _

theorem updateGuards_frame (f : PublicationGuards → PublicationGuards) :
    Frame [.bounds,.flags,.suspension] (updateGuards f) :=
  .read fun _ => ((mark_frame _).mono (by simp)).bind fun _ => (modifyBounds_frame _).mono (by simp)

/-- Whatever scope is asked for, the hard maximum stays in force. -/
theorem setCorrectionScope_moves : Preserves (Moves asset) (setCorrectionScope scope) := by
  apply asAdmin_preserves moves_respects
  apply Preserves.check
  intro _
  apply (preserves_forM fun a _ => moves_frame (T := []) (checkRegisteredAsset_frame a)
    (by decide)).bind
  intro _
  refine Preserves.bind ?_ fun _ => moves_frame (updateGuards_frame _) (by decide)
  intro w
  unfold modifyConfig
  rw [sat_update]
  exact moves_of_silent rfl (fun _ => boundedScope_bounded scope) rfl (fun _ h => h)
    (List.Subset.refl _) rfl

theorem pruneHistory_moves (targetEntries : Nat) :
    Preserves (Moves asset) (pruneHistory a targetEntries) := by
  apply asAdmin_preserves moves_respects
  apply (moves_frame (T := []) (checkRegisteredAsset_frame a) (by decide)).bind
  intro _ w
  simp only [sat_bind,sat_readStore,modifyHistory,sat_update,sat_pure]
  refine moves_of_silent rfl id rfl (fun _ h => h) ?_ rfl
  set index := w.store.history.ledgerList a with hindex
  have hsame : (trimHistory a targetEntries index w.store.history).2.ledgers =
      w.store.history.ledgers := trimHistory_ledgers _ _ _
  intro l hl
  split_ifs at hl
  · by_cases ha : asset = a
    · subst ha
      rw [History.ledgerList_setLedgers] at hl
      exact (trimHistory_suffix targetEntries index w.store.history).subset hl
    · rw [History.ledgerList,History.setLedgers] at hl
      dsimp only at hl
      rwa [Function.update_of_ne ha,hsame] at hl
  · rwa [History.ledgerList,hsame] at hl

theorem compactHistory_moves : Preserves (Moves asset) (compactHistory a) := by
  apply (moves_frame (T := []) (checkRegisteredAsset_frame a) (by decide)).bind
  intro _ w
  have hnothing (records : RoundRecords) : Moves asset w
      { w with store := { w.store with rounds := records } } :=
    moves_of_silent rfl id rfl (fun _ h => h) (List.Subset.refl _) rfl
  simp only [sat_bind,sat_getSequence,sat_readStore]
  split
  · next first next rest hindex =>
    split_ifs
    · simp only [sat_bind,modifyRounds,sat_update,sat_pure]
      exact hnothing _
    · simp only [sat_bind,sat_readStore,modifyHistory,sat_update,modifyRounds,sat_pure]
      exact moves_of_silent rfl id rfl (fun _ h => h)
        (index_compacted_subset _ hindex) rfl
  · simp only [sat_bind,modifyRounds,sat_update,sat_pure]
    exact hnothing _

/-- An asset that is unregistered loses its aggregate, but not its record. -/
theorem unregisterAsset_moves : Preserves (Moves asset) (unregisterAsset a) := by
  apply asAdmin_preserves moves_respects
  apply (moves_frame (T := []) (checkRegisteredAsset_frame a) (by decide)).bind
  intro _ w
  rw [sat_update]
  refine moves_of_silent rfl id rfl ?_ (List.Subset.refl _) rfl
  intro v hv
  dsimp only at hv
  by_cases ha : asset = a
  · subst ha
    rw [Function.update_self] at hv
    cases hv
  · rwa [Function.update_of_ne ha] at hv

end Administration

end PriceOracle.Corrections
