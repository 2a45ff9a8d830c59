import PriceOracle.Archive.Entries
import PriceOracle.Model.StorageTier

/-! # The index of the stored entries

One history lives in temporary entries, in persistent shards and in an index. Read through both
stores it is one partial map over the ledgers, and `Catalogued` says that the index lists its keys.
Every operation on the history writes the newest ledger, copies a listed one, or drops one. -/

namespace PriceOracle.Archive

open Lib.SortedIndex Model

/-- The index lists the readable ledgers, none above `bound`; every entry stands under its own. -/
structure Catalogued (asset : Address) (bound : Nat) (index : List Nat) (h : History) : Prop where
  indexes : Indexes index (h.readHistoryEntry asset)
  dated : ∀ l, ∀ e ∈ h.entry (asset, l), e.ledger = l
  bounded : ∀ l ∈ index, l ≤ bound

section Operations

variable {asset : Address} {bound : Nat} {index post : List Nat} {h : History}
  {entry : PriceHistoryEntry} {l : Nat}

/-- An entry read back carries the ledger it was read at. -/
theorem Catalogued.read_dated (hc : Catalogued asset bound index h)
    {e : PriceHistoryEntry} (he : h.readHistoryEntry asset l = some e) : e.ledger = l := by
  unfold History.readHistoryEntry at he
  cases hentry : h.entry (asset,l) with
  | some e' =>
    simp only [hentry,Option.some.injEq] at he
    subst he
    exact hc.dated l e' hentry
  | none =>
    simp only [hentry,History.shardEntry] at he
    obtain ⟨bucket,-,hfind⟩ := Option.bind_eq_some_iff.1 he
    simpa using List.find?_some hfind

theorem dated_writeHistoryEntry (hdated : ∀ l, ∀ e ∈ h.entry (asset,l), e.ledger = l)
    (tier : HistoryStorageTier) (entry : PriceHistoryEntry) :
    ∀ l, ∀ e ∈ (h.writeHistoryEntry asset tier entry).entry (asset,l), e.ledger = l := by
  intro l e he
  rw [History.entry_writeHistoryEntry] at he
  split_ifs at he with hkey
  · obtain ⟨-,hl⟩ := Prod.mk.inj hkey.2
    simp at he
    rw [← he,hl]
  · exact hdated l e he

/-- Writing an entry of a listed ledger again, in either tier. -/
theorem Catalogued.copy (hc : Catalogued asset bound index h) (tier : HistoryStorageTier)
    (hlisted : entry.ledger ∈ index) :
    Catalogued asset bound index (h.writeHistoryEntry asset tier entry) where
  indexes := by
    apply hc.indexes.overwrite hlisted (h.readHistoryEntry_written asset tier entry)
    intro l hl
    apply h.readHistoryEntry_written_of_ne asset tier entry
    simpa using hl
  dated := dated_writeHistoryEntry hc.dated tier entry
  bounded := hc.bounded

/-- Writing an entry of the newest ledger. -/
theorem Catalogued.append (entry : PriceHistoryEntry) (tier : HistoryStorageTier)
    (hc : Catalogued asset entry.ledger index h) :
    Catalogued asset entry.ledger (pushLedger index entry.ledger)
      (h.writeHistoryEntry asset tier entry) where
  indexes := by
    apply hc.indexes.push hc.bounded (h.readHistoryEntry_written asset tier entry)
    intro l hl
    apply h.readHistoryEntry_written_of_ne asset tier entry
    simpa using hl
  dated := dated_writeHistoryEntry hc.dated tier entry
  bounded := by
    intro l hl
    rcases (mem_pushLedger index entry.ledger l).1 hl with hl | rfl
    · exact hc.bounded l hl
    · exact le_refl _

/-- Dropping a ledger from the index and from both stores. -/
theorem Catalogued.drop (pre : List Nat) (hc : Catalogued asset bound (pre ++ l :: post) h) :
    Catalogued asset bound (pre ++ post)
      ((h.removeTemporary asset l).removeHistoryShardEntry asset l) where
  indexes := by
    apply hc.indexes.remove
    · rw [History.readHistoryEntry_dropped,if_pos rfl]
    · intro j hj
      rw [History.readHistoryEntry_dropped,if_neg]
      simpa using hj
  dated := by
    intro j e he
    rw [History.removeHistoryShardEntry_entry] at he
    by_cases hj : j = l
    · subst hj
      simp [History.removeTemporary] at he
    · apply hc.dated j e
      simpa [History.removeTemporary,hj] using he
  bounded := by
    intro j hj
    apply hc.bounded
    simp at hj ⊢
    tauto

/-- An entry that is written to the tier of the asset and removed again. -/
theorem Catalogued.skip (hc : Catalogued asset bound index h)
    (tier : HistoryStorageTier) (hnew : entry.ledger ∉ index) :
    Catalogued asset bound index ((h.writeHistoryEntry asset tier entry).removeHistoryEntry asset
      tier entry.ledger) where
  indexes := by
    have hnone : h.readHistoryEntry asset entry.ledger = none := by
      rw [← Option.not_isSome_iff_eq_none,hc.indexes.listed]
      exact hnew
    have hsame : ((h.writeHistoryEntry asset tier entry).removeHistoryEntry asset tier
        entry.ledger).readHistoryEntry asset = h.readHistoryEntry asset := by
      ext1 l
      exact h.readHistoryEntry_unwritten asset tier entry hnone
    rw [hsame]
    exact hc.indexes
  dated := by
    intro l e he
    rw [History.entry_removeHistoryEntry] at he
    split_ifs at he with hkey
    · simp at he
    · exact dated_writeHistoryEntry hc.dated tier entry l e he
  bounded := hc.bounded

/-- Only the current reading of the two stores and of the index matters. -/
theorem Catalogued.agreeOn {p p' : Provenance} {h' : History}
    (hagree : Archive.AgreeOn asset ⟨h,p⟩ ⟨h',p'⟩) (hc : Catalogued asset bound index h) :
    Catalogued asset bound index h' where
  indexes := by
    have hsame : h'.readHistoryEntry asset = h.readHistoryEntry asset := by
      ext1 l
      exact hagree.readHistoryEntry l
    rw [hsame]
    exact hc.indexes
  dated := by
    intro l e he
    have hentry : h'.entry (asset,l) = h.entry (asset,l) := hagree.entry l
    rw [hentry] at he
    exact hc.dated l e he
  bounded := hc.bounded

theorem Catalogued.setLedgers (hc : Catalogued asset bound index h) (a : Address)
    (ledgers : List Nat) : Catalogued asset bound index (h.setLedgers a ledgers) :=
  ⟨hc.indexes,hc.dated,hc.bounded⟩

end Operations

section Loops

variable {asset : Address} {bound : Nat} {index : List Nat} {h : History}

/-- The two pruning loops of a publication drop ledgers from the old end. -/
theorem Catalogued.pruneLoop {a : Model.Archive} (hc : Catalogued asset bound index a.history)
    (stored : List Nat) (cap maxEvents events : Nat) :
    Catalogued asset bound (pruneLoop asset stored cap maxEvents index events a).1
      (Model.pruneLoop asset stored cap maxEvents index events a).2.2.history := by
  induction index generalizing events a with
  | nil => exact hc
  | cons l ls ih =>
    unfold Model.pruneLoop
    split_ifs
    · exact hc
    · apply ih
      exact hc.drop []
    · exact hc

theorem Catalogued.trimHistory (hc : Catalogued asset bound index h) (cap : Nat) :
    Catalogued asset bound (trimHistory asset cap index h).1
      (Model.trimHistory asset cap index h).2 := by
  induction index generalizing h with
  | nil => exact hc
  | cons l ls ih =>
    unfold Model.trimHistory
    split_ifs
    · apply ih
      exact hc.drop []
    · exact hc

/-- The walk of a compaction keeps a ledger in its index or drops it from both stores. -/
theorem Catalogued.compactMiddle (thresholdBps : Nat) {last : Nat} {middle : List Nat}
    {retained : List Nat} (price : Int)
    (hc : Catalogued asset bound (retained ++ middle ++ [last]) h) : Catalogued asset bound
      ((compactMiddle thresholdBps asset middle h retained price).2 ++ [last])
      (Model.compactMiddle thresholdBps asset middle h retained price).1 := by
  induction middle generalizing h retained price with
  | nil => simpa [Model.compactMiddle] using hc
  | cons l ls ih =>
    unfold Model.compactMiddle
    have hlisted : (h.readHistoryEntry asset l).isSome = true := by
      rw [hc.indexes.listed]
      simp
    obtain ⟨e,he⟩ := Option.isSome_iff_exists.1 hlisted
    simp only [he]
    split_ifs
    · apply ih
      have hdrop : Catalogued asset bound (retained ++ l :: (ls ++ [last])) h := by simpa using hc
      simpa using hdrop.drop retained
    · apply ih
      simpa using hc

/-- A compaction keeps the first and the last ledger, and lists what it keeps. -/
theorem Catalogued.compacted {thresholdBps first : Nat} {rest : List Nat}
    (hrest : rest ≠ []) (hc : Catalogued asset bound (first :: rest) h) :
    Catalogued asset bound (compacted thresholdBps asset h first rest).2
      (Model.compacted thresholdBps asset h first rest).1 := by
  set last := rest.getLast hrest
  have hsplit : first :: rest = [first] ++ rest.dropLast ++ [last] := by
    simp [last,List.dropLast_append_getLast hrest]
  rw [hsplit] at hc
  have hwalk := hc.compactMiddle thresholdBps
    (((h.readHistoryEntry asset first).map PriceHistoryEntry.price).getD 0)
  unfold Model.compacted
  rw [List.getLast?_eq_some_getLast hrest]
  dsimp only
  rw [if_neg hwalk.indexes.last_ne]
  exact hwalk

theorem Catalogued.shardLedgers (hc : Catalogued asset bound index h)
    (ls : List Nat) (migrated : Nat) :
    Catalogued asset bound index (shardLedgers asset ls migrated h).1 := by
  induction ls generalizing h migrated with
  | nil => exact hc
  | cons l ls ih =>
    unfold Model.shardLedgers
    cases hentry : h.entry (asset,l) with
    | none => exact ih hc migrated
    | some e =>
      apply ih
      have hread : h.readHistoryEntry asset l = some e := by simp [History.readHistoryEntry,hentry]
      apply hc.copy .persistent
      rw [hc.read_dated hread,← hc.indexes.listed,hread]
      rfl

theorem Catalogued.copyLedgers (hc : Catalogued asset bound index h)
    (toTier : HistoryStorageTier) (ls : List Nat) (migrated : Nat) :
    Catalogued asset bound index (copyLedgers asset toTier ls migrated h).1 := by
  induction ls generalizing h migrated with
  | nil => exact hc
  | cons l ls ih =>
    unfold Model.copyLedgers
    cases hread : h.readHistoryEntry asset l with
    | none => exact ih hc migrated
    | some e =>
      apply ih
      apply hc.copy toTier
      rw [hc.read_dated hread,← hc.indexes.listed,hread]
      rfl

end Loops

section Publications

variable {asset : Address} {env : Env} {st : Store}

/-- The index of the asset, bounded by the current ledger. -/
def UpToDate (asset : Address) (ledger : Nat) (h : History) : Prop :=
  Catalogued asset ledger (h.ledgerList asset) h

theorem UpToDate.setLedgers {ledger : Nat} {index : List Nat} {h : History}
    (hc : Catalogued asset ledger index h) : UpToDate asset ledger (h.setLedgers asset index) := by
  unfold UpToDate
  rw [History.ledgerList_setLedgers]
  exact hc.setLedgers asset index

theorem UpToDate.of_ledgers {ledger : Nat} {h h' : History} (hledgers : h'.ledgers = h.ledgers)
    (hc : Catalogued asset ledger (h.ledgerList asset) h') : UpToDate asset ledger h' := by
  unfold UpToDate
  rw [History.ledgerList,hledgers]
  exact hc

theorem trimHistory_suffix (cap : Nat) (index : List Nat) (h : History) :
    (trimHistory asset cap index h).1 <:+ index := by
  induction index generalizing h with
  | nil => exact List.suffix_rfl
  | cons l ls ih =>
    unfold trimHistory
    split_ifs
    · exact (ih _).trans (List.suffix_cons l ls)
    · exact List.suffix_rfl

theorem trimHistory_ledgers (cap : Nat) (index : List Nat) (h : History) :
    (trimHistory asset cap index h).2.ledgers = h.ledgers := by
  induction index generalizing h with
  | nil => rfl
  | cons l ls ih =>
    unfold trimHistory
    split_ifs
    · rw [ih,History.removeHistoryShardEntry_ledgers]
      rfl
    · rfl

theorem shardLedgers_ledgers (ls : List Nat) (migrated : Nat) (h : History) :
    (shardLedgers asset ls migrated h).1.ledgers = h.ledgers := by
  induction ls generalizing h migrated with
  | nil => rfl
  | cons l ls ih =>
    unfold shardLedgers
    cases h.entry (asset,l) with
    | none => exact ih migrated h
    | some e => rw [ih,History.writeHistoryShard_ledgers]

theorem copyLedgers_ledgers (toTier : HistoryStorageTier) (ls : List Nat) (migrated : Nat)
    (h : History) : (copyLedgers asset toTier ls migrated h).1.ledgers = h.ledgers := by
  induction ls generalizing h migrated with
  | nil => rfl
  | cons l ls ih =>
    unfold copyLedgers
    cases h.readHistoryEntry asset l with
    | none => exact ih migrated h
    | some e => rw [ih,History.writeHistoryEntry_ledgers]

theorem not_listed_of_skip (hc : UpToDate asset env.sequence st.history) {price : Int}
    (hskip : st.shouldSkipOnWrite env asset price = true) :
    env.sequence ∉ st.history.ledgerList asset := by
  intro hmem
  have hlast : (st.history.ledgerList asset).getLast? ≠ some env.sequence := by
    intro hlast
    simp [Store.shouldSkipOnWrite,hlast] at hskip
  exact lt_irrefl _ (lt_of_not_last hc.indexes.sorted hc.bounded hlast hmem)

theorem upToDate_archiveRound (hc : UpToDate asset env.sequence st.history) (pub : Publication) :
    UpToDate asset env.sequence (st.archiveRound env asset env.sequence pub).history := by
  have happend : Catalogued asset env.sequence (st.appendRound env asset env.sequence pub).1
      (st.appendRound env asset env.sequence pub).2.history := by
    unfold Store.appendRound
    split_ifs with hskip
    · exact hc.skip (st.getAssetStorageTier asset) (not_listed_of_skip hc hskip)
    · apply (hc.append (pub.toEntry env.sequence) (st.getAssetStorageTier asset)).copy .persistent
      exact (mem_pushLedger _ _ _).2 (Or.inr rfl)
  apply UpToDate.setLedgers
  apply Catalogued.pruneLoop
  apply Catalogued.pruneLoop
  exact happend

theorem upToDate_snapshotHistory (hc : UpToDate asset env.sequence st.history)
    {entry : PriceHistoryEntry} (hledger : entry.ledger = env.sequence) :
    UpToDate asset env.sequence (st.snapshotHistory env asset entry) := by
  unfold Store.snapshotHistory
  dsimp only
  apply UpToDate.setLedgers
  apply Catalogued.trimHistory
  split_ifs with hskip
  · exact hc
  · rw [← hledger] at hc ⊢
    apply (hc.append entry .temporary).copy .persistent
    exact (mem_pushLedger _ _ _).2 (Or.inr rfl)

end Publications

section OtherAssets

variable {asset other : Address} (hne : asset ≠ other) (p : Provenance)

include hne

theorem agreeOn_trimHistory (cap : Nat) (index : List Nat) (h : History) :
    Archive.AgreeOn asset ⟨h,p⟩ ⟨(trimHistory other cap index h).2,p⟩ := by
  induction index generalizing h with
  | nil => exact Archive.AgreeOn.refl _
  | cons l ls ih =>
    unfold trimHistory
    split_ifs
    · apply Archive.AgreeOn.trans _ (ih _)
      exact (Archive.agreeOn_removeTemporary (a := ⟨h,p⟩) hne l).trans
        (Archive.agreeOn_removeHistoryShardEntry hne l)
    · exact Archive.AgreeOn.refl _

theorem agreeOn_snapshotHistory (env : Env) (st : Store) (entry : PriceHistoryEntry) :
    Archive.AgreeOn asset ⟨st.history,p⟩ ⟨st.snapshotHistory env other entry,p⟩ := by
  have hwritten : Archive.AgreeOn asset ⟨st.history,p⟩
      ⟨(st.history.setTemporary other entry).writeHistoryShard other entry,p⟩ :=
    (Archive.agreeOn_setTemporary (a := ⟨st.history,p⟩) hne entry).trans
      (Archive.agreeOn_writeHistoryShard hne entry)
  have htrimmed (index : List Nat) (h : History) (ledgers : List Nat) :
      Archive.AgreeOn asset ⟨h,p⟩
        ⟨(trimHistory other st.getMaxHistoryLength index h).2.setLedgers other ledgers,p⟩ :=
    (agreeOn_trimHistory hne p _ index h).trans (Archive.agreeOn_setLedgers (a := ⟨_,p⟩) hne ledgers)
  unfold Store.snapshotHistory
  split_ifs
  · exact htrimmed _ _ _
  · exact hwritten.trans (htrimmed _ _ _)

theorem agreeOn_shardLedgers (index : List Nat) (migrated : Nat) (h : History) :
    Archive.AgreeOn asset ⟨h,p⟩ ⟨(shardLedgers other index migrated h).1,p⟩ := by
  induction index generalizing h migrated with
  | nil => exact Archive.AgreeOn.refl _
  | cons l ls ih =>
    unfold shardLedgers
    cases h.entry (other,l) with
    | none => exact ih _ h
    | some e =>
      apply Archive.AgreeOn.trans _ (ih _ _)
      exact Archive.agreeOn_writeHistoryShard (a := ⟨h,p⟩) hne e

theorem agreeOn_copyLedgers (toTier : HistoryStorageTier) (index : List Nat) (migrated : Nat)
    (h : History) :
    Archive.AgreeOn asset ⟨h,p⟩ ⟨(copyLedgers other toTier index migrated h).1,p⟩ := by
  induction index generalizing h migrated with
  | nil => exact Archive.AgreeOn.refl _
  | cons l ls ih =>
    unfold copyLedgers
    cases h.readHistoryEntry other l with
    | none => exact ih _ h
    | some e =>
      apply Archive.AgreeOn.trans _ (ih _ _)
      exact Archive.agreeOn_writeHistoryEntry (a := ⟨h,p⟩) hne toTier e

end OtherAssets

end PriceOracle.Archive
