import PriceOracle.Archive.Index
import PriceOracle.Lib.KeyedRows
import PriceOracle.Lib.Run

/-! # The shards of a history

The persistent buckets of an asset and the index of these buckets. Writing, removing and pruning keep
the buckets well formed and the index a directory of them. The removal of the storage tier is the
exception: it drops a bucket that it empties, and leaves the index as it was. -/

namespace PriceOracle.Archive

open Model Lib.Directory Lib.Run

section Buckets

variable {idx : Nat} {bucket : List PriceHistoryEntry} {entry : PriceHistoryEntry}

/-- Entries of one bucket: no two of the same ledger, all of ledgers in the bucket. -/
structure Placed (idx : Nat) (bucket : List PriceHistoryEntry) : Prop where
  nodup : (bucket.map PriceHistoryEntry.ledger).Nodup
  ledgers : ∀ e ∈ bucket, ledgerToBucket e.ledger = idx

theorem placed_nil (idx : Nat) : Placed idx [] := ⟨List.nodup_nil,by simp⟩

theorem Placed.filter (h : Placed idx bucket) (p : PriceHistoryEntry → Bool) :
    Placed idx (bucket.filter p) :=
  ⟨h.nodup.sublist (List.filter_sublist.map _),fun e he => h.ledgers e (List.mem_of_mem_filter he)⟩

theorem putEntry_ledgers (entry : PriceHistoryEntry) (bucket : List PriceHistoryEntry) :
    (putEntry entry bucket).map PriceHistoryEntry.ledger =
      if entry.ledger ∈ bucket.map PriceHistoryEntry.ledger then
        bucket.map PriceHistoryEntry.ledger
      else bucket.map PriceHistoryEntry.ledger ++ [entry.ledger] := by
  induction bucket with
  | nil => simp [putEntry]
  | cons e es ih =>
    by_cases he : e.ledger = entry.ledger
    · simp [putEntry,he]
    · simp only [putEntry,he,ite_false,List.map_cons,ih,List.mem_cons,Ne.symm he,false_or]
      split_ifs <;> rfl

theorem putEntry_ne_nil (entry : PriceHistoryEntry) (bucket : List PriceHistoryEntry) :
    putEntry entry bucket ≠ [] := by
  cases bucket with
  | nil => simp [putEntry]
  | cons e es =>
    simp only [putEntry]
    split_ifs <;> simp

theorem Placed.put (h : Placed (ledgerToBucket entry.ledger) bucket) :
    Placed (ledgerToBucket entry.ledger) (putEntry entry bucket) := by
  have hledgers := putEntry_ledgers entry bucket
  constructor
  · rw [hledgers]
    split_ifs with hmem
    · exact h.nodup
    · refine List.nodup_append.2 ⟨h.nodup,List.nodup_singleton _,?_⟩
      rintro a ha b hb rfl
      exact hmem (List.mem_singleton.1 hb ▸ ha)
  · intro e he
    have hmem : e.ledger ∈ (putEntry entry bucket).map PriceHistoryEntry.ledger :=
      List.mem_map_of_mem he
    rw [hledgers] at hmem
    have hold : e.ledger ∈ bucket.map PriceHistoryEntry.ledger ∨ e.ledger = entry.ledger := by
      split_ifs at hmem <;> simp_all
    rcases hold with hold | hold
    · obtain ⟨e',he',hsame⟩ := List.mem_map.1 hold
      rw [← hsame]
      exact h.ledgers e' he'
    · rw [hold]

end Buckets

def shards (h : History) (asset : Address) (idx : Nat) : Option (List PriceHistoryEntry) :=
  h.bucket (asset, idx)

def shardIndex (h : History) (asset : Address) : List Nat := (h.bucketIndex asset).getD []

/-- What the shards of an asset are to satisfy. -/
structure ShardsSound (h : History) (asset : Address) : Prop where
  placed : ∀ idx bucket, shards h asset idx = some bucket → Placed idx bucket
  nonempty : ∀ idx bucket, shards h asset idx = some bucket → bucket ≠ []
  listed : Names (shards h asset) (shardIndex h asset)

theorem shardsSound_fresh {h : History} {asset : Address} (hbucket : ∀ idx, h.bucket (asset,idx) = none)
    (hindex : h.bucketIndex asset = none) : ShardsSound h asset where
  placed idx bucket hb := by simp [shards,hbucket] at hb
  nonempty idx bucket hb := by simp [shards,hbucket] at hb
  listed := by
    rw [shardIndex,hindex]
    exact names_empty hbucket

section Operations

variable {h h' : History} {asset : Address} {ledger : Nat} {bucket : List PriceHistoryEntry}
  (entry : PriceHistoryEntry)

theorem shards_update (bucket : Model.Map (Address × Nat) (List PriceHistoryEntry)) (idx : Nat)
    (value : Option (List PriceHistoryEntry)) :
    (fun i => Function.update bucket (asset,idx) value (asset,i)) =
      Function.update (fun i => bucket (asset,i)) idx value := by
  funext i
  by_cases hi : i = idx
  · simp [hi]
  · simp [hi]

theorem shards_write : shards (h.writeHistoryShard asset entry) asset =
      Function.update (shards h asset) (ledgerToBucket entry.ledger)
        (some (putEntry entry ((h.bucketOf asset entry.ledger).getD []))) := by
  unfold History.writeHistoryShard shards
  simp only [History.updateBucketIndex_bucket,shards_update]

theorem shardIndex_write : shardIndex (h.writeHistoryShard asset entry) asset =
      if ledgerToBucket entry.ledger ∈ shardIndex h asset then shardIndex h asset
      else shardIndex h asset ++ [ledgerToBucket entry.ledger] := by
  simp only [shardIndex,History.writeHistoryShard,History.updateBucketIndex,List.contains_iff_mem]
  by_cases hmem : ledgerToBucket entry.ledger ∈ (h.bucketIndex asset).getD []
  · simp [hmem]
  · simp [hmem]

/-- Only one bucket changes, and what it becomes is well formed. -/
theorem ShardsSound.of_update (hs : ShardsSound h asset) {idx : Nat}
    {value : Option (List PriceHistoryEntry)}
    (hshards : shards h' asset = Function.update (shards h asset) idx value)
    (hvalue : ∀ bucket, value = some bucket → Placed idx bucket ∧ bucket ≠ [])
    (hlisted : Names (Function.update (shards h asset) idx value) (shardIndex h' asset)) :
    ShardsSound h' asset := by
  have hbuckets (i : Nat) (bucket : List PriceHistoryEntry)
      (hb : shards h' asset i = some bucket) : Placed i bucket ∧ bucket ≠ [] := by
    rw [hshards] at hb
    by_cases hi : i = idx
    · subst hi
      exact hvalue bucket (by simpa using hb)
    · rw [Function.update_of_ne hi] at hb
      exact ⟨hs.placed i bucket hb,hs.nonempty i bucket hb⟩
  exact ⟨fun i b hb => (hbuckets i b hb).1,fun i b hb => (hbuckets i b hb).2,hshards ▸ hlisted⟩

theorem ShardsSound.write (hs : ShardsSound h asset) (entry : PriceHistoryEntry) :
    ShardsSound (h.writeHistoryShard asset entry) asset := by
  apply hs.of_update (shards_write entry)
  · intro bucket hbucket
    rw [← Option.some.inj hbucket]
    refine ⟨Placed.put ?_,putEntry_ne_nil entry _⟩
    cases hold : h.bucketOf asset entry.ledger with
    | none => exact placed_nil _
    | some old => exact hs.placed _ old hold
  · rw [shardIndex_write]
    exact hs.listed.put _ _

theorem ShardsSound.remove (hs : ShardsSound h asset) (ledger : Nat) :
    ShardsSound (h.removeHistoryShardEntry asset ledger) asset := by
  unfold History.removeHistoryShardEntry
  cases hb : h.bucketOf asset ledger with
  | none => exact hs
  | some bucket =>
    have hplaced : Placed (ledgerToBucket ledger) bucket := hs.placed _ bucket hb
    have hstored : (shards h asset (ledgerToBucket ledger)).isSome = true := by
      change (h.bucketOf asset ledger).isSome = true
      simp [hb]
    dsimp only
    split_ifs with hempty
    · refine hs.of_update (shards_update _ _ none) (by simp) ?_
      have hindex : shardIndex (({ h with
          bucket := Function.update h.bucket (asset,ledgerToBucket ledger) none } :
            History).removeBucketIndex asset (ledgerToBucket ledger)) asset =
          (shardIndex h asset).filter (· ≠ ledgerToBucket ledger) := by
        simp only [shardIndex,History.removeBucketIndex,Function.update_self]
        split_ifs with hnone
        · simpa using hnone
        · rfl
      rw [hindex]
      exact hs.listed.erase _
    · refine hs.of_update (shards_update _ _ _) ?_ (hs.listed.overwrite hstored _)
      intro retained hretained
      rw [← Option.some.inj hretained]
      exact ⟨hplaced.filter _,by simpa [List.isEmpty_iff] using hempty⟩

theorem prune_foldl (minBucketIdx : Nat) (index : List Nat)
    (table : Model.Map (Address × Nat) (List PriceHistoryEntry)) (idx : Nat) :
    index.foldl (fun bucket b =>
      if b < minBucketIdx then Function.update bucket (asset,b) none else bucket) table
        (asset,idx) =
      if idx ∈ index ∧ idx < minBucketIdx then none else table (asset,idx) := by
  induction index generalizing table with
  | nil => simp
  | cons b index ih =>
    rw [List.foldl_cons,ih]
    by_cases hb : b < minBucketIdx
    · by_cases hidx : idx = b
      · simp [hidx,hb]
      · simp [hidx,hb]
    · by_cases hidx : idx = b
      · simp [hidx,hb]
      · simp [hidx,hb]

theorem ShardsSound.prune (hs : ShardsSound h asset) (minBucketIdx : Nat) :
    ShardsSound (h.pruneOldBuckets asset minBucketIdx) asset := by
  by_cases hempty : (shardIndex h asset).isEmpty = true
  · have hsame : h.pruneOldBuckets asset minBucketIdx = h := by
      exact if_pos hempty
    rw [hsame]
    exact hs
  · have hpruned : h.pruneOldBuckets asset minBucketIdx = { h with
        bucket := (shardIndex h asset).foldl (fun bucket b =>
          if b < minBucketIdx then Function.update bucket (asset,b) none else bucket) h.bucket
        bucketIndex := Function.update h.bucketIndex asset
          (some ((shardIndex h asset).filter fun b => !decide (b < minBucketIdx))) } := by
      exact if_neg hempty
    have hshards : shards (h.pruneOldBuckets asset minBucketIdx) asset =
        fun idx => if decide (idx < minBucketIdx) then none else shards h asset idx := by
      funext idx
      rw [hpruned]
      simp only [shards,prune_foldl]
      by_cases hlow : idx < minBucketIdx
      · by_cases hmem : idx ∈ shardIndex h asset
        · simp [hlow,hmem]
        · have hnone : shards h asset idx = none := by
            have hlisted := mt (hs.listed.listed idx).2 hmem
            simpa using hlisted
          simpa [shards,hlow,hmem] using hnone
      · simp [hlow]
    have hindex : shardIndex (h.pruneOldBuckets asset minBucketIdx) asset =
        (shardIndex h asset).filter fun b => !decide (b < minBucketIdx) := by
      rw [hpruned]
      simp [shardIndex]
    have hkept (idx : Nat) (bucket : List PriceHistoryEntry)
        (hb : shards (h.pruneOldBuckets asset minBucketIdx) asset idx = some bucket) :
        shards h asset idx = some bucket := by
      rw [hshards] at hb
      by_cases hlow : idx < minBucketIdx
      · simp [hlow] at hb
      · simpa [hlow] using hb
    refine ⟨fun idx b hb => hs.placed idx b (hkept idx b hb),
      fun idx b hb => hs.nonempty idx b (hkept idx b hb),?_⟩
    rw [hshards,hindex]
    exact hs.listed.sweep fun idx => decide (idx < minBucketIdx)

/-- An entry of another ledger stays in the bucket when those of `ledger` go. -/
def SharesBucket (h : History) (asset : Address) (ledger : Nat) : Prop :=
  ∀ bucket, h.bucketOf asset ledger = some bucket → ∃ e ∈ bucket, e.ledger ≠ ledger

/-- The removal of the storage tier keeps the shards sound exactly if it does not empty the bucket. -/
theorem ShardsSound.removeBucketEntry_iff (hs : ShardsSound h asset) (ledger : Nat) :
    ShardsSound (h.removeBucketEntry asset ledger) asset ↔ SharesBucket h asset ledger := by
  unfold History.removeBucketEntry SharesBucket
  cases hb : h.bucketOf asset ledger with
  | none => simp [hs]
  | some bucket =>
    have hplaced : Placed (ledgerToBucket ledger) bucket := hs.placed _ bucket hb
    have hnonempty : bucket ≠ [] := hs.nonempty _ bucket hb
    have hstored : (shards h asset (ledgerToBucket ledger)).isSome = true := by
      change (h.bucketOf asset ledger).isSome = true
      simp [hb]
    have hshares : (∀ b, some bucket = some b → ∃ e ∈ b, e.ledger ≠ ledger) ↔
        (bucket.filter fun e => e.ledger ≠ ledger) ≠ [] := by
      simp [List.filter_eq_nil_iff]
    rw [hshares]
    dsimp only
    by_cases hempty : (bucket.filter fun e => e.ledger ≠ ledger) = []
    · -- the emptied bucket is dropped, but its place in the index stays
      have hlen : ¬ (bucket.filter fun e => e.ledger ≠ ledger).length = bucket.length := by
        rw [hempty]
        exact fun h => hnonempty (List.length_eq_zero_iff.1 h.symm)
      rw [if_neg hlen,hempty]
      refine iff_of_false (fun hbroken => hs.listed.not_of_erase hstored ?_) (by simp)
      have hlisted := hbroken.listed
      unfold shards at hlisted
      rwa [shards_update] at hlisted
    · have hretained : (bucket.filter fun e => e.ledger ≠ ledger).isEmpty = false := by
        simpa [List.isEmpty_iff] using hempty
      refine iff_of_true ?_ hempty
      rw [hretained,if_neg Bool.false_ne_true]
      by_cases hlen : (bucket.filter fun e => e.ledger ≠ ledger).length = bucket.length
      · rw [if_pos hlen]
        exact hs
      · rw [if_neg hlen]
        refine hs.of_update (shards_update _ _ _) ?_ (hs.listed.overwrite hstored _)
        intro retained hvalue
        rw [← Option.some.inj hvalue]
        exact ⟨hplaced.filter _,hempty⟩

/-- The operations on the shards of an asset. -/
inductive ShardOp where
  | write (entry : PriceHistoryEntry)
  | remove (ledger : Nat)
  | writeTier (tier : HistoryStorageTier) (entry : PriceHistoryEntry)
  | removeTier (tier : HistoryStorageTier) (ledger : Nat)
  | prune (minBucketIdx : Nat)

def shardStep (asset : Address) (h : History) : ShardOp → History
  | .write entry => h.writeHistoryShard asset entry
  | .remove ledger => h.removeHistoryShardEntry asset ledger
  | .writeTier tier entry => h.writeHistoryEntry asset tier entry
  | .removeTier tier ledger => h.removeHistoryEntry asset tier ledger
  | .prune minBucketIdx => h.pruneOldBuckets asset minBucketIdx

/-- A removal from the persistent tier is to leave an entry in the bucket. -/
def LeavesBucket (asset : Address) (h : History) : ShardOp → Prop
  | .removeTier .persistent ledger => SharesBucket h asset ledger
  | _ => True

/-- The temporary tier is no part of the shards. -/
theorem ShardsSound.of_temporary (hs : ShardsSound h asset) (hbucket : h'.bucket = h.bucket)
    (hindex : h'.bucketIndex = h.bucketIndex) : ShardsSound h' asset := by
  have hshards : shards h' asset = shards h asset := by
    funext idx
    rw [shards,shards,hbucket]
  have hlist : shardIndex h' asset = shardIndex h asset := by rw [shardIndex,shardIndex,hindex]
  constructor
  · rw [hshards]
    exact hs.placed
  · rw [hshards]
    exact hs.nonempty
  · rw [hshards,hlist]
    exact hs.listed

theorem shardStep_iff (op : ShardOp) (hs : ShardsSound h asset) :
    ShardsSound (shardStep asset h op) asset ↔ LeavesBucket asset h op := by
  cases op with
  | write entry => exact iff_of_true (hs.write entry) trivial
  | remove ledger => exact iff_of_true (hs.remove ledger) trivial
  | writeTier tier entry =>
    cases tier with
    | temporary => exact iff_of_true (hs.of_temporary rfl rfl) trivial
    | persistent => exact iff_of_true (hs.write entry) trivial
  | removeTier tier ledger =>
    cases tier with
    | temporary => exact iff_of_true (hs.of_temporary rfl rfl) trivial
    | persistent => exact hs.removeBucketEntry_iff ledger
  | prune minBucketIdx => exact iff_of_true (hs.prune minBucketIdx) trivial

/-- A run leaves the shards sound after every operation exactly if no removal from the persistent
tier empties a bucket. Every write is read back, and no other entry with it. -/
theorem shards_run (hs : ShardsSound h asset) (ops : List ShardOp) :
    ((∀ x ∈ steps (shardStep asset) h ops, ShardsSound (shardStep asset x.1 x.2) asset) ↔
      ∀ x ∈ steps (shardStep asset) h ops, LeavesBucket asset x.1 x.2) ∧
    ∀ x ∈ steps (shardStep asset) h ops, ∀ entry : PriceHistoryEntry,
      x.2 = .write entry ∨ x.2 = .writeTier .persistent entry →
        ∀ a ledger, (shardStep asset x.1 x.2).shardEntry a ledger =
          if a = asset ∧ entry.ledger = ledger then some entry else x.1.shardEntry a ledger := by
  refine ⟨steps_keep_iff (I := fun s => ShardsSound s asset)
    (fun s op hsound => shardStep_iff op hsound) hs,?_⟩
  rintro ⟨s,op⟩ - entry (rfl | rfl) a ledger
  · exact s.shardEntry_writeHistoryShard asset entry a ledger
  · exact s.shardEntry_writeHistoryShard asset entry a ledger

end Operations

/-- Two ledgers of one bucket are written, and the first is removed from the tier. -/
theorem shards_run_shared :
    ShardsSound {} 1 ∧
    ∀ x ∈ steps (shardStep 1) {}
      [.write ⟨100, 50, 5, 1, false⟩, .write ⟨101, 60, 6, 1, false⟩, .removeTier .persistent 5],
      ShardsSound (shardStep 1 x.1 x.2) 1 := by
  have hfresh : ShardsSound {} 1 := shardsSound_fresh (fun _ => rfl) rfl
  rw [(shards_run hfresh _).1]
  refine ⟨hfresh,?_⟩
  simp [LeavesBucket,SharesBucket,shardStep,History.writeHistoryShard,History.bucketOf,
    History.updateBucketIndex,putEntry,ledgerToBucket,ledgersPerBucket]

/-- Under a compaction threshold the same price is published to the persistent tier twice, at ledgers
of two buckets. -/
def skippedPublication : List HistoryTx :=
  [⟨.concrete 1 5 [9], .call (.setAssetStorageTier 10 .persistent)⟩,
    ⟨.concrete 5 5 [], .call (.priced (.aggregate (.recomputeAssetPrice 10)))⟩,
    ⟨.concrete 300 5 [], .call (.priced (.aggregate (.recomputeAssetPrice 10)))⟩]

/-- The only entry of a bucket goes by the removal of the tier, and the index still lists it: after a
write and a removal, and after a publication whose entry is skipped. -/
theorem shards_run_emptied :
    let h := run (shardStep 1) {} [.write ⟨100, 50, 5, 1, false⟩, .removeTier .persistent 5]
    let published := (run execHistory (thresholdStore 100) skippedPublication).history
    (shards h 1 0 = none ∧ shardIndex h 1 = [0] ∧ ¬ShardsSound h 1) ∧
      ShardsSound (thresholdStore 100).history 10 ∧ shards published 10 1 = none ∧
      shardIndex published 10 = [0, 1] ∧ ¬ShardsSound published 10 := by
  intro h published
  have hshards : shards h 1 0 = none := by decide
  have hindex : shardIndex h 1 = [0] := by decide
  have hshards' : shards published 10 1 = none := by decide
  have hindex' : shardIndex published 10 = [0,1] := by decide
  refine ⟨⟨hshards,hindex,fun hsound => ?_⟩,shardsSound_fresh (fun _ => rfl) rfl,hshards',hindex',
    fun hsound => ?_⟩
  · have hstored := (hsound.listed.listed 0).1 (by simp [hindex])
    simp [hshards] at hstored
  · have hstored := (hsound.listed.listed 1).1 (by simp [hindex'])
    simp [hshards'] at hstored

end PriceOracle.Archive
