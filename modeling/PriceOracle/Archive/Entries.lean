import PriceOracle.Lib.Queues
import PriceOracle.Model.Archive
import Mathlib.Order.Nat

/-! # Reading the history back

What `read_history_entry` returns after each write and each removal of `history.rs` and
`storage_tier.rs`. An operation on one ledger of one asset is seen by no other read. -/

namespace PriceOracle.Model

theorem find_putEntry (entry : PriceHistoryEntry) (bucket : List PriceHistoryEntry) (ledger : Nat) :
    (putEntry entry bucket).find? (fun e => e.ledger = ledger) =
      if entry.ledger = ledger then some entry else bucket.find? fun e => e.ledger = ledger := by
  induction bucket with
  | nil => by_cases h : entry.ledger = ledger <;> simp [putEntry,h]
  | cons e es ih =>
    unfold putEntry
    by_cases he : e.ledger = entry.ledger
    · by_cases h : entry.ledger = ledger
      · simp [he,h]
      · simp [he,h]
    · rw [if_neg he]
      by_cases hl : e.ledger = ledger
      · have hne : entry.ledger ≠ ledger := fun h => he (hl.trans h.symm)
        simp [hl,hne]
      · simp only [List.find?_cons,hl,decide_false,ih]

theorem find_filter_ne (bucket : List PriceHistoryEntry) {ledger dropped : Nat}
    (h : ledger ≠ dropped) :
    (bucket.filter fun e => e.ledger ≠ dropped).find? (fun e => e.ledger = ledger) =
      bucket.find? fun e => e.ledger = ledger := by
  induction bucket with
  | nil => rfl
  | cons e es ih =>
    by_cases he : e.ledger = dropped
    · simp [he,h.symm,← ih]
    · by_cases hl : e.ledger = ledger
      · simp [hl,h]
      · simp [he,hl,← ih]

theorem mem_pushLedger (index : List Nat) (ledger l : Nat) :
    l ∈ pushLedger index ledger ↔ l ∈ index ∨ l = ledger :=
  Lib.SortedIndex.mem_push index ledger l

namespace History

variable (h : History) (asset : Address)

theorem updateBucketIndex_entry (idx : Nat) : (h.updateBucketIndex asset idx).entry = h.entry := by
  unfold updateBucketIndex
  dsimp only
  split_ifs <;> rfl

theorem updateBucketIndex_bucket (idx : Nat) :
    (h.updateBucketIndex asset idx).bucket = h.bucket := by
  unfold updateBucketIndex
  dsimp only
  split_ifs <;> rfl

theorem updateBucketIndex_ledgers (idx : Nat) :
    (h.updateBucketIndex asset idx).ledgers = h.ledgers := by
  unfold updateBucketIndex
  dsimp only
  split_ifs <;> rfl

theorem shardEntry_writeHistoryShard (entry : PriceHistoryEntry) (a : Address) (ledger : Nat) :
    (h.writeHistoryShard asset entry).shardEntry a ledger =
      if a = asset ∧ entry.ledger = ledger then some entry else h.shardEntry a ledger := by
  unfold writeHistoryShard shardEntry bucketOf
  rw [updateBucketIndex_bucket]
  dsimp only
  by_cases hkey : (a,ledgerToBucket ledger) = (asset,ledgerToBucket entry.ledger)
  · obtain ⟨rfl,hidx⟩ := Prod.mk.inj hkey
    rw [hkey,Function.update_self,Option.bind_some,find_putEntry]
    by_cases hl : entry.ledger = ledger
    · simp [hl]
    · rw [if_neg hl,if_neg fun hc => hl hc.2]
      cases h.bucket (a,ledgerToBucket entry.ledger) <;> rfl
  · rw [Function.update_of_ne hkey,if_neg]
    rintro ⟨rfl,rfl⟩
    exact hkey rfl

theorem writeHistoryShard_entry (entry : PriceHistoryEntry) :
    (h.writeHistoryShard asset entry).entry = h.entry :=
  updateBucketIndex_entry _ _ _

theorem writeHistoryShard_ledgers (entry : PriceHistoryEntry) :
    (h.writeHistoryShard asset entry).ledgers = h.ledgers :=
  updateBucketIndex_ledgers _ _ _

/-- A shard write makes its ledger readable and hides nothing. -/
theorem readHistoryEntry_writeHistoryShard (entry : PriceHistoryEntry) (a : Address)
    (ledger : Nat) :
    (h.readHistoryEntry a ledger).isSome = true ∨ a = asset ∧ entry.ledger = ledger →
      ((h.writeHistoryShard asset entry).readHistoryEntry a ledger).isSome = true := by
  unfold readHistoryEntry
  rw [writeHistoryShard_entry,shardEntry_writeHistoryShard]
  cases h.entry (a,ledger) with
  | some e => simp
  | none =>
    rintro (hread | hkey)
    · split_ifs
      · rfl
      · exact hread
    · simp [hkey]

theorem writeHistoryEntry_ledgers (tier : HistoryStorageTier) (entry : PriceHistoryEntry) :
    (h.writeHistoryEntry asset tier entry).ledgers = h.ledgers := by
  cases tier with
  | temporary => rfl
  | persistent => exact h.writeHistoryShard_ledgers asset entry

theorem readHistoryEntry_writeHistoryEntry (tier : HistoryStorageTier) (entry : PriceHistoryEntry)
    (a : Address) (ledger : Nat) (hread : (h.readHistoryEntry a ledger).isSome = true) :
    ((h.writeHistoryEntry asset tier entry).readHistoryEntry a ledger).isSome = true := by
  cases tier with
  | temporary =>
    unfold writeHistoryEntry setTemporary readHistoryEntry at *
    by_cases hkey : (a,ledger) = (asset,entry.ledger)
    · simp [hkey]
    · dsimp only
      rw [Function.update_of_ne hkey]
      exact hread
  | persistent => exact h.readHistoryEntry_writeHistoryShard asset entry a ledger (Or.inl hread)

variable {h asset} in
/-- A bucket that loses the entries of one ledger loses the read of that ledger only. -/
theorem shardEntry_filtered {h' : History} {dropped : Nat} {bucket : List PriceHistoryEntry}
    {value : Option (List PriceHistoryEntry)} (hb : h.bucketOf asset dropped = some bucket)
    (hbucket : h'.bucket = Function.update h.bucket (asset,ledgerToBucket dropped) value)
    (hvalue : value.getD [] = bucket.filter fun e => e.ledger ≠ dropped) (a : Address)
    (ledger : Nat) :
    h'.shardEntry a ledger =
      if (a,ledger) = (asset,dropped) then none else h.shardEntry a ledger := by
  have hfound : (h'.bucketOf asset dropped).bind (fun b => b.find? fun e => e.ledger = ledger) =
      (bucket.filter fun e => e.ledger ≠ dropped).find? fun e => e.ledger = ledger := by
    rw [← hvalue,bucketOf,hbucket,Function.update_self]
    cases value <;> rfl
  by_cases hkey : (a,ledgerToBucket ledger) = (asset,ledgerToBucket dropped)
  · obtain ⟨rfl,hidx⟩ := Prod.mk.inj hkey
    have hsame (g : History) : g.bucketOf a ledger = g.bucketOf a dropped := by
      simp [bucketOf,hidx]
    rw [shardEntry,shardEntry,hsame,hsame,hfound,hb,Option.bind_some]
    by_cases hl : ledger = dropped
    · simp [hl]
    · simp only [Prod.mk.injEq,hl,and_false,if_false]
      exact find_filter_ne bucket hl
  · have hne : (a,ledger) ≠ (asset,dropped) := by
      rintro ⟨⟩
      exact hkey rfl
    rw [if_neg hne,shardEntry,shardEntry,bucketOf,bucketOf,hbucket,Function.update_of_ne hkey]

theorem shardEntry_of_no_bucket {ledger : Nat} (hb : h.bucketOf asset ledger = none) :
    h.shardEntry asset ledger = none := by
  simp [shardEntry,hb]

theorem shardEntry_removeHistoryShardEntry (dropped : Nat) (a : Address) (ledger : Nat) :
    (h.removeHistoryShardEntry asset dropped).shardEntry a ledger =
      if (a,ledger) = (asset,dropped) then none else h.shardEntry a ledger := by
  unfold removeHistoryShardEntry
  cases hb : h.bucketOf asset dropped with
  | none =>
    by_cases hkey : (a,ledger) = (asset,dropped)
    · obtain ⟨rfl,rfl⟩ := Prod.mk.inj hkey
      simp [h.shardEntry_of_no_bucket a hb]
    · simp [hkey]
  | some bucket =>
    dsimp only
    by_cases hempty : (bucket.filter fun e => e.ledger ≠ dropped).isEmpty
    · rw [if_pos hempty]
      exact shardEntry_filtered hb rfl (by simpa using hempty) a ledger
    · rw [if_neg hempty]
      exact shardEntry_filtered hb rfl rfl a ledger

theorem shardEntry_removeBucketEntry (dropped : Nat) (a : Address) (ledger : Nat) :
    (h.removeBucketEntry asset dropped).shardEntry a ledger =
      if (a,ledger) = (asset,dropped) then none else h.shardEntry a ledger := by
  unfold removeBucketEntry
  cases hb : h.bucketOf asset dropped with
  | none =>
    by_cases hkey : (a,ledger) = (asset,dropped)
    · obtain ⟨rfl,rfl⟩ := Prod.mk.inj hkey
      simp [h.shardEntry_of_no_bucket a hb]
    · simp [hkey]
  | some bucket =>
    dsimp only
    by_cases hlen : (bucket.filter fun e => e.ledger ≠ dropped).length = bucket.length
    · have hsame : bucket = bucket.filter fun e => e.ledger ≠ dropped :=
        (List.filter_sublist.eq_of_length hlen).symm
      have hbucket : h.bucket =
          Function.update h.bucket (asset,ledgerToBucket dropped) (some bucket) := by
        rw [← hb,bucketOf,Function.update_eq_self]
      rw [if_pos hlen]
      exact shardEntry_filtered hb hbucket hsame a ledger
    · rw [if_neg hlen]
      by_cases hempty : (bucket.filter fun e => e.ledger ≠ dropped).isEmpty
      · rw [if_pos hempty]
        exact shardEntry_filtered hb rfl (by simpa using hempty) a ledger
      · rw [if_neg hempty]
        exact shardEntry_filtered hb rfl rfl a ledger

theorem removeHistoryShardEntry_entry (dropped : Nat) :
    (h.removeHistoryShardEntry asset dropped).entry = h.entry := by
  unfold removeHistoryShardEntry
  split
  · rfl
  · dsimp only
    split_ifs <;> rfl

theorem removeHistoryShardEntry_ledgers (dropped : Nat) :
    (h.removeHistoryShardEntry asset dropped).ledgers = h.ledgers := by
  unfold removeHistoryShardEntry
  split
  · rfl
  · dsimp only
    split_ifs <;> rfl

theorem readHistoryEntry_dropped (dropped : Nat) (a : Address) (ledger : Nat) :
    ((h.removeTemporary asset dropped).removeHistoryShardEntry asset dropped).readHistoryEntry
      a ledger = if (a,ledger) = (asset,dropped) then none else h.readHistoryEntry a ledger := by
  unfold readHistoryEntry
  rw [removeHistoryShardEntry_entry,shardEntry_removeHistoryShardEntry]
  by_cases hkey : (a,ledger) = (asset,dropped)
  · simp [hkey,removeTemporary]
  · simp [hkey,removeTemporary,shardEntry,bucketOf]

theorem readHistoryEntry_drop {a : Address} {ledger dropped : Nat}
    (hne : (a,ledger) ≠ (asset,dropped)) :
    ((h.removeTemporary asset dropped).removeHistoryShardEntry asset dropped).readHistoryEntry
      a ledger = h.readHistoryEntry a ledger := by
  rw [readHistoryEntry_dropped,if_neg hne]

section Tiers

variable (tier : HistoryStorageTier) (entry : PriceHistoryEntry) (a : Address) (ledger : Nat)

theorem entry_writeHistoryEntry :
    (h.writeHistoryEntry asset tier entry).entry (a,ledger) =
      if tier = .temporary ∧ (a,ledger) = (asset,entry.ledger) then some entry
      else h.entry (a,ledger) := by
  cases tier with
  | temporary =>
    by_cases hkey : (a,ledger) = (asset,entry.ledger)
    · simp [writeHistoryEntry,setTemporary,hkey]
    · simp [writeHistoryEntry,setTemporary,hkey]
  | persistent => simp [writeHistoryEntry,writeHistoryShard_entry]

theorem shardEntry_writeHistoryEntry :
    (h.writeHistoryEntry asset tier entry).shardEntry a ledger =
      if tier = .persistent ∧ (a,ledger) = (asset,entry.ledger) then some entry
      else h.shardEntry a ledger := by
  cases tier with
  | temporary => simp [writeHistoryEntry,setTemporary,shardEntry,bucketOf]
  | persistent => simp [writeHistoryEntry,shardEntry_writeHistoryShard,eq_comm]

theorem entry_removeHistoryEntry (dropped : Nat) :
    (h.removeHistoryEntry asset tier dropped).entry (a,ledger) =
      if tier = .temporary ∧ (a,ledger) = (asset,dropped) then none
      else h.entry (a,ledger) := by
  cases tier with
  | temporary => simp [removeHistoryEntry,removeTemporary,Function.update_apply]
  | persistent =>
    simp only [removeHistoryEntry,removeBucketEntry,reduceCtorEq,false_and,if_false]
    cases h.bucketOf asset dropped with
    | none => rfl
    | some bucket => dsimp only; split_ifs <;> rfl

theorem shardEntry_removeHistoryEntry (dropped : Nat) :
    (h.removeHistoryEntry asset tier dropped).shardEntry a ledger =
      if tier = .persistent ∧ (a,ledger) = (asset,dropped) then none
      else h.shardEntry a ledger := by
  cases tier with
  | temporary => simp [removeHistoryEntry,removeTemporary,shardEntry,bucketOf]
  | persistent => simp [removeHistoryEntry,shardEntry_removeBucketEntry]

variable {a ledger}

theorem readHistoryEntry_written :
    ((h.writeHistoryEntry asset tier entry).readHistoryEntry asset entry.ledger).isSome = true := by
  unfold readHistoryEntry
  rw [entry_writeHistoryEntry,shardEntry_writeHistoryEntry]
  cases tier with
  | temporary => simp
  | persistent => cases h.entry (asset,entry.ledger) <;> simp

theorem readHistoryEntry_written_of_ne (hne : (a,ledger) ≠ (asset,entry.ledger)) :
    (h.writeHistoryEntry asset tier entry).readHistoryEntry a ledger =
      h.readHistoryEntry a ledger := by
  unfold readHistoryEntry
  rw [entry_writeHistoryEntry,shardEntry_writeHistoryEntry]
  simp [hne]

/-- An entry of a new ledger that is written and removed again leaves no trace. -/
theorem readHistoryEntry_unwritten (hnew : h.readHistoryEntry asset entry.ledger = none) :
    ((h.writeHistoryEntry asset tier entry).removeHistoryEntry asset tier
      entry.ledger).readHistoryEntry a ledger = h.readHistoryEntry a ledger := by
  unfold readHistoryEntry at hnew ⊢
  rw [entry_removeHistoryEntry,shardEntry_removeHistoryEntry,entry_writeHistoryEntry,
    shardEntry_writeHistoryEntry]
  by_cases hkey : (a,ledger) = (asset,entry.ledger)
  · cases hentry : h.entry (asset,entry.ledger) with
    | some e => simp [hentry] at hnew
    | none =>
      simp only [hentry] at hnew
      obtain ⟨rfl,rfl⟩ := Prod.mk.inj hkey
      cases tier <;> simp [hentry,hnew]
  · simp [hkey]

end Tiers

@[simp] theorem ledgerList_setLedgers (ledgers : List Nat) :
    (h.setLedgers asset ledgers).ledgerList asset = ledgers := by
  simp [setLedgers,ledgerList]

end History

/-- The two archives hold the same of `asset`. -/
structure Archive.AgreeOn (asset : Address) (a b : Archive) : Prop where
  entry : ∀ ledger, b.history.entry (asset, ledger) = a.history.entry (asset, ledger)
  bucket : ∀ idx, b.history.bucket (asset, idx) = a.history.bucket (asset, idx)
  ledgers : b.history.ledgers asset = a.history.ledgers asset
  record : ∀ ledger, b.provenance.record (asset, ledger) = a.provenance.record (asset, ledger)
  head : b.provenance.head asset = a.provenance.head asset

namespace Archive

variable {asset other : Address} {a b c : Archive}

theorem AgreeOn.refl (a : Archive) : AgreeOn asset a a :=
  ⟨fun _ => rfl,fun _ => rfl,rfl,fun _ => rfl,rfl⟩

theorem AgreeOn.trans (hab : AgreeOn asset a b) (hbc : AgreeOn asset b c) : AgreeOn asset a c where
  entry l := (hbc.entry l).trans (hab.entry l)
  bucket i := (hbc.bucket i).trans (hab.bucket i)
  ledgers := hbc.ledgers.trans hab.ledgers
  record l := (hbc.record l).trans (hab.record l)
  head := hbc.head.trans hab.head

theorem AgreeOn.readHistoryEntry (h : AgreeOn asset a b) (ledger : Nat) :
    b.history.readHistoryEntry asset ledger = a.history.readHistoryEntry asset ledger := by
  unfold History.readHistoryEntry History.shardEntry History.bucketOf
  rw [h.entry,h.bucket]

theorem AgreeOn.ledgerList (h : AgreeOn asset a b) :
    b.history.ledgerList asset = a.history.ledgerList asset := by
  rw [History.ledgerList,History.ledgerList,h.ledgers]

variable (hne : asset ≠ other)

include hne

theorem agreeOn_setTemporary (entry : PriceHistoryEntry) :
    AgreeOn asset a ⟨a.history.setTemporary other entry,a.provenance⟩ :=
  ⟨fun _ => Function.update_of_ne (fun h => hne (Prod.mk.inj h).1) _ _,fun _ => rfl,rfl,
    fun _ => rfl,rfl⟩

theorem agreeOn_removeTemporary (ledger : Nat) :
    AgreeOn asset a ⟨a.history.removeTemporary other ledger,a.provenance⟩ :=
  ⟨fun _ => Function.update_of_ne (fun h => hne (Prod.mk.inj h).1) _ _,fun _ => rfl,rfl,
    fun _ => rfl,rfl⟩

theorem agreeOn_setLedgers (ledgers : List Nat) :
    AgreeOn asset a ⟨a.history.setLedgers other ledgers,a.provenance⟩ :=
  ⟨fun _ => rfl,fun _ => rfl,Function.update_of_ne hne _ _,fun _ => rfl,rfl⟩

theorem agreeOn_bucket {h' : History} {idx : Nat} {value : Option (List PriceHistoryEntry)}
    (hentry : h'.entry = a.history.entry)
    (hbucket : h'.bucket = Function.update a.history.bucket (other,idx) value)
    (hledgers : h'.ledgers = a.history.ledgers) : AgreeOn asset a ⟨h',a.provenance⟩ := by
  refine ⟨fun l => by rw [hentry],fun i => ?_,by rw [hledgers],fun _ => rfl,rfl⟩
  rw [hbucket]
  exact Function.update_of_ne (fun h => hne (Prod.mk.inj h).1) _ _

theorem agreeOn_writeHistoryShard (entry : PriceHistoryEntry) :
    AgreeOn asset a ⟨a.history.writeHistoryShard other entry,a.provenance⟩ :=
  agreeOn_bucket hne (a.history.writeHistoryShard_entry other entry)
    (History.updateBucketIndex_bucket _ _ _) (a.history.writeHistoryShard_ledgers other entry)

theorem agreeOn_removeHistoryShardEntry (ledger : Nat) :
    AgreeOn asset a ⟨a.history.removeHistoryShardEntry other ledger,a.provenance⟩ := by
  unfold History.removeHistoryShardEntry
  cases a.history.bucketOf other ledger with
  | none => exact AgreeOn.refl a
  | some bucket =>
    dsimp only
    split_ifs
    · exact agreeOn_bucket hne rfl rfl rfl
    · exact agreeOn_bucket hne rfl rfl rfl

theorem agreeOn_writeHistoryEntry (tier : HistoryStorageTier) (entry : PriceHistoryEntry) :
    AgreeOn asset a ⟨a.history.writeHistoryEntry other tier entry,a.provenance⟩ := by
  cases tier with
  | temporary => exact agreeOn_setTemporary hne entry
  | persistent => exact agreeOn_writeHistoryShard hne entry

theorem agreeOn_removeHistoryEntry (tier : HistoryStorageTier) (ledger : Nat) :
    AgreeOn asset a ⟨a.history.removeHistoryEntry other tier ledger,a.provenance⟩ := by
  cases tier with
  | temporary => exact agreeOn_removeTemporary hne ledger
  | persistent =>
    unfold History.removeHistoryEntry History.removeBucketEntry
    cases a.history.bucketOf other ledger with
    | none => exact AgreeOn.refl a
    | some bucket =>
      dsimp only
      split_ifs
      · exact AgreeOn.refl a
      · exact agreeOn_bucket hne rfl rfl rfl
      · exact agreeOn_bucket hne rfl rfl rfl

theorem agreeOn_put (ledger : Nat) (r : ProvenanceRecord) :
    AgreeOn asset a ⟨a.history,a.provenance.put other ledger r⟩ :=
  ⟨fun _ => rfl,fun _ => rfl,rfl,
    fun _ => Function.update_of_ne (fun h => hne (Prod.mk.inj h).1) _ _,
    Function.update_of_ne hne _ _⟩

theorem agreeOn_prune (ledger : Nat) (index : List Nat) :
    AgreeOn asset a ⟨a.history,a.provenance.prune other ledger index⟩ := by
  have hrecord (l : Nat) : Function.update a.provenance.record (other,ledger) none (asset,l) =
      a.provenance.record (asset,l) :=
    Function.update_of_ne (fun h => hne (Prod.mk.inj h).1) _ _
  unfold Provenance.prune
  dsimp only
  split_ifs
  · exact ⟨fun _ => rfl,fun _ => rfl,rfl,hrecord,Function.update_of_ne hne _ _⟩
  · exact ⟨fun _ => rfl,fun _ => rfl,rfl,hrecord,Function.update_of_ne hne _ _⟩
  · exact ⟨fun _ => rfl,fun _ => rfl,rfl,hrecord,rfl⟩

theorem agreeOn_dropLedger (stored : List Nat) (ledger : Nat) :
    AgreeOn asset a (a.dropLedger other stored ledger) :=
  ((agreeOn_removeTemporary hne ledger).trans
    (agreeOn_removeHistoryShardEntry hne ledger)).trans (agreeOn_prune hne ledger stored)

theorem agreeOn_pruneLoop (stored : List Nat) (cap maxEvents : Nat) (index : List Nat)
    (events : Nat) :
    AgreeOn asset a (pruneLoop other stored cap maxEvents index events a).2.2 := by
  induction index generalizing events a with
  | nil => exact AgreeOn.refl a
  | cons l ls ih =>
    unfold pruneLoop
    split_ifs
    · exact AgreeOn.refl a
    · exact (agreeOn_dropLedger hne stored l).trans (ih (events+1))
    · exact AgreeOn.refl a

theorem agreeOn_appendRound (env : Env) (st : Store) (ledger : Nat) (pub : Publication) :
    AgreeOn asset ⟨st.history,st.provenance⟩ (st.appendRound env other ledger pub).2 := by
  have hwrite := (agreeOn_put (a := ⟨st.history,st.provenance⟩) hne ledger
    (st.nextRecord env other ledger pub)).trans
    (agreeOn_writeHistoryEntry hne (st.getAssetStorageTier other) (pub.toEntry ledger))
  unfold Store.appendRound
  split_ifs
  · exact hwrite.trans (agreeOn_removeHistoryEntry hne (st.getAssetStorageTier other) ledger)
  · exact hwrite.trans (agreeOn_writeHistoryShard hne (pub.toEntry ledger))

theorem agreeOn_archiveRound (env : Env) (st : Store) (ledger : Nat) (pub : Publication) :
    AgreeOn asset ⟨st.history,st.provenance⟩ (st.archiveRound env other ledger pub) :=
  (((agreeOn_appendRound hne env st ledger pub).trans (agreeOn_pruneLoop hne _ _ _ _ _)).trans
    (agreeOn_pruneLoop hne _ _ _ _ _)).trans (agreeOn_setLedgers hne _)

end Archive

end PriceOracle.Model
