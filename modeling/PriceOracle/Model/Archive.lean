import PriceOracle.Model.Settings

/-! # Price history and provenance

The history index, the per-ledger entries, their persistent shards and the hash-chained provenance
records, as `history.rs`, `storage_tier.rs` and `provenance.rs` maintain them. The pruning loops
touch history and provenance together, so both are carried as one `Archive`. -/

namespace PriceOracle.Model

open Lib.Transaction Lib.MachineInt

/-- Number of ledgers covered by one history shard. -/
def ledgersPerBucket : Nat := 256

def ledgerToBucket (ledger : Nat) : Nat := ledger / ledgersPerBucket

/-- Replaces the entry of the same ledger, or appends. -/
def putEntry (entry : PriceHistoryEntry) : List PriceHistoryEntry → List PriceHistoryEntry
  | [] => [entry]
  | e :: es => if e.ledger = entry.ledger then entry :: es else e :: putEntry entry es

namespace History

variable (h : History) (asset : Address)

def ledgerList : List Nat := (h.ledgers asset).getD []

def bucketOf (ledger : Nat) : Option (List PriceHistoryEntry) :=
  h.bucket (asset, ledgerToBucket ledger)

/-- The entry of `ledger` in its persistent shard. -/
def shardEntry (ledger : Nat) : Option PriceHistoryEntry :=
  (h.bucketOf asset ledger).bind fun bucket => bucket.find? fun e => e.ledger = ledger

/-- `history::read_history_entry`: the temporary entry, else the shard. -/
def readHistoryEntry (ledger : Nat) : Option PriceHistoryEntry :=
  match h.entry (asset, ledger) with
  | some e => some e
  | none => h.shardEntry asset ledger

def setTemporary (entry : PriceHistoryEntry) : History :=
  { h with entry := Function.update h.entry (asset, entry.ledger) (some entry) }

def removeTemporary (ledger : Nat) : History :=
  { h with entry := Function.update h.entry (asset, ledger) none }

def updateBucketIndex (idx : Nat) : History :=
  let index := (h.bucketIndex asset).getD []
  if index.contains idx then h
  else { h with bucketIndex := Function.update h.bucketIndex asset (some (index ++ [idx])) }

def removeBucketIndex (idx : Nat) : History :=
  let retained := ((h.bucketIndex asset).getD []).filter (· ≠ idx)
  { h with
    bucketIndex := Function.update h.bucketIndex asset
      (if retained.isEmpty then none else some retained) }

def writeHistoryShard (entry : PriceHistoryEntry) : History :=
  let bucket := (h.bucketOf asset entry.ledger).getD []
  let idx := ledgerToBucket entry.ledger
  ({ h with
    bucket := Function.update h.bucket (asset, idx)
      (some (putEntry entry bucket)) }).updateBucketIndex asset idx

def removeHistoryShardEntry (ledger : Nat) : History :=
  match h.bucketOf asset ledger with
  | none => h
  | some bucket =>
    let retained := bucket.filter fun e => e.ledger ≠ ledger
    let idx := ledgerToBucket ledger
    if retained.isEmpty then
      ({ h with bucket := Function.update h.bucket (asset, idx) none }).removeBucketIndex asset idx
    else { h with bucket := Function.update h.bucket (asset, idx) (some retained) }

/-- `prune_old_buckets`: the buckets that the index lists below `minBucketIdx` go, and with them
their places in the index. -/
def pruneOldBuckets (minBucketIdx : Nat) : History :=
  let index := (h.bucketIndex asset).getD []
  if index.isEmpty then h
  else
    { h with
      bucket := index.foldl (fun bucket b =>
        if b < minBucketIdx then Function.update bucket (asset, b) none else bucket) h.bucket
      bucketIndex := Function.update h.bucketIndex asset
        (some (index.filter fun b => !decide (b < minBucketIdx))) }

/-- `storage_tier::remove_bucket_entry`: the bucket index is left alone. -/
def removeBucketEntry (ledger : Nat) : History :=
  match h.bucketOf asset ledger with
  | none => h
  | some bucket =>
    let retained := bucket.filter fun e => e.ledger ≠ ledger
    if retained.length = bucket.length then h
    else
      { h with
        bucket := Function.update h.bucket (asset, ledgerToBucket ledger)
          (if retained.isEmpty then none else some retained) }

def writeHistoryEntry (tier : HistoryStorageTier) (entry : PriceHistoryEntry) : History :=
  match tier with
  | .temporary => h.setTemporary asset entry
  | .persistent => h.writeHistoryShard asset entry

def removeHistoryEntry (tier : HistoryStorageTier) (ledger : Nat) : History :=
  match tier with
  | .temporary => h.removeTemporary asset ledger
  | .persistent => h.removeBucketEntry asset ledger

def setLedgers (ledgers : List Nat) : History :=
  { h with ledgers := Function.update h.ledgers asset (some ledgers) }

end History

/-- `diff * 10_000 <= threshold_bps * |reference|`, never for a zero threshold or reference. -/
def withinThreshold (referencePrice candidatePrice : Int) (thresholdBps : Nat) : Bool :=
  if thresholdBps = 0 ∨ referencePrice = 0 then false
  else
    let diff := if referencePrice < candidatePrice then wrapSub candidatePrice referencePrice
      else wrapSub referencePrice candidatePrice
    decide (satMul diff 10000 ≤ satMul thresholdBps (wrapAbs referencePrice))

/-- On-write compaction: whether the newest entry is close enough to absorb the candidate. -/
def Store.shouldSkipOnWrite (env : Env) (st : Store) (asset : Address) (candidatePrice : Int) :
    Bool :=
  let thresholdBps := st.getCompactionThresholdBps
  if thresholdBps = 0 then false
  else match (st.history.ledgerList asset).getLast? with
    | none => false
    | some lastLedger =>
      if lastLedger = env.sequence then false
      else match st.history.readHistoryEntry asset lastLedger with
        | some lastEntry => withinThreshold lastEntry.price candidatePrice thresholdBps
        | none => false

/-- The walk of `compact_history` over the ledgers between the first and the last. -/
def compactMiddle (thresholdBps : Nat) (asset : Address) :
    List Nat → History → List Nat → Int → History × List Nat
  | [], h, retained, _ => (h, retained)
  | l :: ls, h, retained, lastKeptPrice =>
    match h.readHistoryEntry asset l with
    | some e =>
      if withinThreshold lastKeptPrice e.price thresholdBps then
        compactMiddle thresholdBps asset ls
          ((h.removeTemporary asset l).removeHistoryShardEntry asset l) retained lastKeptPrice
      else compactMiddle thresholdBps asset ls h (retained ++ [l]) e.price
    | none => compactMiddle thresholdBps asset ls h retained lastKeptPrice

/-- The history a compaction leaves, for an index `first :: rest` with at least two ledgers. -/
def compacted (thresholdBps : Nat) (asset : Address) (h : History) (first : Nat)
    (rest : List Nat) : History × List Nat :=
  let firstPrice := ((h.readHistoryEntry asset first).map PriceHistoryEntry.price).getD 0
  let (h', retained) := compactMiddle thresholdBps asset rest.dropLast h [first] firstPrice
  match rest.getLast? with
  | some last => (h', if retained.getLast? = some last then retained else retained ++ [last])
  | none => (h', retained)

def compactHistory (asset : Address) : Contract CompactionMetadata := do
  checkRegisteredAsset asset
  let sequence ← getSequence
  let thresholdBps ← readStore fun _ st => st.getCompactionThresholdBps
  let ledgerList ← readStore fun _ st => st.history.ledgerList asset
  match ledgerList with
  | first :: next :: rest =>
    if thresholdBps = 0 then do
      let info : CompactionMetadata :=
        ⟨ledgerList.length, ledgerList.length, sequence, thresholdBps⟩
      modifyRounds fun r => { r with
        compactionMeta := Function.update r.compactionMeta asset (some info) }
      pure info
    else do
      let result ← readStore fun _ st =>
        compacted thresholdBps asset st.history first (next :: rest)
      modifyHistory fun _ => result.1.setLedgers asset result.2
      let info : CompactionMetadata :=
        ⟨ledgerList.length, result.2.length, sequence, thresholdBps⟩
      modifyRounds fun r => { r with
        compactionMeta := Function.update r.compactionMeta asset (some info) }
      pure info
  | _ => do
    let info : CompactionMetadata :=
      ⟨ledgerList.length, ledgerList.length, sequence, thresholdBps⟩
    modifyRounds fun r => { r with
      compactionMeta := Function.update r.compactionMeta asset (some info) }
    pure info

def setCompactionThresholdBps (thresholdBps : Nat) : Contract Unit :=
  asAdmin do
    mark .compactionThreshold
    modifyConfig fun c => { c with compactionThresholdBps := some thresholdBps }

/-- The domain separator `SUPRO1`. -/
def provenanceDomain : Bytes := [83, 85, 80, 82, 79, 49]

def zeroHash : Bytes := List.replicate 32 0

/-- The serialized contributors, each followed by its deferral. -/
def contributorBytes (host : Host) (deferrals : List Nat) : Nat → List ProvenanceEntry → Bytes
  | _, [] => []
  | i, c :: cs =>
    host.toXdr (.address c.source) ++ host.toXdr (.i128 c.price) ++ host.toXdr (.u32 c.weightBps) ++
      host.toXdr (.u32 c.submissionLedger) ++ host.toXdr (.u32 (deferrals.getD i 0)) ++
      contributorBytes host deferrals (i + 1) cs

def commitment (host : Host) (previousHash : Bytes) (ledger : Nat) (price : Int) (timestamp : Nat)
    (reference : Int) (numSources method : Nat) (contributors : List ProvenanceEntry)
    (deferrals : List Nat) : Bytes :=
  host.sha256 (provenanceDomain ++ previousHash ++ host.toXdr (.u32 ledger) ++
    host.toXdr (.i128 price) ++ host.toXdr (.u64 timestamp) ++ host.toXdr (.i128 reference) ++
    host.toXdr (.u32 numSources) ++ host.toXdr (.u32 method) ++
    contributorBytes host deferrals 0 contributors)

namespace Provenance

variable (p : Provenance)

/-- The scan of `head_before` over the history index, from its oldest ledger. -/
def headBefore (asset : Address) (ledger : Nat) : List Nat → Bytes × Bool
  | [] => (zeroHash, false)
  | l :: ls =>
    if ledger ≤ l then (zeroHash, false)
    else match p.record (asset, l) with
      | some prev => (prev.hash, true)
      | none => headBefore asset ledger ls

/-- The hash a record written at `ledger` commits to. -/
def anchorHash (asset : Address) (ledger : Nat) (index : List Nat) : Bytes :=
  if ((p.head asset).map ProvenanceHead.ledger).getD 0 < ledger then
    ((p.head asset).map ProvenanceHead.hash).getD zeroHash
  else (p.headBefore asset ledger index).1

/-- `newest_record_ledger_before`. -/
def newestLedgerBefore (ledger : Nat) (index : List Nat) : Nat :=
  index.foldl (fun newest l => if l < ledger ∧ newest < l then l else newest) 0

def prune (asset : Address) (ledger : Nat) (index : List Nat) : Provenance :=
  let p' := { p with record := Function.update p.record (asset, ledger) none }
  if (p'.head asset).map ProvenanceHead.ledger = some ledger then
    let (prev, hasPrev) := p'.headBefore asset ledger index
    { p' with
      head := Function.update p'.head asset
        (if hasPrev then some ⟨prev, newestLedgerBefore ledger index⟩ else none) }
  else p'

end Provenance

/-- The record `provenance::record` builds on `previousHash`. -/
def Publication.toRecord (pub : Publication) (host : Host) (asset : Address) (ledger : Nat)
    (previousHash : Bytes) : ProvenanceRecord :=
  let hash := commitment host previousHash ledger pub.price pub.timestamp pub.reference
    pub.contributors.length pub.method pub.contributors pub.deferrals
  { id := hash, asset, ledger, price := pub.price, timestamp := pub.timestamp,
    reference := pub.reference, numSources := pub.contributors.length, method := pub.method,
    contributors := pub.contributors, deferralLedgers := pub.deferrals, previousHash, hash }

/-- The record a publication at `ledger` adds to the chain of `asset`. -/
def Store.nextRecord (env : Env) (st : Store) (asset : Address) (ledger : Nat)
    (pub : Publication) : ProvenanceRecord :=
  pub.toRecord env.host asset ledger
    (st.provenance.anchorHash asset ledger (st.history.ledgerList asset))

/-- Stores a record and makes it the head of its asset's chain. -/
def Provenance.put (p : Provenance) (asset : Address) (ledger : Nat) (r : ProvenanceRecord) :
    Provenance where
  record := Function.update p.record (asset, ledger) (some r)
  head := Function.update p.head asset (some ⟨r.hash, ledger⟩)

def verifyRecord (host : Host) (r : ProvenanceRecord) : Bool :=
  commitment host r.previousHash r.ledger r.price r.timestamp r.reference r.numSources r.method
    r.contributors r.deferralLedgers = r.hash ∧ r.id = r.hash

def Store.verifyLink (host : Host) (st : Store) (asset : Address) (ledger : Nat) : Bool :=
  match st.provenance.record (asset, ledger) with
  | some r =>
    if verifyRecord host r then
      let (expected, found) :=
        st.provenance.headBefore asset ledger (st.history.ledgerList asset)
      if found then r.previousHash = expected else true
    else false
  | none => false

structure Archive where
  history : History
  provenance : Provenance

/-- One iteration of a pruning loop: everything kept for the oldest ledger goes. -/
def Archive.dropLedger (a : Archive) (asset : Address) (stored : List Nat) (oldest : Nat) :
    Archive :=
  ⟨(a.history.removeTemporary asset oldest).removeHistoryShardEntry asset oldest,
    a.provenance.prune asset oldest stored⟩

/-- A pruning loop with its event budget. `stored` is the index still in storage meanwhile. -/
def pruneLoop (asset : Address) (stored : List Nat) (cap maxEvents : Nat) :
    List Nat → Nat → Archive → List Nat × Nat × Archive
  | [], events, a => ([], events, a)
  | l :: ls, events, a =>
    if cap < ls.length + 1 then
      if maxEvents ≤ events then (l :: ls, events, a)
      else pruneLoop asset stored cap maxEvents ls (events + 1) (a.dropLedger asset stored l)
    else (l :: ls, events, a)

/-- The index with the current ledger appended, unless it is already the last one. -/
def pushLedger (index : List Nat) (ledger : Nat) : List Nat :=
  if index.getLast? = some ledger then index else index ++ [ledger]

def Publication.toEntry (pub : Publication) (ledger : Nat) : PriceHistoryEntry :=
  ⟨pub.price, pub.timestamp, ledger, pub.numSources, false⟩

/-- A publication before pruning: record the provenance, write the entry to its tier, then index
and shard it, or remove it again when on-write compaction skips it. -/
def Store.appendRound (env : Env) (st : Store) (asset : Address) (ledger : Nat)
    (pub : Publication) : List Nat × Archive :=
  let stored := st.history.ledgerList asset
  let tier := st.getAssetStorageTier asset
  let provenance := st.provenance.put asset ledger (st.nextRecord env asset ledger pub)
  let history := st.history.writeHistoryEntry asset tier (pub.toEntry ledger)
  if st.shouldSkipOnWrite env asset pub.price then
    (stored, ⟨history.removeHistoryEntry asset tier ledger, provenance⟩)
  else
    (pushLedger stored ledger, ⟨history.writeHistoryShard asset (pub.toEntry ledger), provenance⟩)

/-- The two pruning loops share one event budget; the index in storage is still the old one. -/
def Store.pruneRound (st : Store) (asset : Address) (index : List Nat) (archive : Archive) :
    List Nat × Archive :=
  let stored := st.history.ledgerList asset
  let maxEvents := st.getMaxEventsPerCall
  let (index, events, archive) :=
    pruneLoop asset stored st.getMaxHistoryLength maxEvents index 0 archive
  let (index, _, archive) :=
    pruneLoop asset stored st.getMaxHistoryPerAsset maxEvents index events archive
  (index, archive)

/-- The provenance and history part of a publication. -/
def Store.archiveRound (env : Env) (st : Store) (asset : Address) (ledger : Nat)
    (pub : Publication) : Archive :=
  let (index, archive) := st.appendRound env asset ledger pub
  let (index, archive) := st.pruneRound asset index archive
  { archive with history := archive.history.setLedgers asset index }

/-- Writes the archive of a publication and the records that depend on it. -/
def archivePublication (asset : Address) (ledger : Nat) (pub : Publication) : Contract Unit := do
  let record ← readStore fun e st => st.nextRecord e asset ledger pub
  notePublication asset ledger record
  let archive ← readStore fun e st => st.archiveRound e asset ledger pub
  let skip ← readStore fun e st => st.shouldSkipOnWrite e asset pub.price
  let thresholdBps ← readStore fun _ st => st.getCompactionThresholdBps
  let count := (archive.history.ledgerList asset).length
  modifyHistory fun _ => archive.history
  modifyProvenance fun _ => archive.provenance
  modifyRounds fun r => { r with
    lastAggregateLedger := Function.update r.lastAggregateLedger asset (some ledger)
    compactionMeta := if skip then Function.update r.compactionMeta asset
        (some ⟨satAdd32 count 1, count, ledger, thresholdBps⟩) else r.compactionMeta }

theorem archivePublication_frame (asset : Address) (ledger : Nat) (pub : Publication) :
    Frame [.history,.provenance,.rounds] (archivePublication asset ledger pub) := by
  refine .read fun record => ?_
  refine ((notePublication_frame asset ledger record).mono (by simp)).bind fun _ => ?_
  refine .read fun archive => .read fun skip => .read fun thresholdBps => ?_
  refine ((modifyHistory_frame _).mono (by simp)).bind fun _ => ?_
  refine ((modifyProvenance_frame _).mono (by simp)).bind fun _ => ?_
  exact (modifyRounds_frame _).mono (by simp)

theorem archivePublication_sat (asset : Address) (ledger : Nat) (pub : Publication) (w : World) :
    Sat (archivePublication asset ledger pub) w fun _ w' =>
      w'.log.publications = w.log.publications ++
        [⟨w.store,asset,ledger,w.store.nextRecord w.env asset ledger pub⟩] ∧
      w'.store.history = (w.store.archiveRound w.env asset ledger pub).history ∧
      w'.store.provenance = (w.store.archiveRound w.env asset ledger pub).provenance := by
  unfold archivePublication
  simp

end PriceOracle.Model
