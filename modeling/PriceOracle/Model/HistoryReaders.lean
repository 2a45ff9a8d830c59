import PriceOracle.Model.Serving

/-! # Readers of the price history

The price at a ledger, on the line between its neighbours where nothing was recorded; the pages of
the history; their export with a digest and its verification; and the completeness watermark. The
watermarks have a storage map of their own, which is passed along. -/

namespace PriceOracle.Model

open Lib.Transaction Lib.MachineInt

/-- The scan of the index for the nearest readable entries before and after a ledger. -/
def History.neighbours (h : History) (asset : Address) (ledger : Nat) :
    List Nat → Option PriceHistoryEntry → Option PriceHistoryEntry →
      Option PriceHistoryEntry × Option PriceHistoryEntry
  | [], before, after => (before, after)
  | l :: ls, before, after =>
    if l ≤ ledger then h.neighbours asset ledger ls ((h.readHistoryEntry asset l).or before) after
    else h.neighbours asset ledger ls before (after.or (h.readHistoryEntry asset l))

/-- The entry on the line through two others. -/
def interpolated (b a : PriceHistoryEntry) (ledger : Nat) : PriceHistoryEntry :=
  let range : Int := wrapSub32 a.ledger b.ledger
  let offset : Int := wrapSub32 ledger b.ledger
  let elapsed : Int := (a.timestamp - b.timestamp : Nat)
  { price := wrapAdd b.price ((wrapMul (wrapSub a.price b.price) offset).tdiv range)
    timestamp := wrap64 (b.timestamp + wrap64 (toU128 ((wrapMul elapsed offset).tdiv range)))
    ledger
    numSources := 0
    isInterpolated := true }

def Store.historicalPrice (st : Store) (asset : Address) (ledger : Nat) :
    Except ErrorCode PriceHistoryEntry :=
  match st.history.readHistoryEntry asset ledger with
  | some e => .ok e
  | none =>
    if st.getInterpolationEnabled then
      match st.history.neighbours asset ledger (st.history.ledgerList asset) none none with
      | (some b, some a) =>
        -- a zero range traps
        if wrapSub32 a.ledger b.ledger = 0 then .error .hostTrap else .ok (interpolated b a ledger)
      | _ => .error .noData
    else .error .noData

def getHistoricalPrice (asset : Address) (ledger : Nat) : Contract PriceHistoryEntry := do
  checkRegisteredAsset asset
  consult fun w => w.store.historicalPrice asset ledger

/-- The scan of the index for one page: readable entries from the cursor on, and the next one. -/
def History.pageLoop (h : History) (asset : Address) (cursor limit : Nat) :
    List Nat → List PriceHistoryEntry → List PriceHistoryEntry × Option Nat
  | [], entries => (entries, none)
  | l :: ls, entries =>
    if l < cursor then h.pageLoop asset cursor limit ls entries
    else match h.readHistoryEntry asset l with
      | some e =>
        if limit ≤ entries.length then (entries, some l)
        else h.pageLoop asset cursor limit ls (entries ++ [e])
      | none => h.pageLoop asset cursor limit ls entries

def getHistoricalPricesPaginated (asset : Address) (cursor limit : Nat) :
    Contract (List PriceHistoryEntry × Option Nat) := do
  checkRegisteredAsset asset
  ensure (0 < limit ∧ limit ≤ maxPageSize) .invalidPageSize
  readStore fun _ st => st.history.pageLoop asset cursor limit (st.history.ledgerList asset) []

def maxExportLimit : Nat := 200

/-- Both halves of the price, the upper one spread by a multiplication. -/
def mixHash (acc : Nat) (price : Int) : Nat :=
  let lo := toU128 price % 2 ^ 64
  let hi := toU128 price / 2 ^ 64
  acc ^^^ lo ^^^ wrap64 (hi * 0x9e3779b97f4a7c15)

structure ExportedEntry where
  asset : Address
  price : Int
  timestamp : Nat
  ledger : Nat
  numSources : Nat
  isInterpolated : Bool
deriving DecidableEq

def PriceHistoryEntry.toExported (e : PriceHistoryEntry) (asset : Address) : ExportedEntry :=
  ⟨asset, e.price, e.timestamp, e.ledger, e.numSources, e.isInterpolated⟩

structure ExportedHistorySnapshot where
  entries : List ExportedEntry := []
  dataHash : Nat := 0
  fromLedger : Nat := 0
  toLedger : Nat := 0
  totalAvailable : Nat
  nextCursor : Nat := 0
deriving DecidableEq

/-- The scan of the index for one page of an export, which reads the temporary entries only. -/
def History.exportLoop (h : History) (asset : Address) (fromLedger limit : Nat) :
    List Nat → ExportedHistorySnapshot → ExportedHistorySnapshot
  | [], s => s
  | l :: ls, s =>
    if l < fromLedger then h.exportLoop asset fromLedger limit ls s
    else if limit ≤ s.entries.length then { s with nextCursor := l }
    else match h.entry (asset, l) with
      | some e => h.exportLoop asset fromLedger limit ls { s with
          entries := s.entries ++ [e.toExported asset]
          dataHash := mixHash s.dataHash e.price
          fromLedger := if s.entries.isEmpty then l else s.fromLedger
          toLedger := l }
      | none => h.exportLoop asset fromLedger limit ls s

def exportHistory (asset : Address) (fromLedger limit : Nat) :
    Contract ExportedHistorySnapshot := do
  checkRegisteredAsset asset
  ensure (0 < limit ∧ limit ≤ maxExportLimit) .exportLimitExceeded
  readStore fun _ st =>
    let ledgerList := st.history.ledgerList asset
    st.history.exportLoop asset fromLedger limit ledgerList { totalAvailable := ledgerList.length }

/-- The temporary entries of the indexed ledgers in a range. -/
def History.exportedRange (h : History) (asset : Address) (fromLedger toLedger : Nat) :
    List PriceHistoryEntry :=
  ((h.ledgerList asset).filter fun l => fromLedger ≤ l ∧ l ≤ toLedger).filterMap fun l =>
    h.entry (asset, l)

def verifyExport (asset : Address) (fromLedger toLedger expectedDataHash : Nat) :
    Contract Bool := do
  checkRegisteredAsset asset
  let entries ← readStore fun _ st => st.history.exportedRange asset fromLedger toLedger
  ensure (entries ≠ []) .exportNotFound
  pure (decide (entries.foldl (fun acc e => mixHash acc e.price) 0 = expectedDataHash))

structure CompletenessWatermark where
  asset : Address
  watermarkLedger : Nat
  watermarkTimestamp : Nat
  firstLedger : Nat
  isContiguous : Bool
  gapStartLedger : Nat
  snapshotCount : Nat
deriving DecidableEq

/-- The strides between the first sixteen ledgers. -/
def sampleStrides (ledgerList : List Nat) : List Nat :=
  let sample := ledgerList.take 16
  sample.zipWith (fun prev curr => curr - prev) sample.tail

/-- The most common stride, the earlier one among equals. -/
def computeDominantStride (ledgerList : List Nat) : Nat :=
  if ledgerList.length < 2 then 1
  else
    let strides := sampleStrides ledgerList
    let best := strides.foldl (fun (best : Nat × Nat) s =>
      let cnt := strides.count s
      if best.2 < cnt then (s, cnt) else best) (strides.headD 0, 0)
    if best.1 = 0 then 1 else best.1

/-- The scan for the first gap: the ledger before it, and where it is said to start. -/
def watermarkScan (stride : Nat) : Nat → List Nat → Nat × Option Nat
  | prev, [] => (prev, none)
  | prev, curr :: rest =>
    if max (satMul32 stride 2) (wrap32 (stride + 1)) < curr - prev then
      (prev, some (satAdd32 prev stride))
    else watermarkScan stride curr rest

def History.readHistoryTimestamp (h : History) (asset : Address) (ledger : Nat) : Nat :=
  ((h.readHistoryEntry asset ledger).map PriceHistoryEntry.timestamp).getD 0

/-- The watermark record that `advance_watermark` computes. -/
def History.watermark (h : History) (asset : Address) : CompletenessWatermark :=
  match h.ledgerList asset with
  | [] => ⟨asset, 0, 0, 0, true, 0, 0⟩
  | [first] => ⟨asset, first, h.readHistoryTimestamp asset first, first, true, 0, 1⟩
  | first :: rest =>
    let stride := computeDominantStride (first :: rest)
    let (watermarkLedger, gap) := watermarkScan stride first rest
    ⟨asset, watermarkLedger, h.readHistoryTimestamp asset watermarkLedger, first, gap.isNone,
      gap.getD 0, rest.length + 1⟩

/-- `advance_watermark`: the record is stored and returned. -/
def advanceWatermark (h : History) (watermarks : Map Address CompletenessWatermark)
    (asset : Address) : CompletenessWatermark × Map Address CompletenessWatermark :=
  let wm := h.watermark asset
  (wm, Function.update watermarks asset (some wm))

end PriceOracle.Model
