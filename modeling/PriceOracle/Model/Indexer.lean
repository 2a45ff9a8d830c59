import Mathlib.Algebra.Order.Ring.Int
import Mathlib.Data.List.Sort
import PriceOracle.Lib.KeyedRows
import PriceOracle.Model.EventAuthenticity

/-! # The reference indexer

Verified events are stored by ledger and index, and what they say is written to the tables of the
sources, submissions and aggregates when they come in. The column `data` holds the dictionary that
its text is written from. -/

namespace PriceOracle.Model.Indexing

open Lib.JsonText Lib.PyText Lib.KeyedRows

def VerifiedEvent.key (event : VerifiedEvent) : Int × Int := (event.ledger, event.eventIndex)

structure SourceRow where
  name : Option String
  addedLedger : Int
  removedLedger : Option Int
  deriving DecidableEq, Repr

structure SubmissionRow where
  ledger : Int
  eventIndex : Int
  asset : String
  source : String
  price : Int
  timestamp : Int
  deriving DecidableEq, Repr

structure AggregateRow where
  ledger : Int
  eventIndex : Int
  asset : String
  price : Int
  numSources : Int
  timestamp : Int
  recomputed : Int
  deriving DecidableEq, Repr

def SubmissionRow.key (row : SubmissionRow) : Int × Int := (row.ledger, row.eventIndex)

def AggregateRow.key (row : AggregateRow) : Int × Int := (row.ledger, row.eventIndex)

/-- The tables that are written from the events. -/
structure Tables where
  sources : String → Option SourceRow
  submissions : List SubmissionRow
  aggregates : List AggregateRow

def Tables.empty : Tables := ⟨fun _ => none, [], []⟩

/-- The store behind an indexer. The tables `rejected` and `reorgs` are only written. -/
structure Indexer where
  contractId : Option String
  events : List VerifiedEvent
  tables : Tables
  gaps : List (Int × Int)
  cursor : Option Int
  batchLedgerHash : Option (Int × String)

/-- A new store. -/
def Indexer.fresh (policy : TrustPolicy) : Indexer :=
  ⟨truthy policy.expectedContractId, [], .empty, [], none, none⟩

def lastLedger (events : List VerifiedEvent) : Option Int := (events.map (·.ledger)).max?

/-- The highest ledger with no gap before it. -/
def Indexer.trustedLedger (s : Indexer) : Option Int :=
  match (s.gaps.map Prod.fst).min? with
  | some first => some (first - 1)
  | none => lastLedger s.events

/-- What Python makes of the values that have no meaning of their own here: `str` of a float or a
container, the integer part of a float, and the text of a float in a text column. -/
structure Readers where
  repr : Json → String
  trunc : String → Option Int
  real : String → Option String

/-- `str(value)` -/
def Readers.str (R : Readers) : Json → String
  | .null => "None"
  | .bool true => "True"
  | .bool false => "False"
  | .int n => toString n
  | .str text => text
  | .float literal => R.repr (.float literal)
  | .arr items => R.repr (.arr items)
  | .obj members => R.repr (.obj members)

/-- The most digits that `int` reads and `str` writes. -/
def maxDigits : Nat := 4300

/-- `int(value)` -/
def Readers.int (R : Readers) : Json → Option Int
  | .int n => some n
  | .bool value => some (if value then 1 else 0)
  | .str text =>
    if text.toList.countP (fun c => (decimalValue c).isSome) ≤ maxDigits then readInt text else none
  | .float literal => R.trunc literal
  | .null | .arr _ | .obj _ => none

/-- An integer that a column takes. -/
def fits (n : Int) : Bool := -2 ^ 63 ≤ n && n < 2 ^ 63

/-- A value in a text column. A list or an object cannot be bound. -/
def Readers.column (R : Readers) : Json → Option (Option String)
  | .null => some none
  | .bool value => some (some (if value then "1" else "0"))
  | .int n => if fits n then some (some (toString n)) else none
  | .float literal => some (R.real literal)
  | .str text => some (some text)
  | .arr _ | .obj _ => none

mutual

/-- No integer in the value has more digits than are written. -/
def printable : Json → Bool
  | .int n => n.natAbs < 10 ^ maxDigits
  | .arr items => printableItems items
  | .obj members => printableMembers members
  | .null | .bool _ | .float _ | .str _ => true
termination_by structural value => value

def printableItems : List Json → Bool
  | [] => true
  | item :: rest => printable item && printableItems rest
termination_by structural items => items

def printableMembers : List (String × Json) → Bool
  | [] => true
  | (_, value) :: rest => printable value && printableMembers rest
termination_by structural members => members

end

/-- `median`, whose division cuts like that of the contract -/
def median (prices : List Int) : Int :=
  let s := prices.insertionSort (· ≤ ·)
  let n := s.length
  if n = 0 then 0
  else if n % 2 = 1 then s[n / 2]?.getD 0
  else
    let lower := s[n / 2 - 1]?.getD 0
    let upper := s[n / 2]?.getD 0
    let diff := upper - lower
    lower + (diff.natAbs / 2 : Nat) * (if 0 ≤ diff then 1 else -1)

/-- What an event writes to the tables. -/
inductive Effect
  | sourceAdded (source : String) (name : Option String)
  | sourceRemoved (source : String)
  | priceSubmitted (asset source : String) (price timestamp : Int)
  | priceAggregated (asset : String) (price numSources timestamp : Int)
  | other
  deriving DecidableEq, Repr

/-- `data.get(name, default)` as an integer -/
def VerifiedEvent.integer (event : VerifiedEvent) (R : Readers) (name : String) (default : Int) :
    Option Int :=
  (get? event.data name).elim (some default) R.int

/-- The first half of `_materialize`: what the fields say. It is none when one is missing or cannot
be read. -/
def effectOf (R : Readers) (event : VerifiedEvent) : Option Effect :=
  if event.topic = "source_added" then do
    let source ← get? event.data "source"
    let name ← R.column (field event.data "name")
    some (.sourceAdded (R.str source) name)
  else if event.topic = "source_removed" then do
    let source ← get? event.data "source"
    some (.sourceRemoved (R.str source))
  else if event.topic = "price_submitted" then do
    let asset ← get? event.data "asset"
    let source ← get? event.data "source"
    let price ← (get? event.data "price").bind R.int
    let timestamp ← (event.integer R "timestamp" event.timestamp).filter fits
    some (.priceSubmitted (R.str asset) (R.str source) price timestamp)
  else if event.topic = "price_aggregated" then do
    let asset ← get? event.data "asset"
    let price ← (get? event.data "price").bind R.int
    let numSources ← (event.integer R "num_sources" 0).filter fits
    let timestamp ← (event.integer R "timestamp" event.timestamp).filter fits
    some (.priceAggregated (R.str asset) price numSources timestamp)
  else some .other

/-- The source is not removed at the ledger, as far as its row says. -/
def Tables.active (t : Tables) (source : String) (ledger : Int) : Bool :=
  match (t.sources source).bind (·.removedLedger) with
  | some removed => ledger < removed
  | none => true

/-- The rows of `_latest_prices`: submissions of active sources before the aggregate. -/
def Tables.counted (t : Tables) (asset : String) (ledger index : Int) : List SubmissionRow :=
  t.submissions.filter fun row =>
    row.asset = asset && Before row.key (ledger, index) && t.active row.source ledger

def Tables.latestPrices (t : Tables) (asset : String) (ledger index : Int) : List Int :=
  ((t.counted asset ledger index).foldl (fun latest row => setItem latest row.source row.price)
    []).map Prod.snd

/-- The second half of `_materialize`. The key of a submission or an aggregate is never there yet:
the row is written and deleted with that of its event. -/
def Tables.write (t : Tables) (ledger index : Int) : Effect → Tables
  | .sourceAdded source name =>
    { t with sources := Function.update t.sources source (some ⟨name, ledger, none⟩) }
  | .sourceRemoved source =>
    { t with
      sources := Function.update t.sources source
        ((t.sources source).map fun row => { row with removedLedger := some ledger }) }
  | .priceSubmitted asset source price timestamp =>
    { t with
      submissions := insertRow SubmissionRow.key
        ⟨ledger, index, asset, source, price, timestamp⟩ t.submissions }
  | .priceAggregated asset price numSources timestamp =>
    { t with
      aggregates := insertRow AggregateRow.key
        ⟨ledger, index, asset, price, numSources, timestamp,
          median (t.latestPrices asset ledger index)⟩ t.aggregates }
  | .other => t

/-- The part of `rollback_to` for these tables. -/
def Tables.rollback (t : Tables) (ledger : Int) : Tables where
  sources := fun source =>
    (((t.sources source).filter fun row => row.addedLedger ≤ ledger).map fun row =>
      { row with removedLedger := row.removedLedger.filter (· ≤ ledger) })
  submissions := t.submissions.filter fun row => row.ledger ≤ ledger
  aggregates := t.aggregates.filter fun row => row.ledger ≤ ledger

/-- `rollback_to` -/
def Indexer.rollbackTo (s : Indexer) (ledger : Int) : Indexer :=
  let events := s.events.filter fun event => event.ledger ≤ ledger
  { s with
    events := events
    tables := s.tables.rollback ledger
    gaps := s.gaps.filter fun gap => gap.1 ≤ ledger
    cursor := lastLedger events }

/-- `INSERT OR IGNORE INTO gaps` -/
def insertGap (gaps : List (Int × Int)) (gap : Int × Int) : List (Int × Int) :=
  if gap ∈ gaps then gaps else gaps ++ [gap]

def covers (gap : Int × Int) (ledger : Int) : Bool := gap.1 ≤ ledger && ledger ≤ gap.2

/-- One gap is replaced by what is left of it on either side of the ledger. -/
def splitGap (ledger : Int) (gaps : List (Int × Int)) (gap : Int × Int) : List (Int × Int) :=
  let gaps := gaps.filter (· != gap)
  let gaps := if gap.1 ≤ ledger - 1 then insertGap gaps (gap.1, ledger - 1) else gaps
  if ledger + 1 ≤ gap.2 then insertGap gaps (ledger + 1, gap.2) else gaps

/-- `_close_gap_at` -/
def closeGapAt (gaps : List (Int × Int)) (ledger : Int) : List (Int × Int) :=
  (gaps.filter (covers · ledger)).foldl (splitGap ledger) gaps

/-- `_last_close_time` -/
def Indexer.lastCloseTime (s : Indexer) (ledger : Option Int) : Option Int :=
  ledger.bind fun ledger => (s.events.filter fun event =>
    event.ledger ≤ ledger).getLast?.map (·.timestamp)

/-- The hash stored for a ledger: that of its first event. -/
def Indexer.storedHash (s : Indexer) (ledger : Int) : Option String :=
  (s.events.find? fun event => event.ledger = ledger).bind (·.ledgerHash)

/-- The event comes with another hash than the one stored for its ledger. -/
def Indexer.forked (s : Indexer) (event : VerifiedEvent) : Bool :=
  match truthy event.ledgerHash, truthy (s.storedHash event.ledger) with
  | some hash, some stored => stored != hash
  | _, _ => false

/-- `_check_ledger_hash` -/
def Indexer.checkLedgerHash (s : Indexer) (event : VerifiedEvent) :
    Except AuthenticityError Indexer :=
  if s.forked event then
    if s.batchLedgerHash.any (·.1 == event.ledger) then
      throw (refusal .ledgerHashInconsistent event.ledger
        "the same ledger arrived with two different hashes in one batch")
    else pure (s.rollbackTo (event.ledger - 1))
  else pure s

def Indexer.pin (s : Indexer) (event : VerifiedEvent) : Indexer :=
  { s with contractId := s.contractId.or (some event.contractId) }

/-- The event's key is in the store. -/
def Indexer.has (s : Indexer) (event : VerifiedEvent) : Bool :=
  s.events.any fun stored => stored.key == event.key

/-- The missing ledgers when the event is past the next one. -/
def Indexer.jump (s : Indexer) (event : VerifiedEvent) : Option (Int × Int) :=
  s.cursor.bind fun cur =>
    if event.ledger > cur + 1 then some (cur + 1, event.ledger - 1) else none

/-- What ends a batch before its end. -/
inductive Raised
  | refused (error : AuthenticityError)
  | gap (first last : Int)
  | other
  deriving DecidableEq, Repr

/-- The values of the event's row are bound and written. -/
def recordable (event : VerifiedEvent) : Bool := fits event.timestamp && printableMembers event.data

/-- The event's row is inserted. -/
def Indexer.insertEvent (s : Indexer) (event : VerifiedEvent) : Indexer :=
  { s with events := insertRow VerifiedEvent.key event s.events }

/-- The end of `_ingest_one`: the tables are written and the cursor is moved. -/
def Indexer.finish (s : Indexer) (event : VerifiedEvent) (effect : Effect) : Indexer :=
  { s with
    tables := s.tables.write event.ledger event.eventIndex effect
    cursor := if s.cursor.all (· < event.ledger) then some event.ledger else s.cursor
    batchLedgerHash :=
      ((truthy event.ledgerHash).map (event.ledger, ·)).or s.batchLedgerHash }

/-- The part of `_ingest_one` after the check for gaps. A failure leaves what was written before. -/
def record (R : Readers) (s : Indexer) (event : VerifiedEvent) : Indexer × Except Raised Nat :=
  let s := { s with gaps := closeGapAt s.gaps event.ledger }
  if recordable event then
    let s := s.insertEvent event
    match effectOf R event with
    | some effect => (s.finish event effect, .ok 1)
    | none => (s, .error .other)
  else (s, .error .other)

/-- The part of `_ingest_one` after the check of the hash. A gap is entered also when the event is
refused for it. -/
def store (R : Readers) (allowGaps : Bool) (s : Indexer) (event : VerifiedEvent) :
    Indexer × Except Raised Nat :=
  if !fits event.eventIndex then (s, .error .other)
  else if s.has event then (s, .ok 0)
  else
    match s.jump event with
    | none => record R s event
    | some gap =>
      let s := { s with gaps := insertGap s.gaps gap }
      if allowGaps then record R s event else (s, .error (.gap gap.1 gap.2))

/-- `row.get(name)` if the row is an object -/
def rowField (row : Json) (name : String) : Json :=
  match row with
  | .obj members => field members name
  | _ => .null

def rowLedger (row : Json) : Option Int := asInt? (rowField row "ledger")

/-- What a refused event raises. The refusal is recorded with the index, if a column takes it. -/
def rejection (index : Json) (error : AuthenticityError) : Raised :=
  if (asInt? index).all fits then .refused error else .other

/-- `_ingest_one`. A ledger that no column takes fails in the look-up of the close time. -/
def ingestOne (R : Readers) (policy : TrustPolicy) (allowGaps : Bool) (s : Indexer) (row : Json)
    (index : Json) : Indexer × Except Raised Nat :=
  if (rowLedger row).all fits then
    match verifyEvent policy row s.contractId (s.lastCloseTime (rowLedger row)) index with
    | .error error => (s, .error (rejection index error))
    | .ok event =>
      match (s.pin event).checkLedgerHash event with
      | .error error => (s.pin event, .error (rejection (.int event.eventIndex) error))
      | .ok s => store R allowGaps s event
  else (s, .error .other)

/-- The index of the row, or else the one counted for its ledger. Only a ledger that is an integer
has a count that is read again. -/
def indexOf (counters : Option Int → Int) (row : Json) : Json :=
  orElse (rowField row "event_index") (.int (counters (rowLedger row)))

def count (counters : Option Int → Int) (row : Json) : Option Int → Int :=
  Function.update counters (rowLedger row) ((asInt? (indexOf counters row)).getD 0 + 1)

/-- A dictionary takes the ledger of the row as a key. -/
def hashable (row : Json) : Bool :=
  match rowField row "ledger" with
  | .arr _ | .obj _ => false
  | .null | .bool _ | .int _ | .float _ | .str _ => true

/-- The loop of `ingest` -/
def ingestRows (R : Readers) (policy : TrustPolicy) (allowGaps : Bool) :
    List Json → Indexer → (Option Int → Int) → Nat → Indexer × Except Raised Nat
  | [], s, _, added => (s, .ok added)
  | row :: rest, s, counters, added =>
    if hashable row then
      match ingestOne R policy allowGaps s row (indexOf counters row) with
      | (s, .ok n) => ingestRows R policy allowGaps rest s (count counters row) (added + n)
      | (s, .error raised) => (s, .error raised)
    else (s, .error .other)

/-- The rows of one call of `ingest` and its flag. -/
structure Batch where
  rows : List Json
  allowGaps : Bool

def ingest (R : Readers) (policy : TrustPolicy) (s : Indexer) (batch : Batch) :
    Indexer × Except Raised Nat :=
  ingestRows R policy batch.allowGaps batch.rows { s with batchLedgerHash := none } (fun _ => 0) 0

/-- A run of calls, each on the store that the one before has left. -/
def ingestAll (R : Readers) (policy : TrustPolicy) (s : Indexer) (batches : List Batch) : Indexer :=
  batches.foldl (fun s batch => (ingest R policy s batch).1) s

end PriceOracle.Model.Indexing
