import PriceOracle.Model.Recovery
import PriceOracle.Model.Submissions
import PriceOracle.Model.Twap

/-! # The readers of prices

What `get_price` and the three readers of the common oracle interface serve: a frozen price, an
override of the administrator, an average while the breaker is tripped, the published aggregate, or
an entry of the history. The counters of degraded reads are left out. -/

namespace PriceOracle.Model

open Lib.Transaction Lib.MachineInt

def Store.getAssetResolution (st : Store) (asset : Address) : Nat :=
  (st.config.assetResolution asset).getD st.getResolution

def FrozenPrice.served (f : FrozenPrice) : AggregatePrice :=
  ⟨f.price, f.timestamp, 0, f.decimals, false, 0⟩

def PriceOverrideEntry.served (o : PriceOverrideEntry) (timestamp decimals : Nat) :
    AggregatePrice :=
  ⟨o.price, timestamp, 0, decimals, true, 0⟩

/-- The override in force; an expired one is removed. -/
def activeOverride (asset : Address) : Contract (Option PriceOverrideEntry) := do
  let sequence ← getSequence
  let stored ← readStore fun _ st => st.overrides asset
  match stored with
  | none => pure none
  | some o =>
    if sequence ≤ o.expiryLedger then pure (some o)
    else do
      modifyOverrides fun m => Function.update m asset none
      pure none

/-- Older than a limit; a limit of zero is none. -/
def AggregatePrice.stale (a : AggregatePrice) (limit now : Nat) : Bool :=
  0 < limit && satAdd64 a.timestamp limit < now

/-- The published aggregate, unless it is the placeholder of a migration or too old. -/
def Store.freshAggregate (env : Env) (st : Store) (asset : Address) (maxAge : Nat) :
    Option AggregatePrice :=
  (st.aggregate asset).filter fun a => 0 < a.price && !a.stale maxAge env.timestamp &&
    !a.stale (st.getAssetResolution asset) env.timestamp

/-- Neither the average nor the last aggregate is asked for its sign or its age. -/
def Store.fallbackPrice (env : Env) (st : Store) (asset : Address) : Option AggregatePrice :=
  (st.computeTwapFallback env asset).or (st.aggregate asset)

def Store.livePrice (env : Env) (st : Store) (asset : Address) (maxAge : Nat) :
    Option AggregatePrice :=
  if st.isCircuitBreakerTripped asset then st.fallbackPrice env asset
  else st.freshAggregate env asset maxAge

/-- The part of `get_price` below the freeze. -/
def getUnfrozenPrice (asset : Address) (maxAge : Nat) : Contract (Option AggregatePrice) := do
  let override ← activeOverride asset
  match override with
  | some o => readStore fun e st => some (o.served e.timestamp st.getDecimals)
  | none => readStore fun e st => st.livePrice e asset maxAge

def getPrice (asset : Address) (maxAge : Nat) : Contract (Option AggregatePrice) := do
  checkRegisteredAsset asset
  checkNotDisabled asset
  -- the policy serves the counters only, but reading it panics on a missing configuration
  let _ ← effectivePolicy asset
  let frozen ← readStore fun _ st => st.getFrozenPrice asset
  match frozen with
  | some f => pure (some f.served)
  | none => getUnfrozenPrice asset maxAge

/-- The registration flag itself; the readers do not rebuild the index. -/
def Store.registeredToken (st : Store) : Asset → Option Address
  | .stellar a => if (st.registry.assetRegistered a).getD false then some a else none
  | .other _ => none

/-- The age of an aggregate is limited by the resolution only. -/
def Store.lastprice (env : Env) (st : Store) (asset : Asset) : Option PriceData :=
  (st.registeredToken asset).bind fun a => (st.freshAggregate env a 0).map fun agg =>
    ⟨agg.price, agg.timestamp, env.sequence⟩

def PriceHistoryEntry.data (e : PriceHistoryEntry) (ledger : Nat) : PriceData :=
  ⟨e.price, e.timestamp, ledger⟩

/-- The first entry at or before `timestamp`, from `ledger` downwards over `n` more ledgers. -/
def History.lookBack (h : History) (asset : Address) (timestamp : Nat) :
    Nat → Nat → Option PriceData
  | 0, ledger => ((h.readHistoryEntry asset ledger).filter fun e => e.timestamp ≤ timestamp).map
      fun e => e.data ledger
  | n + 1, ledger =>
    match (h.readHistoryEntry asset ledger).filter fun e => e.timestamp ≤ timestamp with
    | some e => some (e.data ledger)
    | none => h.lookBack asset timestamp n (ledger - 1)

/-- The aggregate is served whatever its sign, if it has just this timestamp. -/
def Store.price (env : Env) (st : Store) (asset : Asset) (timestamp : Nat) : Option PriceData :=
  (st.registeredToken asset).bind fun a =>
    match (st.aggregate a).filter fun agg => agg.timestamp = timestamp with
    | some agg => some ⟨agg.price, agg.timestamp, env.sequence⟩
    | none => st.history.lookBack a timestamp (min env.sequence 1000) env.sequence

/-- At most `records` entries, newest first, from `ledger` downwards over `n` more ledgers. -/
def History.recent (h : History) (asset : Address) : Nat → Nat → Nat → List PriceData
  | 0, ledger, _ => ((h.readHistoryEntry asset ledger).map fun e => e.data ledger).toList
  | n + 1, ledger, records =>
    match h.readHistoryEntry asset ledger with
    | none => h.recent asset n (ledger - 1) records
    | some e =>
      e.data ledger :: if records ≤ 1 then [] else h.recent asset n (ledger - 1) (records - 1)

def maxPageSize : Nat := 50

/-- Without any entry the aggregate is served, whatever its sign and age. -/
def Store.recentPrices (env : Env) (st : Store) (asset : Address) (records : Nat) :
    List PriceData :=
  let entries := st.history.recent asset (min env.sequence (min (wrap32 (records * 10)) 10000))
    env.sequence records
  if entries = [] then
    ((st.aggregate asset).map fun agg => ⟨agg.price, agg.timestamp, env.sequence⟩).toList
  else entries

/-- The only reader that asks for the dead-man switch. -/
def prices (asset : Asset) (records : Nat) : Contract (Option (List PriceData)) := do
  let degraded ← readStore fun _ st => st.isDegraded
  let token ← readStore fun _ st => st.registeredToken asset
  if degraded = true then pure none
  else match token with
    | none => pure none
    | some a =>
      if records = 0 then pure (some [])
      else do
        let maxHistory ← readStore fun _ st => st.getMaxHistoryLength
        ensure (records ≤ maxHistory ∧ records ≤ maxPageSize) .recordsLimitExceeded
        readStore fun e st => some (st.recentPrices e a records)

end PriceOracle.Model
