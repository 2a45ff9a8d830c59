import PriceOracle.Model.Store

/-! # Storage access

The verdicts other modules take from storage, the regions of a `World`, and one accessor for each
region. Two regions are observed rather than stored: whether an asset is registered survives the
lazy rebuild of the membership index, and whether a source is suspended survives the expiry of a
disqualification. -/

namespace PriceOracle.Model

open Lib.Transaction Lib.Footprint Lib.MachineInt

/-- `feature_flags::on`. -/
def Store.on (st : Store) (f : FeatureFlag) : Bool := st.flags f

def Store.isRegisteredAsset (st : Store) (asset : Address) : Bool :=
  (st.registry.assetIndex asset).getD false || (st.registry.assetRegistered asset).getD false

def Store.demeritConfig (st : Store) : DemeritConfig :=
  st.config.demeritConfig.getD ⟨2, 5, 10, 100⟩

/-- Lifts a disqualification whose cooldown has elapsed at ledger `sequence`. -/
def SourceDemeritState.settle (sequence cooldown : Nat) (state : SourceDemeritState) :
    SourceDemeritState :=
  if state.status = .disqualified ∧ satAdd32 state.statusUpdatedLedger cooldown ≤ sequence then
    ⟨0, .active, sequence⟩
  else state

theorem SourceDemeritState.settle_settle (sequence cooldown : Nat) (state : SourceDemeritState) :
    (state.settle sequence cooldown).settle sequence cooldown = state.settle sequence cooldown := by
  by_cases h : state.status = .disqualified ∧ satAdd32 state.statusUpdatedLedger cooldown ≤ sequence
  · simp [SourceDemeritState.settle,h]
  · simp [SourceDemeritState.settle,h]

def Store.storedDemerits (st : Store) (source : Address) : SourceDemeritState :=
  (st.demerits source).getD ⟨0, .active, 0⟩

/-- The demerit state a read returns, with an expired disqualification already lifted. -/
def Store.sourceDemerits (env : Env) (st : Store) (source : Address) : SourceDemeritState :=
  if st.on .sourceDemerits then
    (st.storedDemerits source).settle env.sequence st.demeritConfig.cooldownLedgers
  else ⟨0, .active, 0⟩

/-- The verdict of `is_source_suspended`. -/
def Store.suspended (env : Env) (st : Store) (source : Address) : Bool :=
  (st.sourceDemerits env source).status = .disqualified

inductive Region
  | env | flags | config | bounds | gates | registry | suspension | stats | heartbeats
  | submissions | aggregates | rounds | history | provenance | corrections | optimistic | relayers
  | feeMarket | consensus | multisig | treasury | finality | timelock | migration | custody
  | deadMan | recovery | adaptiveQuorum | subscriptions | amm | operations | sources | breakers
  | baskets | exotic | channels | challenges | bridge | volatility | overrides | emergency
  | entered | auths
deriving DecidableEq

def Region.View : Region → Type
  | .env => Env
  | .flags => FeatureFlag → Bool
  | .config => Config
  | .bounds => Bounds
  | .gates => Gates
  | .registry => (Address → Bool) × List Address × List Address × Map Address Bool × Map Address Int
  | .suspension => Address → Bool
  | .stats => SourceStats
  | .heartbeats => Heartbeats
  | .submissions => Map (Address × Address) PriceEntry × List SubmissionWrite
  | .aggregates => Map Address AggregatePrice × List AggregateWrite
  | .rounds => RoundRecords
  | .history => History
  | .provenance => Provenance × List PublicationNote
  | .corrections => Corrections
  | .optimistic => Optimistic
  | .relayers => Relayers
  | .feeMarket => FeeMarket
  | .consensus => Consensus
  | .multisig => Multisig
  | .treasury => Option Int
  | .finality => Finality
  | .timelock => Timelock
  | .migration => Migration
  | .custody => Custody
  | .deadMan => DeadMan × List DeadManEvent
  | .recovery => Recovery
  | .adaptiveQuorum => AdaptiveQuorum
  | .subscriptions => Subscriptions
  | .amm => Amm
  | .operations => Operations
  | .sources => SourceRecords
  | .breakers => Breakers
  | .baskets => Map Address BasketConfig
  | .exotic => Map Address AssetPricingConfig
  | .channels => Channels
  | .challenges => Challenges
  | .bridge => Bridge
  | .volatility => Volatility
  | .overrides => Map Address PriceOverrideEntry
  | .emergency => Option EmergencyPause
  | .entered => Bool
  | .auths => List Address

def Region.view : (r : Region) → World → r.View
  | .env, w => w.env
  | .flags, w => w.store.flags
  | .config, w => w.store.config
  | .bounds, w => w.store.bounds
  | .gates, w => w.store.gates
  | .registry, w => (w.store.isRegisteredAsset, w.store.registry.assets, w.store.registry.sources,
      w.store.registry.srcActive, w.store.registry.sourceBond)
  | .suspension, w => w.store.suspended w.env
  | .stats, w => w.store.stats
  | .heartbeats, w => w.store.heartbeats
  | .submissions, w => (w.store.submission, w.log.submissions)
  | .aggregates, w => (w.store.aggregate, w.log.aggregates)
  | .rounds, w => w.store.rounds
  | .history, w => w.store.history
  | .provenance, w => (w.store.provenance, w.log.publications)
  | .corrections, w => w.store.corrections
  | .optimistic, w => w.store.optimistic
  | .relayers, w => w.store.relayers
  | .feeMarket, w => w.store.feeMarket
  | .consensus, w => w.store.consensus
  | .multisig, w => w.store.multisig
  | .treasury, w => w.store.treasury
  | .finality, w => w.store.finality
  | .timelock, w => w.store.timelock
  | .migration, w => w.store.migration
  | .custody, w => w.store.custody
  | .deadMan, w => (w.store.deadMan, w.log.liveness)
  | .recovery, w => w.store.recovery
  | .adaptiveQuorum, w => w.store.adaptiveQuorum
  | .subscriptions, w => w.store.subscriptions
  | .amm, w => w.store.amm
  | .operations, w => w.store.operations
  | .sources, w => w.store.sources
  | .breakers, w => w.store.breakers
  | .baskets, w => w.store.baskets
  | .exotic, w => w.store.exotic
  | .channels, w => w.store.channels
  | .challenges, w => w.store.challenges
  | .bridge, w => w.store.bridge
  | .volatility, w => w.store.volatility
  | .overrides, w => w.store.overrides
  | .emergency, w => w.store.emergency
  | .entered, w => w.store.entered
  | .auths, w => w.log.auths

def layout : Layout Region World := ⟨Region.View, Region.view⟩

abbrev Frame {α : Type} (T : List Region) (m : Contract α) : Prop := Touches layout T m

/-- A read of the environment or of storage. -/
def readStore {α : Type} (f : Env → Store → α) : Contract α := inspect fun w => f w.env w.store

def getSequence : Contract Nat := readStore fun e _ => e.sequence

def getTimestamp : Contract Nat := readStore fun e _ => e.timestamp

/-- `Address::require_auth`. -/
def requireAuth (a : Address) : Contract Unit := do
  let ok ← readStore fun e _ => e.authorized a
  ensure (ok = true) .notAuthorized
  update fun w => { w with log := { w.log with auths := w.log.auths ++ [a] } }

def modifyStats (f : SourceStats → SourceStats) : Contract Unit :=
  update fun w => { w with store := { w.store with stats := f w.store.stats } }

def modifyHeartbeats (f : Heartbeats → Heartbeats) : Contract Unit :=
  update fun w => { w with store := { w.store with heartbeats := f w.store.heartbeats } }

def modifyRounds (f : RoundRecords → RoundRecords) : Contract Unit :=
  update fun w => { w with store := { w.store with rounds := f w.store.rounds } }

def modifyHistory (f : History → History) : Contract Unit :=
  update fun w => { w with store := { w.store with history := f w.store.history } }

def modifyProvenance (f : Provenance → Provenance) : Contract Unit :=
  update fun w => { w with store := { w.store with provenance := f w.store.provenance } }

def modifyCorrections (f : Corrections → Corrections) : Contract Unit :=
  update fun w => { w with store := { w.store with corrections := f w.store.corrections } }

def modifyOptimistic (f : Optimistic → Optimistic) : Contract Unit :=
  update fun w => { w with store := { w.store with optimistic := f w.store.optimistic } }

def modifyRelayers (f : Relayers → Relayers) : Contract Unit :=
  update fun w => { w with store := { w.store with relayers := f w.store.relayers } }

def modifyFeeMarket (f : FeeMarket → FeeMarket) : Contract Unit :=
  update fun w => { w with store := { w.store with feeMarket := f w.store.feeMarket } }

def modifyConsensus (f : Consensus → Consensus) : Contract Unit :=
  update fun w => { w with store := { w.store with consensus := f w.store.consensus } }

def modifyMultisig (f : Multisig → Multisig) : Contract Unit :=
  update fun w => { w with store := { w.store with multisig := f w.store.multisig } }

def modifyGates (f : Gates → Gates) : Contract Unit :=
  update fun w => { w with store := { w.store with gates := f w.store.gates } }

def modifyBounds (f : Bounds → Bounds) : Contract Unit :=
  update fun w => { w with store := { w.store with bounds := f w.store.bounds } }

def modifyConfig (f : Config → Config) : Contract Unit :=
  update fun w => { w with store := { w.store with config := f w.store.config } }

def modifyFinality (f : Finality → Finality) : Contract Unit :=
  update fun w => { w with store := { w.store with finality := f w.store.finality } }

def modifyTimelock (f : Timelock → Timelock) : Contract Unit :=
  update fun w => { w with store := { w.store with timelock := f w.store.timelock } }

def modifyMigration (f : Migration → Migration) : Contract Unit :=
  update fun w => { w with store := { w.store with migration := f w.store.migration } }

def modifyCustody (f : Custody → Custody) : Contract Unit :=
  update fun w => { w with store := { w.store with custody := f w.store.custody } }

def modifyDeadMan (f : DeadMan → DeadMan) : Contract Unit :=
  update fun w => { w with store := { w.store with deadMan := f w.store.deadMan } }

def modifyRecovery (f : Recovery → Recovery) : Contract Unit :=
  update fun w => { w with store := { w.store with recovery := f w.store.recovery } }

def modifyAdaptiveQuorum (f : AdaptiveQuorum → AdaptiveQuorum) : Contract Unit :=
  update fun w => { w with store := { w.store with adaptiveQuorum := f w.store.adaptiveQuorum } }

def modifySubscriptions (f : Subscriptions → Subscriptions) : Contract Unit :=
  update fun w => { w with store := { w.store with subscriptions := f w.store.subscriptions } }

def modifyAmm (f : Amm → Amm) : Contract Unit :=
  update fun w => { w with store := { w.store with amm := f w.store.amm } }

def modifyOperations (f : Operations → Operations) : Contract Unit :=
  update fun w => { w with store := { w.store with operations := f w.store.operations } }

def modifySources (f : SourceRecords → SourceRecords) : Contract Unit :=
  update fun w => { w with store := { w.store with sources := f w.store.sources } }

def modifyBreakers (f : Breakers → Breakers) : Contract Unit :=
  update fun w => { w with store := { w.store with breakers := f w.store.breakers } }

def modifyBaskets (f : Map Address BasketConfig → Map Address BasketConfig) : Contract Unit :=
  update fun w => { w with store := { w.store with baskets := f w.store.baskets } }

def modifyChannels (f : Channels → Channels) : Contract Unit :=
  update fun w => { w with store := { w.store with channels := f w.store.channels } }

def modifyChallenges (f : Challenges → Challenges) : Contract Unit :=
  update fun w => { w with store := { w.store with challenges := f w.store.challenges } }

def modifyBridge (f : Bridge → Bridge) : Contract Unit :=
  update fun w => { w with store := { w.store with bridge := f w.store.bridge } }

def modifyVolatility (f : Volatility → Volatility) : Contract Unit :=
  update fun w => { w with store := { w.store with volatility := f w.store.volatility } }

def modifyOverrides (f : Map Address PriceOverrideEntry → Map Address PriceOverrideEntry) :
    Contract Unit :=
  update fun w => { w with store := { w.store with overrides := f w.store.overrides } }

def setEmergency (entry : Option EmergencyPause) : Contract Unit :=
  update fun w => { w with store := { w.store with emergency := entry } }

/-- `reentrancy::enter`: panics when the guard is set already. -/
def enterReentrancyGuard : Contract Unit := do
  let entered ← readStore fun _ st => st.entered
  ensure (entered = false) .reentrant
  update fun w => { w with store := { w.store with entered := true } }

/-- `reentrancy::exit`. -/
def exitReentrancyGuard : Contract Unit :=
  update fun w => { w with store := { w.store with entered := false } }

/-- Announces an event of the dead-man switch. -/
def announce (e : DeadManEvent) : Contract Unit :=
  update fun w => { w with log := { w.log with liveness := w.log.liveness ++ [e] } }

/-- Stores `Submission(asset, source)` and notes the storage the write was made in. -/
def writeSubmission (asset source : Address) (entry : PriceEntry) : Contract Unit :=
  update fun w =>
    { w with
      store := { w.store with
        submission := Function.update w.store.submission (asset, source) (some entry) }
      log := { w.log with submissions := w.log.submissions ++ [⟨w.store, asset, source, entry⟩] } }

/-- Stores `Aggregate(asset)` and notes the storage the write was made in. -/
def writeAggregate (asset : Address) (value : AggregatePrice) : Contract Unit :=
  update fun w =>
    { w with
      store := { w.store with
        aggregate := Function.update w.store.aggregate asset (some value) }
      log := { w.log with aggregates := w.log.aggregates ++ [⟨w.store, asset, value⟩] } }

/-- Notes the provenance record of a publication. -/
def notePublication (asset : Address) (ledger : Nat) (record : ProvenanceRecord) :
    Contract Unit :=
  update fun w =>
    { w with log := { w.log with
        publications := w.log.publications ++ [⟨w.store, asset, ledger, record⟩] } }

attribute [simp] modifyHeartbeats modifyRounds modifyHistory modifyProvenance modifyConsensus
  modifyMultisig modifyFinality modifyTimelock modifyMigration modifyCustody modifyDeadMan
  modifyRecovery modifyAdaptiveQuorum modifySubscriptions modifyAmm modifyOperations modifySources
  modifyBreakers modifyBaskets modifyChannels modifyChallenges modifyBridge modifyVolatility

section Rules

variable {α : Type} {w : World} {Q : Unit → World → Prop} {E : ErrorCode → World → Prop}

@[simp] theorem sat_readStore (f : Env → Store → α) (Q : α → World → Prop) :
    Sat (readStore f) w Q ↔ Q (f w.env w.store) w :=
  sat_inspect _

@[simp] theorem fails_readStore (f : Env → Store → α) : Fails (readStore f) w E :=
  fails_inspect _

@[simp] theorem sat_getSequence (Q : Nat → World → Prop) :
    Sat getSequence w Q ↔ Q w.env.sequence w :=
  sat_readStore _ _

@[simp] theorem fails_getSequence : Fails getSequence w E :=
  fails_readStore _

@[simp] theorem sat_getTimestamp (Q : Nat → World → Prop) :
    Sat getTimestamp w Q ↔ Q w.env.timestamp w :=
  sat_readStore _ _

@[simp] theorem fails_getTimestamp : Fails getTimestamp w E :=
  fails_readStore _

@[simp] theorem sat_writeAggregate (asset : Address) (value : AggregatePrice) :
    Sat (writeAggregate asset value) w Q ↔
      Q () { w with
        store := { w.store with
          aggregate := Function.update w.store.aggregate asset (some value) }
        log := { w.log with aggregates := w.log.aggregates ++ [⟨w.store,asset,value⟩] } } :=
  sat_update _ _

@[simp] theorem sat_notePublication (asset : Address) (ledger : Nat) (record : ProvenanceRecord) :
    Sat (notePublication asset ledger record) w Q ↔
      Q () { w with log := { w.log with
        publications := w.log.publications ++ [⟨w.store,asset,ledger,record⟩] } } :=
  sat_update _ _

@[simp] theorem sat_enterReentrancyGuard :
    Sat enterReentrancyGuard w Q ↔
      (w.store.entered = false → Q () { w with store := { w.store with entered := true } }) := by
  simp [enterReentrancyGuard]

@[simp] theorem sat_exitReentrancyGuard :
    Sat exitReentrancyGuard w Q ↔ Q () { w with store := { w.store with entered := false } } :=
  sat_update _ _

@[simp] theorem fails_enterReentrancyGuard :
    Fails enterReentrancyGuard w E ↔ (w.store.entered = true → E .reentrant w) := by
  simp [enterReentrancyGuard]

@[simp] theorem fails_exitReentrancyGuard : Fails exitReentrancyGuard w E :=
  fails_update _

@[simp] theorem sat_announce (e : DeadManEvent) :
    Sat (announce e) w Q ↔
      Q () { w with log := { w.log with liveness := w.log.liveness ++ [e] } } :=
  sat_update _ _

@[simp] theorem sat_requireAuth (a : Address) :
    Sat (requireAuth a) w Q ↔ (w.env.authorized a = true →
      Q () { w with log := { w.log with auths := w.log.auths ++ [a] } }) := by
  simp [requireAuth]

@[simp] theorem fails_requireAuth (a : Address) :
    Fails (requireAuth a) w E ↔ (w.env.authorized a = false → E .notAuthorized w) := by
  simp [requireAuth]

end Rules

section Frames

variable {α : Type} {T : List Region}

theorem readStore_frame (f : Env → Store → α) : Frame T (readStore f) :=
  preserves_inspect _

theorem getSequence_frame : Frame T getSequence := readStore_frame _

theorem getTimestamp_frame : Frame T getTimestamp := readStore_frame _

theorem requireAuth_frame (a : Address) : Frame [.auths] (requireAuth a) := by
  refine .read fun ok => .check fun _ =>
    preserves_update fun w r hr => ?_
  cases r <;> first | rfl | simp at hr

theorem modifyStats_frame (f : SourceStats → SourceStats) : Frame [.stats] (modifyStats f) :=
  preserves_update fun w r hr => by cases r <;> first | rfl | simp at hr

theorem modifyRounds_frame (f : RoundRecords → RoundRecords) :
    Frame [.rounds] (modifyRounds f) :=
  preserves_update fun w r hr => by cases r <;> first | rfl | simp at hr

theorem modifyHistory_frame (f : History → History) : Frame [.history] (modifyHistory f) :=
  preserves_update fun w r hr => by cases r <;> first | rfl | simp at hr

theorem modifyProvenance_frame (f : Provenance → Provenance) :
    Frame [.provenance] (modifyProvenance f) :=
  preserves_update fun w r hr => by cases r <;> first | rfl | simp at hr

theorem modifyCorrections_frame (f : Corrections → Corrections) :
    Frame [.corrections] (modifyCorrections f) :=
  preserves_update fun w r hr => by cases r <;> first | rfl | simp at hr

theorem modifyOptimistic_frame (f : Optimistic → Optimistic) :
    Frame [.optimistic] (modifyOptimistic f) :=
  preserves_update fun w r hr => by cases r <;> first | rfl | simp at hr

theorem modifyRelayers_frame (f : Relayers → Relayers) : Frame [.relayers] (modifyRelayers f) :=
  preserves_update fun w r hr => by cases r <;> first | rfl | simp at hr

theorem modifyFeeMarket_frame (f : FeeMarket → FeeMarket) :
    Frame [.feeMarket] (modifyFeeMarket f) :=
  preserves_update fun w r hr => by cases r <;> first | rfl | simp at hr

theorem modifyFinality_frame (f : Finality → Finality) : Frame [.finality] (modifyFinality f) :=
  preserves_update fun w r hr => by cases r <;> first | rfl | simp at hr

theorem modifyTimelock_frame (f : Timelock → Timelock) : Frame [.timelock] (modifyTimelock f) :=
  preserves_update fun w r hr => by cases r <;> first | rfl | simp at hr

theorem modifyMigration_frame (f : Migration → Migration) : Frame [.migration] (modifyMigration f) :=
  preserves_update fun w r hr => by cases r <;> first | rfl | simp at hr

theorem modifyDeadMan_frame (f : DeadMan → DeadMan) :
    Frame [.deadMan] (modifyDeadMan f) :=
  preserves_update fun w r hr => by cases r <;> first | rfl | simp at hr

theorem modifyRecovery_frame (f : Recovery → Recovery) :
    Frame [.recovery] (modifyRecovery f) :=
  preserves_update fun w r hr => by cases r <;> first | rfl | simp at hr

theorem modifySubscriptions_frame (f : Subscriptions → Subscriptions) :
    Frame [.subscriptions] (modifySubscriptions f) :=
  preserves_update fun w r hr => by cases r <;> first | rfl | simp at hr

theorem modifySources_frame (f : SourceRecords → SourceRecords) :
    Frame [.sources] (modifySources f) :=
  preserves_update fun w r hr => by cases r <;> first | rfl | simp at hr

theorem modifyChallenges_frame (f : Challenges → Challenges) :
    Frame [.challenges] (modifyChallenges f) :=
  preserves_update fun w r hr => by cases r <;> first | rfl | simp at hr

theorem modifyBridge_frame (f : Bridge → Bridge) : Frame [.bridge] (modifyBridge f) :=
  preserves_update fun w r hr => by cases r <;> first | rfl | simp at hr

theorem modifyOverrides_frame
    (f : Map Address PriceOverrideEntry → Map Address PriceOverrideEntry) :
    Frame [.overrides] (modifyOverrides f) :=
  preserves_update fun w r hr => by cases r <;> first | rfl | simp at hr

theorem setEmergency_frame (entry : Option EmergencyPause) :
    Frame [.emergency] (setEmergency entry) :=
  preserves_update fun w r hr => by cases r <;> first | rfl | simp at hr

theorem announce_frame (e : DeadManEvent) : Frame [.deadMan] (announce e) :=
  preserves_update fun w r hr => by cases r <;> first | rfl | simp at hr

theorem modifyGates_frame (f : Gates → Gates) : Frame [.gates] (modifyGates f) :=
  preserves_update fun w r hr => by cases r <;> first | rfl | simp at hr

theorem modifyBounds_frame (f : Bounds → Bounds) : Frame [.bounds] (modifyBounds f) :=
  preserves_update fun w r hr => by cases r <;> first | rfl | simp at hr

theorem modifyConfig_frame (f : Config → Config) :
    Frame [.config,.suspension] (modifyConfig f) :=
  preserves_update fun w r hr => by cases r <;> first | rfl | simp at hr

theorem writeSubmission_frame (asset source : Address) (entry : PriceEntry) :
    Frame [.submissions] (writeSubmission asset source entry) :=
  preserves_update fun w r hr => by cases r <;> first | rfl | simp at hr

theorem writeAggregate_frame (asset : Address) (value : AggregatePrice) :
    Frame [.aggregates] (writeAggregate asset value) :=
  preserves_update fun w r hr => by cases r <;> first | rfl | simp at hr

theorem notePublication_frame (asset : Address) (ledger : Nat) (record : ProvenanceRecord) :
    Frame [.provenance] (notePublication asset ledger record) :=
  preserves_update fun w r hr => by cases r <;> first | rfl | simp at hr

end Frames

end PriceOracle.Model
