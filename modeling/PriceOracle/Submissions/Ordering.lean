import PriceOracle.Lib.Run
import PriceOracle.Submissions.Observations

/-! # The order of observations

Two paths refuse an observation that is older than the stored one of the same source; the others,
reveals, the queue of the fee market and attested prices among them, store whatever they carry. -/

namespace PriceOracle.Submissions

open Lib.Transaction Lib.Run Lib.Journal Model

/-- What a successful call stores: a reveal has the time of its ledger, a batch stops at the first
tripped asset. -/
def SourceCall.observations (env : Env) (st : Store) (source : Address) :
    SourceCall → List Observation
  | submitPrice asset price timestamp _ => heard st [⟨asset, source, price, timestamp⟩]
  | submitPrices assetPrices => (assetPrices.map (batchObservation source)).takeWhile
    fun o => !st.isCircuitBreakerTripped o.asset
  | submitPriceWithVolume asset price timestamp _ => heard st [⟨asset, source, price, timestamp⟩]
  | revealPrice asset price _ _ => [⟨asset, source, price, env.timestamp⟩]
  | revealPricesBatch reveals => reveals.map (revealObservation env.timestamp source)
  | submitPriceMerkle _ proofs => proofs.map leafObservation

def SubmissionCall.observations (env : Env) (st : Store) : SubmissionCall → List Observation
  | bySource source call => call.observations env st source
  | submitPriceWithProof source asset price timestamp .. =>
    heard st [⟨asset, source, price, timestamp⟩]
  | submitPriceRelayed _ source asset price timestamp =>
    heard st [⟨asset, source, price, timestamp⟩]
  | submitPricesRelayed _ submissions => heard st (submissions.map relayedObservation)
  | processFeeMarket =>
    heard st ((st.feeMarket.pending.take maxProcessPerLedger).map queuedObservation)
  | zkSubmitPrice source asset _ publicSignals =>
    heard st ((ZkVerify.attested publicSignals).toList.map (attestedObservation source asset))

/-- The paths that compare an observation with the stored one. -/
def SubmissionCall.guarded : SubmissionCall → Bool
  | bySource _ (.submitPrice ..) => true
  | submitPriceWithProof .. => true
  | _ => false

def stamp (o : Observation) : (Address × Address) × Nat := ((o.asset, o.source), o.timestamp)

def stamps (submission : Map (Address × Address) PriceEntry) : Map (Address × Address) Nat :=
  fun k => (submission k).map PriceEntry.timestamp

section Paths

variable {w w' : World} {st : Store} {o : Observation} {obs : List Observation}

theorem inTurn_heard (h : ∀ prev ∈ st.submission (o.asset,o.source), prev.timestamp ≤ o.timestamp) :
    InTurn (stamps st.submission) ((heard st [o]).map stamp) := by
  by_cases htripped : st.isCircuitBreakerTripped o.asset = true
  · simp [heard,htripped,InTurn]
  · simp only [heard,htripped,List.filter_cons,Bool.not_false,if_true,List.filter_nil,
      List.map_cons,List.map_nil,InTurn,and_true]
    intro r hr
    obtain ⟨prev,hprev,rfl⟩ := Option.map_eq_some_iff.1 hr
    exact h prev hprev

theorem SourceCall.body_stores (source : Address) (call : SourceCall) (w : World) :
    Sat (call.body source) w fun _ u => Stored (call.observations w.env w.store source) w u := by
  cases call with
  | submitPrice asset price timestamp nonce =>
    exact (submitPrice_stores nonce).mono fun _ _ hu => hu.1
  | submitPrices assetPrices => exact submitPrices_stores assetPrices
  | submitPriceWithVolume asset price timestamp volume => exact submitPriceWithVolume_stores volume
  | revealPrice asset price salt roundLedger => exact revealPrice_stores salt roundLedger
  | revealPricesBatch reveals => exact revealPricesBatch_stores reveals
  | submitPriceMerkle root proofs => exact submitPriceMerkle_stores root proofs

/-- Every call stores its observations. -/
theorem SubmissionCall.body_stores (call : SubmissionCall) (w : World) :
    Sat call.body w fun _ u => Stored (call.observations w.env w.store) w u := by
  cases call with
  | bySource source call => exact call.body_stores source w
  | submitPriceWithProof source asset price timestamp nonce expirationLedger signature =>
    exact (submitPriceWithProof_stores nonce expirationLedger signature).mono fun _ _ hu => hu.1
  | submitPriceRelayed relayer source asset price timestamp =>
    exact submitPriceRelayed_stores relayer
  | submitPricesRelayed relayer submissions => exact submitPricesRelayed_stores relayer submissions
  | processFeeMarket => exact processFeeMarket_stores
  | zkSubmitPrice source asset proof publicSignals => exact zkSubmitPrice_stores proof publicSignals

theorem SubmissionCall.body_inTurn {call : SubmissionCall} (hguarded : call.guarded = true)
    (w : World) : Sat call.body w fun _ _ =>
      InTurn (stamps w.store.submission) ((call.observations w.env w.store).map stamp) := by
  cases call with
  | bySource source call =>
    cases call with
    | submitPrice asset price timestamp nonce =>
      exact (submitPrice_stores nonce).mono fun _ _ hu => inTurn_heard hu.2
    | _ => cases hguarded
  | submitPriceWithProof source asset price timestamp nonce expirationLedger signature =>
    exact (submitPriceWithProof_stores nonce expirationLedger signature).mono
      fun _ _ hu => inTurn_heard hu.2
  | _ => cases hguarded

end Paths

/-- The submission paths and the queueing of the fee market. -/
inductive ObservationCall
  | submit (call : SubmissionCall)
  | enqueueSubmission (source asset : Address) (price timestamp priorityFee : Nat)

namespace ObservationCall

def body : ObservationCall → Contract Unit
  | submit call => call.body
  | enqueueSubmission source asset price timestamp priorityFee =>
    Model.enqueueSubmission source asset price timestamp priorityFee

def observations (env : Env) (st : Store) : ObservationCall → List Observation
  | submit call => call.observations env st
  | enqueueSubmission .. => []

def guarded : ObservationCall → Bool
  | submit call => call.guarded
  | enqueueSubmission .. => false

end ObservationCall

/-- One call of the submission paths with the environment it is made in. -/
structure ObservationTx where
  env : Env
  call : ObservationCall

def execObservation (st : Store) (t : ObservationTx) : Store := invoke t.call.body t.env st

/-- No write of the call replaces a newer observation of the same source, and no stored timestamp
decreases. -/
structure NeverReplacesNewer (st : Store) (t : ObservationTx) : Prop where
  writes : ∀ s ∈ (effects t.call.body t.env st).submissions,
    ∀ old ∈ s.before.submission (s.asset, s.source), old.timestamp ≤ s.entry.timestamp
  kept : ∀ k, ∀ old ∈ st.submission k,
    ∃ new ∈ (execObservation st t).submission k, old.timestamp ≤ new.timestamp

/-- Unless its path compares them, the observations a successful call stores are not older than the
stored ones, and those of one source for one asset do not go back. -/
def ArrivesInTurn (st : Store) (t : ObservationTx) : Prop :=
  t.call.guarded = false → failure t.call.body t.env st = none →
    InTurn (stamps st.submission) ((t.call.observations t.env st).map stamp)

section Steps

variable {st : Store} {t : ObservationTx} {w' : World} {obs : List Observation}

theorem enqueueSubmission_frame (source asset : Address) (price timestamp priorityFee : Nat) :
    Frame [.auths,.feeMarket] (enqueueSubmission source asset price timestamp priorityFee) :=
  ((requireAuth_frame source).mono (by decide)).bind fun _ => .read fun _ => .check fun _ =>
    (checkRegisteredAsset_frame asset).bind fun _ =>
    .check fun _ => .read fun _ =>
    .check fun _ => .read fun _ =>
    (modifyFeeMarket_frame _).mono (by decide)

theorem ObservationCall.body_stores (call : ObservationCall) (w : World) :
    Sat call.body w fun _ u => Stored (call.observations w.env w.store) w u := by
  cases call with
  | submit call => exact call.body_stores w
  | enqueueSubmission source asset price timestamp priorityFee =>
    exact stored_of_frame (enqueueSubmission_frame source asset price timestamp priorityFee)
      (by decide) w

theorem Stored.inTurn_iff (h : Stored obs (World.enter t.env st) w') :
    (∀ s ∈ w'.log.submissions, ∀ old ∈ s.before.submission (s.asset,s.source),
      old.timestamp ≤ s.entry.timestamp) ↔ InTurn (stamps st.submission) (obs.map stamp) := by
  obtain ⟨ws,hlog,hobs,hchained⟩ := h.writes
  have hiff := hchained.inTurn_iff PriceEntry.timestamp
  rw [List.forall_mem_map,List.map_map] at hiff
  rw [hlog,← hobs,List.map_map]
  exact hiff

theorem Stored.kept (h : Stored obs (World.enter t.env st) w')
    (hws : ∀ s ∈ w'.log.submissions, ∀ old ∈ s.before.submission (s.asset,s.source),
      old.timestamp ≤ s.entry.timestamp) :
    ∀ k, ∀ old ∈ st.submission k, ∃ new ∈ w'.store.submission k,
      old.timestamp ≤ new.timestamp := by
  obtain ⟨ws,hlog,-,hchained⟩ := h.writes
  rw [hlog] at hws
  exact hchained.kept PriceEntry.timestamp (List.forall_mem_map.2 hws)

/-- A call never replaces a newer observation exactly if what it stores arrives in turn. -/
theorem neverReplacesNewer_iff : NeverReplacesNewer st t ↔ ArrivesInTurn st t := by
  have hguard : Sat t.call.body (World.enter t.env st) fun _ _ => t.call.guarded = true →
      InTurn (stamps st.submission) ((t.call.observations t.env st).map stamp) := by
    cases t.call with
    | submit call =>
      by_cases hguarded : call.guarded = true
      · exact (call.body_inTurn hguarded (World.enter t.env st)).mono fun _ _ hu _ => hu
      · exact fun _ _ _ h => absurd h hguarded
    | enqueueSubmission source asset price timestamp priorityFee =>
      exact fun _ _ _ h => by cases h
  rcases invoke_cases ((t.call.body_stores (World.enter t.env st)).and hguard) with
    ⟨hpanic,hsame,hquiet⟩ | ⟨hok,w',⟨hstored,hguarded⟩,hstore,hlog⟩
  · constructor
    · exact fun _ _ hok => absurd hok hpanic
    · intro _
      refine ⟨by simp [hquiet],fun k old hold => ⟨old,?_,le_refl _⟩⟩
      rwa [execObservation,hsame]
  · have hiff := hstored.inTurn_iff
    rw [hlog] at hiff
    constructor
    · exact fun h _ _ => hiff.1 h.writes
    · intro h
      have hws := hiff.2 (by
        by_cases hcall : t.call.guarded = true
        · exact hguarded hcall
        · exact h (Bool.not_eq_true _ ▸ hcall) hok)
      refine ⟨hws,?_⟩
      rw [execObservation,← hstore]
      exact hstored.kept (by rwa [hlog])

end Steps

/-- A run of submissions through any paths never replaces a newer observation of a source exactly if
whatever the unguarded calls store arrives in turn. -/
theorem never_replaces_newer_iff (st : Store) (ts : List ObservationTx) :
    (∀ x ∈ steps execObservation st ts, NeverReplacesNewer x.1 x.2) ↔
      ∀ x ∈ steps execObservation st ts, ArrivesInTurn x.1 x.2 :=
  steps_iff (I := fun _ => True) (fun _ _ _ => trivial) (fun _ _ _ => neverReplacesNewer_iff) trivial

/-- Asset `10` with source `1`; two sources would make a quorum. -/
def quietStore : Store where
  config := { minSources := some 2 }
  registry := { assetIndex := fun a => if a = 10 then some true else none
                srcActive := fun a => if a = 1 then some true else none }

/-- The batch of source `1` with one observation of the time `timestamp`. -/
def batchAt (sequence timestamp : Nat) : ObservationTx :=
  ⟨.concrete sequence 20 [1], .submit (.bySource 1 (.submitPrices [(10, 100, timestamp)]))⟩

/-- A batch replaces the observation of time `10` by one of time `5`. -/
theorem older_batch_replaces_newer :
    ¬∀ x ∈ steps execObservation quietStore [batchAt 1 10, batchAt 2 5],
      NeverReplacesNewer x.1 x.2 := by
  rw [steps_cons,List.forall_mem_cons,steps_cons,List.forall_mem_cons]
  rintro ⟨-,hsecond,-⟩
  have hwrites := hsecond.writes
  revert hwrites
  decide

end PriceOracle.Submissions
