import PriceOracle.Model.ConsensusRounds
import PriceOracle.Model.Invocation
import PriceOracle.Lib.Run

/-! # Effects of the consensus-round operations

`RoundEffect` lists everything a successful call can do to the stored rounds, guards included; the
contract functions are shown to do exactly that, and a panicking call to do nothing. The results
about runs of the round protocol are derived from this list alone. -/

namespace PriceOracle.Consensus

open Lib.Transaction Lib.MachineInt Model

inductive RoundCall
  | startRound (asset : Address)
  | submitRoundVote (source asset : Address) (round : Nat) (price : Int) (timestamp : Nat)
  | reportEquivocation (source asset : Address) (round : Nat)
  | abandonStalledRound (asset : Address)
  | setRoundConfig (asset : Address) (config : RoundConfig)

def RoundCall.body : RoundCall → Contract Unit
  | .startRound asset => do let _ ← Model.startRound asset
  | .submitRoundVote source asset round price timestamp =>
    Model.submitRoundVote source asset round price timestamp
  | .reportEquivocation source asset round => Model.reportEquivocation source asset round
  | .abandonStalledRound asset => do let _ ← Model.abandonStalledRound asset
  | .setRoundConfig asset config => Model.setRoundConfig asset config

/-- One call of the round protocol with the environment it is made in. -/
structure RoundTx where
  env : Env
  call : RoundCall

def execRound (st : Store) (t : RoundTx) : Store := invoke t.call.body t.env st

def RoundTx.failure (t : RoundTx) (st : Store) : Option ErrorCode :=
  Model.failure t.call.body t.env st

/-- What a successful call leaves in place of the stored rounds. -/
inductive RoundEffect (env : Env) (st : Store) : RoundCall → Model.Consensus → Prop
  | opened {a} (hreg : st.isRegisteredAsset a = true) :
    RoundEffect env st (.startRound a) (st.consensus.open a env.sequence)
  | configured {a c} (hquorum : c.quorum ≠ 0) (hbps : c.agreementBps ≤ maxAgreementBps) :
    RoundEffect env st (.setRoundConfig a c)
      { st.consensus with config := Function.update st.consensus.config a (some c) }
  | repeated {s a r p ts v} (hbar : st.isBarredFromRound s a r = false)
      (hvote : st.consensus.vote (a, r, s) = some v) (hp : v.price = p) (hts : v.timestamp = ts) :
    RoundEffect env st (.submitRoundVote s a r p ts) st.consensus
  | voted {s a r p ts v} (hbar : st.isBarredFromRound s a r = false)
      (hvote : st.consensus.vote (a, r, s) = none)
      (hs : v.source = s) (hp : v.price = p) (hts : v.timestamp = ts) (hpos : 0 < p) :
    RoundEffect env st (.submitRoundVote s a r p ts) (st.consensus.castVote a r v)
  | tallied {s a r p ts v t} (hbar : st.isBarredFromRound s a r = false)
      (hvote : st.consensus.vote (a, r, s) = none)
      (hs : v.source = s) (hp : v.price = p) (hts : v.timestamp = ts) (hpos : 0 < p)
      (htally : tryTally env { st with consensus := st.consensus.castVote a r v } a r
        (st.getRoundConfig a) = some t) :
    RoundEffect env st (.submitRoundVote s a r p ts)
      ((st.consensus.castVote a r v).recordTally a r t)
  | reported {s a r} (hbar : st.isBarredFromRound s a r = true) :
    RoundEffect env st (.reportEquivocation s a r) st.consensus
  | penalised {s a r v} (hreg : st.isRegisteredAsset a = true)
      (hvote : st.consensus.vote (a, r, s) = some v) (hbar : st.isBarredFromRound s a r = false) :
    RoundEffect env st (.reportEquivocation s a r) (st.consensus.penalise s a r)
  | abandoned {a n} (hlate : st.roundDeadline env a (st.currentRound a) < env.sequence) :
    RoundEffect env st (.abandonStalledRound a)
      { st.consensus.open a env.sequence with
        abandoned := Function.update (st.consensus.open a env.sequence).abandoned a (some n) }

section Specs

variable {w w' : World} (a : Address)

theorem agree_consensus (h : layout.agreeOff [] w w') :
    w'.env = w.env ∧ w'.store.consensus = w.store.consensus :=
  ⟨h .env (by simp),h .consensus (by simp)⟩

theorem startRound_effect (w : World) :
    Sat (Model.startRound a) w fun _ w' => w.store.isRegisteredAsset a = true ∧
      w'.store.consensus = w.store.consensus.open a w.env.sequence := by
  unfold Model.startRound
  rw [sat_bind]
  refine (checkRegisteredAsset_sat a w).mono fun _ w₁ h₁ => ?_
  obtain ⟨henv,hcon⟩ := agree_consensus h₁.2
  simp only [sat_bind,sat_getSequence,modifyConsensus,sat_update,sat_readStore]
  exact ⟨h₁.1,by rw [henv,hcon]⟩

theorem startRound_fails (w : World) :
    Fails (Model.startRound a) w fun _ _ => w.store.isRegisteredAsset a = false := by
  unfold Model.startRound
  rw [fails_bind]
  refine ⟨(checkRegisteredAsset_fails a w).mono fun _ _ h => h.2,?_⟩
  intro _ w₁ _
  simp

theorem setRoundConfig_effect (c : RoundConfig) (w : World) :
    Sat (Model.setRoundConfig a c) w fun _ w' =>
      RoundEffect w.env w.store (.setRoundConfig a c) w'.store.consensus := by
  unfold Model.setRoundConfig
  rw [sat_bind]
  refine (getAdmin_frame (T := []) w).mono fun admin w₀ h₀ => ?_
  rw [sat_bind]
  refine (requireAuth_frame admin w₀).mono fun _ w₁ h₁ => ?_
  rw [sat_bind]
  refine (checkRegisteredAsset_sat a w₁).mono fun _ w₂ h₂ => ?_
  have hcon : w₂.store.consensus = w.store.consensus :=
    (agree_consensus h₂.2).2.trans ((h₁ .consensus (by simp)).trans (agree_consensus h₀).2)
  simp only [sat_bind,sat_ensure,modifyConsensus,sat_update,hcon]
  intro _ hquorum _ hbps
  exact .configured hquorum.1 hbps

theorem reportEquivocation_effect (s a : Address) (r : Nat) (w : World) :
    Sat (Model.reportEquivocation s a r) w fun _ w' =>
      RoundEffect w.env w.store (.reportEquivocation s a r) w'.store.consensus := by
  unfold Model.reportEquivocation
  rw [sat_bind]
  refine (checkRegisteredAsset_sat a w).mono fun _ w₁ h₁ => ?_
  obtain ⟨hreg,hagree⟩ := h₁
  have hcon := (agree_consensus hagree).2
  simp only [sat_bind,sat_readStore,sat_ensure]
  intro hvote
  rw [hcon,Option.isSome_iff_exists] at hvote
  obtain ⟨v,hv⟩ := hvote
  have hbareq : w₁.store.isBarredFromRound s a r = w.store.isBarredFromRound s a r := by
    simp only [Store.isBarredFromRound,hcon]
  rw [hbareq]
  cases hbar : w.store.isBarredFromRound s a r with
  | true =>
    simp only [if_true,sat_pure,hcon]
    exact .reported hbar
  | false =>
    simp only [Bool.false_eq_true,if_false,modifyConsensus,sat_update,hcon]
    exact .penalised hreg hv hbar

/-- A report on a stored vote of a registered asset does not panic. -/
theorem reportEquivocation_succeeds (s a : Address) (r : Nat) (w : World)
    (hreg : w.store.isRegisteredAsset a = true)
    (hvote : (w.store.consensus.vote (a,r,s)).isSome = true) :
    Fails (Model.reportEquivocation s a r) w fun _ _ => False := by
  unfold Model.reportEquivocation
  rw [fails_bind]
  refine ⟨(checkRegisteredAsset_fails a w).mono fun _ _ h => ?_,
    (checkRegisteredAsset_sat a w).mono fun _ w₁ h₁ => ?_⟩
  · rw [hreg] at h
    cases h.2
  · simp only [fails_bind,fails_readStore,sat_readStore,fails_ensure,sat_ensure,true_and,
      (agree_consensus h₁.2).2]
    refine ⟨fun h => h hvote,fun _ => ?_⟩
    split_ifs
    · exact fails_pure _
    · exact fails_update _

theorem abandonStalledRound_effect (w : World) : Sat (Model.abandonStalledRound a) w fun _ w' =>
      RoundEffect w.env w.store (.abandonStalledRound a) w'.store.consensus := by
  unfold Model.abandonStalledRound
  rw [sat_bind]
  refine (checkRegisteredAsset_sat a w).mono fun _ w₁ h₁ => ?_
  obtain ⟨henv,hcon⟩ := agree_consensus h₁.2
  simp only [sat_bind,sat_readStore,sat_getSequence,sat_ensure]
  intro hlate
  have hlate' : w.store.roundDeadline w.env a (w.store.currentRound a) < w.env.sequence := by
    simpa only [Store.roundDeadline,Store.roundStart,Store.getRoundConfig,Store.currentRound,
      henv,hcon] using hlate
  refine (startRound_effect a w₁).mono fun _ w₂ h₂ => ?_
  simp only [modifyConsensus,sat_update,sat_pure,h₂.2,henv,hcon]
  exact .abandoned hlate'

theorem tryTally_congr {st st' : Store} (h : st'.consensus = st.consensus) (env : Env)
    (a : Address) (r : Nat) (c : RoundConfig) : tryTally env st' a r c = tryTally env st a r c := by
  have hvotes : st'.roundVotes a r = st.roundVotes a r := by
    simp only [Store.roundVotes,h]
  unfold tryTally
  rw [hvotes]

theorem tallyIfDue_effect (r : Nat) (c : RoundConfig) (w : World) :
    Sat (tallyIfDue a r c) w fun _ w' => w'.store.consensus = w.store.consensus ∨
      ∃ t, tryTally w.env w.store a r c = some t ∧
        w'.store.consensus = w.store.consensus.recordTally a r t := by
  unfold tallyIfDue
  rw [sat_bind,sat_readStore]
  split_ifs with hdone
  · exact (sat_pure _).2 (.inl rfl)
  · rw [sat_bind,sat_readStore]
    cases htally : tryTally w.env w.store a r c with
    | none => exact (sat_pure _).2 (.inl rfl)
    | some t => exact (sat_update _ _).2 (.inr ⟨t,rfl,rfl⟩)

theorem submitRoundVote_effect (s a : Address) (r : Nat) (p : Int) (ts : Nat) (w : World) :
    Sat (Model.submitRoundVote s a r p ts) w fun _ w' =>
      RoundEffect w.env w.store (.submitRoundVote s a r p ts) w'.store.consensus := by
  unfold Model.submitRoundVote
  rw [sat_bind,sat_requireAuth]
  intro _
  rw [sat_bind]
  refine (checkSource_frame (T := []) s _).mono fun _ w₁ h₁ => ?_
  rw [sat_bind]
  refine (checkRegisteredAsset_sat a w₁).mono fun _ w₂ h₂ => ?_
  have hcon : w₂.store.consensus = w.store.consensus :=
    (agree_consensus h₂.2).2.trans (agree_consensus h₁).2
  have henv : w₂.env = w.env := (agree_consensus h₂.2).1.trans (agree_consensus h₁).1
  simp only [sat_bind,sat_readStore,sat_getSequence,sat_getTimestamp,sat_ensure,
    Store.isBarredFromRound,Store.getRoundConfig,hcon]
  intro _ _ hpos _ hbar
  cases hvote : w.store.consensus.vote (a,r,s) with
  | some v =>
    simp only [sat_ensure,hcon]
    rintro ⟨hp,hts⟩
    exact .repeated hbar hvote hp hts
  | none =>
    simp only [sat_bind,sat_readStore,sat_ensure,modifyConsensus,sat_update,hcon]
    intro _
    refine (tallyIfDue_effect a r _ _).mono fun _ w₃ h₃ => ?_
    obtain h | ⟨t,htally,h⟩ := h₃
    · rw [h]
      exact .voted hbar hvote rfl rfl rfl hpos
    · rw [h]
      refine .tallied hbar hvote rfl rfl rfl hpos ?_
      rw [← htally,← henv]
      exact tryTally_congr rfl w₂.env a r _

/-- A vote refused for equivocation meets a bar or a different stored vote. -/
theorem submitRoundVote_refused (s a : Address) (r : Nat) (p : Int) (ts : Nat) (w : World) :
    Fails (Model.submitRoundVote s a r p ts) w fun e _ => e = .roundEquivocation →
      w.store.isBarredFromRound s a r = true ∨
        ∃ v, w.store.consensus.vote (a,r,s) = some v ∧ ¬(v.price = p ∧ v.timestamp = ts) := by
  unfold Model.submitRoundVote
  rw [fails_bind,fails_requireAuth,sat_requireAuth]
  refine ⟨by simp,fun _ => ?_⟩
  rw [fails_bind]
  refine ⟨by simp [checkSource],(checkSource_frame (T := []) s _).mono fun _ w₁ h₁ => ?_⟩
  rw [fails_bind]
  refine ⟨(checkRegisteredAsset_fails a w₁).mono fun e _ h he => by simp [h.1] at he,
    (checkRegisteredAsset_sat a w₁).mono fun _ w₂ h₂ => ?_⟩
  have hcon : w₂.store.consensus = w.store.consensus :=
    (agree_consensus h₂.2).2.trans (agree_consensus h₁).2
  simp only [fails_bind,fails_readStore,sat_readStore,fails_ensure,sat_ensure,
    fails_getSequence,sat_getSequence,fails_getTimestamp,sat_getTimestamp,
    Store.isBarredFromRound,hcon,reduceCtorEq,false_implies,implies_true,true_and]
  intro _ _ _ _
  refine ⟨fun hbar _ => .inl (by simpa using hbar),fun _ => ?_⟩
  cases hvote : w.store.consensus.vote (a,r,s) with
  | some v =>
    simp only [fails_ensure]
    intro hne _
    exact .inr ⟨v,rfl,hne⟩
  | none =>
    simp only [fails_bind,fails_readStore,sat_readStore,fails_ensure,sat_ensure,
      modifyConsensus,fails_update,sat_update,reduceCtorEq,false_implies,implies_true,
      true_and,tallyIfDue]
    intro _
    split_ifs with hdone
    · exact fails_pure _
    · simp only [fails_bind,fails_readStore,sat_readStore,true_and]
      split <;> simp

end Specs

/-- A successful call has one of the listed effects. -/
theorem execRound_effect (st : Store) (t : RoundTx) (h : t.failure st = none) :
    RoundEffect t.env st t.call (execRound st t).consensus := by
  refine invoke_of_success (Q := fun st' => RoundEffect t.env st t.call st'.consensus) h ?_
  obtain ⟨env,call⟩ := t
  cases call with
  | startRound a =>
    simp only [RoundCall.body,sat_bind,sat_pure]
    refine (startRound_effect a _).mono fun _ w' hw => ?_
    rw [hw.2]
    exact .opened hw.1
  | submitRoundVote s a r p ts => exact submitRoundVote_effect s a r p ts _
  | reportEquivocation s a r => exact reportEquivocation_effect s a r _
  | abandonStalledRound a =>
    simp only [RoundCall.body,sat_bind,sat_pure]
    exact abandonStalledRound_effect a _
  | setRoundConfig a c => exact setRoundConfig_effect a c _

theorem execRound_failed (st : Store) (t : RoundTx) {e : ErrorCode} (h : t.failure st = some e) :
    execRound st t = st :=
  invoke_of_failure h

end PriceOracle.Consensus

/-! ## Healthy rounds

A round is healthy while it has been opened, is inside its deadline and has not been tallied. -/

namespace PriceOracle.Consensus

open Lib.Transaction Lib.MachineInt Lib.Run Model

variable (st : Store) (c : Model.Consensus)

def HealthyRound (env : Env) (st : Store) (asset : Address) : Prop :=
  (st.consensus.start (asset, st.currentRound asset)).isSome = true ∧
    env.sequence ≤ st.roundDeadline env asset (st.currentRound asset) ∧
    st.getRoundTally asset (st.currentRound asset) = none

/-- No round is open, or the open one is past its deadline or tallied. -/
def IdleRound (env : Env) (st : Store) (asset : Address) : Prop :=
  st.consensus.start (asset, st.currentRound asset) = none ∨
    st.roundDeadline env asset (st.currentRound asset) < env.sequence ∨
    (st.getRoundTally asset (st.currentRound asset)).isSome = true

deriving instance Decidable for HealthyRound

theorem idleRound_iff (env : Env) (st : Store) (asset : Address) :
    IdleRound env st asset ↔ ¬HealthyRound env st asset := by
  unfold IdleRound HealthyRound
  rw [not_and_or,not_and_or,not_le,Bool.not_eq_true,Option.isSome_eq_false_iff,
    Option.isNone_iff_eq_none,Option.isSome_iff_ne_none]

/-- The step leaves every healthy round the current round of its asset. -/
def KeepsHealthyRounds (st : Store) (t : RoundTx) : Prop :=
  ∀ asset, HealthyRound t.env st asset → (execRound st t).currentRound asset = st.currentRound asset

/-- The step does not open a round of a registered asset unless that asset is idle. -/
def OpensIdleOnly (st : Store) (t : RoundTx) : Prop :=
  ∀ asset, t.call = .startRound asset → st.isRegisteredAsset asset = true →
    IdleRound t.env st asset

theorem currentRound_of_counter {st st' : Store}
    (h : st'.consensus.counter = st.consensus.counter) (asset : Address) :
    st'.currentRound asset = st.currentRound asset := by
  unfold Store.currentRound
  rw [h]

theorem counter_open_of_ne {a b : Address} (sequence : Nat) (h : b ≠ a) :
    (c.open a sequence).counter b = c.counter b :=
  Function.update_of_ne h _ _

theorem counter_open_ne (a : Address) (sequence : Nat) :
    ((c.open a sequence).counter a).getD 0 ≠ (c.counter a).getD 0 := by
  rw [show (c.open a sequence).counter a = some (wrap32 ((c.counter a).getD 0 + 1)) from
    Function.update_self _ _ _,Option.getD_some]
  exact wrap32_succ_ne _

theorem keepsHealthyRounds_of_ne_startRound (t : RoundTx)
    (h : ∀ a, t.call ≠ .startRound a) : KeepsHealthyRounds st t := by
  intro asset hhealthy
  cases hf : t.failure st with
  | some e => rw [execRound_failed st t hf]
  | none =>
    have heff := execRound_effect st t hf
    generalize hcall : t.call = call at heff h
    generalize hcon : (execRound st t).consensus = con at heff
    cases heff with
    | opened => exact absurd rfl (h _)
    | abandoned hlate =>
      rename_i a n
      by_cases ha : asset = a
      · subst ha
        exact absurd hhealthy.2.1 (not_le.2 hlate)
      · unfold Store.currentRound
        rw [hcon]
        exact congrArg (Option.getD · 0) (counter_open_of_ne st.consensus t.env.sequence ha)
    | configured => exact currentRound_of_counter (by rw [hcon]) asset
    | repeated => exact currentRound_of_counter (by rw [hcon]) asset
    | voted => exact currentRound_of_counter (by rw [hcon]; rfl) asset
    | tallied => exact currentRound_of_counter (by rw [hcon]; rfl) asset
    | reported => exact currentRound_of_counter (by rw [hcon]) asset
    | penalised => exact currentRound_of_counter (by rw [hcon]; rfl) asset

theorem execRound_startRound (env : Env) (a : Address) (hreg : st.isRegisteredAsset a = true) :
    (execRound st ⟨env,.startRound a⟩).consensus = st.consensus.open a env.sequence := by
  have hok : RoundTx.failure ⟨env,.startRound a⟩ st = none := by
    cases hf : RoundTx.failure ⟨env,.startRound a⟩ st with
    | none => rfl
    | some e =>
      have hno : st.isRegisteredAsset a = false := by
        refine failure_of_fails (E := fun _ => st.isRegisteredAsset a = false) hf ?_
        simp only [RoundCall.body,fails_bind,fails_pure]
        exact ⟨startRound_fails a _,fun _ _ _ => trivial⟩
      rw [hreg] at hno
      cases hno
  have heff := execRound_effect st ⟨env,.startRound a⟩ hok
  generalize (execRound st ⟨env,.startRound a⟩).consensus = con at heff ⊢
  cases heff
  rfl

/-- One step keeps healthy rounds exactly when it opens no round over a healthy one. -/
theorem keepsHealthyRounds_iff (t : RoundTx) : KeepsHealthyRounds st t ↔ OpensIdleOnly st t := by
  by_cases hstart : ∃ a, t.call = .startRound a
  · obtain ⟨env,call⟩ := t
    obtain ⟨a,hcall⟩ := hstart
    subst hcall
    constructor
    · rintro hkeep _ ⟨⟩ hreg
      rw [idleRound_iff]
      intro hhealthy
      have hsame := hkeep a hhealthy
      unfold Store.currentRound at hsame
      rw [execRound_startRound st env a hreg] at hsame
      exact counter_open_ne st.consensus a env.sequence hsame
    · intro hidle asset hhealthy
      cases hreg : st.isRegisteredAsset a with
      | true =>
        by_cases ha : asset = a
        · subst ha
          exact absurd hhealthy ((idleRound_iff env st asset).1 (hidle asset rfl hreg))
        · unfold Store.currentRound
          rw [execRound_startRound st env a hreg,counter_open_of_ne _ _ ha]
      | false =>
        cases hf : RoundTx.failure ⟨env,.startRound a⟩ st with
        | some e => rw [execRound_failed st _ hf]
        | none =>
          have heff := execRound_effect st ⟨env,.startRound a⟩ hf
          generalize (execRound st ⟨env,.startRound a⟩).consensus = con at heff
          cases heff with
          | opened h => simp [hreg] at h
  · have hne : ∀ a, t.call ≠ .startRound a := fun a ha => hstart ⟨a,ha⟩
    constructor
    · intro _ asset hcall
      exact absurd hcall (hne asset)
    · intro _
      exact keepsHealthyRounds_of_ne_startRound st t hne

/-- In every run of the round protocol from any storage, by any callers, healthy rounds stay
current at every step exactly when every accepted `start_round` meets an idle asset. -/
theorem healthy_rounds_stay_current_iff (st : Store) (ts : List RoundTx) :
    (∀ x ∈ steps execRound st ts, KeepsHealthyRounds x.1 x.2) ↔
      ∀ x ∈ steps execRound st ts, OpensIdleOnly x.1 x.2 :=
  steps_iff (I := fun _ => True) (fun _ _ _ => trivial)
    (fun s t _ => keepsHealthyRounds_iff s t) trivial

/-- Storage in which the single asset `1` is registered and nothing else is set. -/
def oneAssetStore : Store :=
  { registry := { assetIndex := fun a => if a = 1 then some true else none } }

/-- Anyone can restart a round in the ledger it was opened in. -/
theorem healthy_round_restarted :
    ¬∀ x ∈ steps execRound oneAssetStore
        [⟨.concrete 10 0 [], .startRound 1⟩, ⟨.concrete 10 0 [], .startRound 1⟩],
      KeepsHealthyRounds x.1 x.2 := by
  rw [steps_cons,List.forall_mem_cons,steps_cons,List.forall_mem_cons]
  rintro ⟨-,hsecond,-⟩
  have hkept := hsecond 1 (by decide)
  revert hkept
  decide

end PriceOracle.Consensus
