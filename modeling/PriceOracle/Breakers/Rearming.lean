import PriceOracle.Lib.Run
import PriceOracle.Model.Breakers
import PriceOracle.Model.Invocation

/-! # What a call does to a breaker

The trips of breakers, the calls that may re-arm them, and the effect of one of these, on any asset,
on the breaker of a given one. -/

namespace PriceOracle.Breakers

open Model Lib.Transaction

/-- A trip comes from an aggregation, with the prices it compared; the others are entry points. -/
inductive BreakerCall
  | trip (asset : Address) (previousPrice candidatePrice changeBps : Int) (maxChangeBps : Nat)
  | evaluate (asset : Address) (deviationBps : Nat)
  | recover (asset : Address)
  | setPolicy (asset : Address) (policy : BreakerPolicy)
  | clear (asset : Address)

def BreakerCall.body : BreakerCall → Contract Unit
  | trip asset previousPrice candidatePrice changeBps maxChangeBps => do
    tripCircuitBreaker asset previousPrice candidatePrice changeBps maxChangeBps
    recordTrip asset
  | evaluate asset deviationBps => do
    let _ ← evaluateRearm asset deviationBps
    pure ()
  | recover asset => recordBreakerSourceRecovery asset
  | setPolicy asset policy => setBreakerPolicy asset policy
  | clear asset => clearBreaker asset

def BreakerCall.asset : BreakerCall → Address
  | trip asset _ _ _ _ => asset
  | evaluate asset _ => asset
  | recover asset => asset
  | setPolicy asset _ => asset
  | clear asset => asset

/-- A call, or a change elsewhere: it touches no evidence, and trips no breaker. -/
inductive BreakerAct
  | call (call : BreakerCall)
  | elsewhere (rest : Store)

structure BreakerTx where
  env : Env
  act : BreakerAct

def execBreaker (st : Store) (t : BreakerTx) : Store :=
  match t.act with
  | .call call => invoke call.body t.env st
  | .elsewhere rest =>
    { rest with
      gates := { rest.gates with
        circuitBreakerTripped := fun a =>
          if rest.isCircuitBreakerTripped a then st.gates.circuitBreakerTripped a
          else rest.gates.circuitBreakerTripped a }
      breakers := st.breakers }

/-- The breaker of one asset, and the evidence for re-arming it. -/
structure Fuse where
  tripped : Bool
  policy : BreakerPolicy
  streak : Nat
  armed : Nat
  recovery : Nat

def fuseOf (st : Store) (asset : Address) : Fuse where
  tripped := st.isCircuitBreakerTripped asset
  policy := st.getBreakerPolicy asset
  streak := st.settleStreakStart asset
  armed := st.armedLedger asset
  recovery := st.sourceRecoveryLedger asset

namespace Fuse

variable {now deviationBps : Nat} {c : Fuse}

def trip (c : Fuse) (now : Nat) : Fuse :=
  { c with tripped := true, streak := now, armed := now, recovery := 0 }

def close (c : Fuse) : Fuse := { c with tripped := false, streak := 0, recovery := 0 }

/-- The breaker after an observation of the deviation. -/
def observe (c : Fuse) (now deviationBps : Nat) : Fuse :=
  if deviationBps < c.policy.clearBps ∧ c.streak ≠ 0 then c else { c with streak := now }

/-- What an evaluation that re-arms has found, its observation included. -/
structure Rearmable (c : Fuse) (now deviationBps : Nat) : Prop where
  calm : deviationBps < c.policy.clearBps
  settled : c.policy.settleLedgers ≤ now - c.streak
  recovered : c.armed < c.recovery
  bounded : now - c.armed ≤ c.policy.maxOpenLedgers

theorem observe_calm
    (h : deviationBps < c.policy.clearBps ∧ c.streak ≠ 0) : c.observe now deviationBps = c :=
  if_pos h

theorem observe_new (h : ¬(deviationBps < c.policy.clearBps ∧ c.streak ≠ 0)) :
    c.observe now deviationBps = { c with streak := now } :=
  if_neg h

@[simp] theorem observe_policy (c : Fuse) (now deviationBps : Nat) :
    (c.observe now deviationBps).policy = c.policy := by
  unfold observe
  split_ifs <;> rfl

@[simp] theorem observe_armed (c : Fuse) (now deviationBps : Nat) :
    (c.observe now deviationBps).armed = c.armed := by
  unfold observe
  split_ifs <;> rfl

@[simp] theorem observe_recovery (c : Fuse) (now deviationBps : Nat) :
    (c.observe now deviationBps).recovery = c.recovery := by
  unfold observe
  split_ifs <;> rfl

@[simp] theorem observe_tripped (c : Fuse) (now deviationBps : Nat) :
    (c.observe now deviationBps).tripped = c.tripped := by
  unfold observe
  split_ifs <;> rfl

end Fuse

/-- The step neither trips the breaker of the asset nor observes it open. -/
structure Quiet (asset : Address) (st : Store) (t : BreakerTx) : Prop where
  untripped : ∀ previousPrice candidatePrice changeBps maxChangeBps,
    t.act ≠ .call (.trip asset previousPrice candidatePrice changeBps maxChangeBps)
  unobserved : ∀ deviationBps, t.act = .call (.evaluate asset deviationBps) →
    (fuseOf st asset).tripped = false

/-- What one step does to the breaker of one asset. -/
inductive FuseEffect (asset : Address) (st : Store) (t : BreakerTx) (c' : Fuse) : Prop
  | kept (hquiet : Quiet asset st t) (hkept : c' = fuseOf st asset)
  | tripped (previousPrice candidatePrice changeBps : Int) (maxChangeBps : Nat)
    (hact : t.act = .call (.trip asset previousPrice candidatePrice changeBps maxChangeBps))
    (htripped : c' = (fuseOf st asset).trip t.env.sequence)
  | observed (deviationBps : Nat) (hact : t.act = .call (.evaluate asset deviationBps))
    (hopen : (fuseOf st asset).tripped = true)
    (hobserved : c' = (fuseOf st asset).observe t.env.sequence deviationBps)
  | rearmed (deviationBps : Nat) (hact : t.act = .call (.evaluate asset deviationBps))
    (hopen : (fuseOf st asset).tripped = true)
    (hrearmable : ((fuseOf st asset).observe t.env.sequence deviationBps).Rearmable t.env.sequence
      deviationBps)
    (hrearmed : c' = (fuseOf st asset).close)
  | recovered (hact : t.act = .call (.recover asset))
    (haccepted : failure (recordBreakerSourceRecovery asset) t.env st = none)
    (hrecovered : c' = { fuseOf st asset with recovery := t.env.sequence })
  | configured (policy : BreakerPolicy) (hact : t.act = .call (.setPolicy asset policy))
    (hconfigured : c' = { fuseOf st asset with policy := policy })
  | cleared (hact : t.act = .call (.clear asset)) (hcleared : c' = (fuseOf st asset).close)
  | lowered (rest : Store) (hact : t.act = .elsewhere rest)
    (hlowered : c' = { fuseOf st asset with tripped := false })

section Writes

variable (asset : Address) {a : Address} {w : World}

theorem fuseOf_congr {st st' : Store} (hgates : st'.gates = st.gates)
    (hbreakers : st'.breakers = st.breakers) : fuseOf st' asset = fuseOf st asset := by
  unfold fuseOf Store.isCircuitBreakerTripped Store.getBreakerPolicy Store.settleStreakStart
    Store.armedLedger Store.sourceRecoveryLedger
  rw [hgates,hbreakers]

theorem update_getD {α : Type} (m : Map Address α) (v d : α) :
    (Function.update m a (some v) asset).getD d = if asset = a then v else (m asset).getD d := by
  by_cases ha : asset = a
  · subst ha
    rw [Function.update_self,if_pos rfl,Option.getD_some]
  · rw [Function.update_of_ne ha,if_neg ha]

theorem closeBreaker_sat : Sat (closeBreaker a) w fun _ w' =>
    fuseOf w'.store asset =
      if asset = a then (fuseOf w.store asset).close else fuseOf w.store asset := by
  simp only [closeBreaker,rearmCircuitBreaker,modifyGates,sat_bind,sat_update,modifyBreakers]
  unfold fuseOf Store.isCircuitBreakerTripped Store.settleStreakStart Store.sourceRecoveryLedger
  rw [update_getD,update_getD,update_getD]
  split_ifs <;> rfl

theorem recordTrip_sat : Sat (recordTrip a) w fun _ w' =>
    fuseOf w'.store asset =
      if asset = a then { fuseOf w.store asset with
        streak := w.env.sequence, armed := w.env.sequence, recovery := 0 }
      else fuseOf w.store asset := by
  simp only [recordTrip,sat_bind,sat_getSequence,modifyBreakers,sat_update]
  unfold fuseOf Store.settleStreakStart Store.sourceRecoveryLedger Store.armedLedger
  rw [update_getD,update_getD,update_getD]
  split_ifs <;> rfl

theorem recordSourceRecovery_sat : Sat (recordSourceRecovery a) w fun _ w' =>
    fuseOf w'.store asset =
      if asset = a then { fuseOf w.store asset with recovery := w.env.sequence }
      else fuseOf w.store asset := by
  simp only [recordSourceRecovery,sat_bind,sat_getSequence,modifyBreakers,sat_update]
  unfold fuseOf Store.sourceRecoveryLedger
  rw [update_getD]
  split_ifs <;> rfl

theorem tripCircuitBreaker_sat (previousPrice candidatePrice changeBps : Int)
    (maxChangeBps : Nat) :
    Sat (tripCircuitBreaker a previousPrice candidatePrice changeBps maxChangeBps) w fun _ w' =>
      w'.env = w.env ∧ fuseOf w'.store asset =
        if asset = a then { fuseOf w.store asset with tripped := true }
        else fuseOf w.store asset := by
  simp only [tripCircuitBreaker,sat_bind,sat_getSequence,readStore,getTimestamp,sat_inspect,
    modifyGates,sat_update]
  refine ⟨trivial,?_⟩
  unfold fuseOf Store.isCircuitBreakerTripped
  rw [update_getD]
  split_ifs <;> rfl

theorem setBreakerPolicy_sat (policy : BreakerPolicy) :
    Sat (setBreakerPolicy a policy) w fun _ w' =>
      fuseOf w'.store asset =
        if asset = a then { fuseOf w.store asset with policy := policy }
        else fuseOf w.store asset := by
  rw [setBreakerPolicy,sat_asAdmin]
  intro admin _ _
  simp only [validatePolicy,sat_bind,sat_ensure,modifyBreakers,sat_update]
  intro _ _ _
  unfold fuseOf Store.getBreakerPolicy
  rw [update_getD]
  split_ifs <;> rfl

theorem trackStreak_sat (deviationBps : Nat) : Sat (trackStreak a deviationBps) w fun _ w' =>
    w'.env = w.env ∧ fuseOf w'.store asset =
      if asset = a then (fuseOf w.store asset).observe w.env.sequence deviationBps
      else fuseOf w.store asset := by
  by_cases ha : asset = a
  · subst ha
    rw [if_pos rfl]
    refine sat_ite _ (fun hcalm => (sat_pure _).2 ⟨rfl,?_⟩) fun hnew => ?_
    · rw [Fuse.observe_calm hcalm]
    · rw [modifyBreakers,sat_update,Fuse.observe_new hnew]
      unfold fuseOf Store.settleStreakStart
      rw [update_getD,if_pos rfl]
      exact ⟨rfl,rfl⟩
  · rw [if_neg ha]
    refine sat_ite _ (fun _ => (sat_pure _).2 ⟨rfl,rfl⟩) fun _ => ?_
    rw [modifyBreakers,sat_update]
    unfold fuseOf Store.settleStreakStart
    rw [update_getD,if_neg ha]
    exact ⟨rfl,rfl⟩

theorem noteEscalation_sat : Sat (noteEscalation a) w fun _ w' =>
    fuseOf w'.store asset = fuseOf w.store asset := by
  exact sat_ite _ (fun _ => (sat_update _ _).2 rfl) fun _ => (sat_pure _).2 rfl

theorem rearmable_of_canRearm {env : Env} {st : Store} {deviationBps : Nat}
    (h : st.canRearm asset env deviationBps = true) :
    (fuseOf st asset).Rearmable env.sequence deviationBps := by
  unfold Store.canRearm Store.breakerEscalated Store.hasSourceRecovery at h
  simp only [Bool.and_eq_true,Bool.not_eq_true',decide_eq_true_eq,decide_eq_false_iff_not,
    not_lt] at h
  exact ⟨h.1.2.1,h.1.2.2,h.2,h.1.1.2⟩

end Writes

section Effects

variable {asset : Address} {env : Env} {st : Store} {call : BreakerCall} (a : Address)

theorem quiet_of_ne (h : asset ≠ call.asset) : Quiet asset st ⟨env,.call call⟩ where
  untripped := by
    rintro _ _ _ _ ⟨⟩
    exact h rfl
  unobserved := by
    rintro _ ⟨⟩
    exact absurd rfl h

theorem effect_of_ite {c c' : Fuse} (hc : c = if asset = call.asset then c' else fuseOf st asset)
    (h : asset = call.asset → FuseEffect asset st ⟨env,.call call⟩ c') :
    FuseEffect asset st ⟨env,.call call⟩ c := by
  by_cases ha : asset = call.asset
  · rw [hc,if_pos ha]
    exact h ha
  · rw [if_neg ha] at hc
    exact .kept (quiet_of_ne ha) hc

theorem trip_succeeds (previousPrice candidatePrice changeBps : Int) (maxChangeBps : Nat) :
    failure (BreakerCall.trip a previousPrice candidatePrice changeBps maxChangeBps).body env st =
      none :=
  rfl

theorem evaluateRearm_succeeds (deviationBps : Nat) :
    failure (evaluateRearm a deviationBps) env st = none := by
  have hrun : Succeeds (fun _ => True) (evaluateRearm a deviationBps) := by
    refine .read fun tripped => succeeds_ite _ (succeeds_pure _) ?_
    have htrack : Succeeds (fun _ => True) (trackStreak a deviationBps) :=
      .read fun _ => .read fun _ => .read fun _ =>
        succeeds_ite _ (succeeds_pure _)
          (succeeds_update fun _ _ => trivial)
    have hnote : Succeeds (fun _ => True) (noteEscalation a) :=
      .read fun _ => succeeds_ite _ (succeeds_update fun _ _ => trivial)
        (succeeds_pure _)
    have hclose : Succeeds (fun _ => True) (closeBreaker a) :=
      (succeeds_update fun _ _ => trivial).bind fun _ => succeeds_update fun _ _ => trivial
    exact htrack.bind fun _ => .read fun _ => hnote.bind fun _ =>
      succeeds_ite _ (hclose.bind fun _ => succeeds_pure _) (succeeds_pure _)
  obtain ⟨b,w,h,-⟩ := hrun (World.enter env st) trivial
  exact failure_eq_none_iff.2 ⟨b,w,h⟩

theorem trip_effect (previousPrice candidatePrice changeBps : Int) (maxChangeBps : Nat) :
    let call := BreakerCall.trip a previousPrice candidatePrice changeBps maxChangeBps
    FuseEffect asset st ⟨env,.call call⟩ (fuseOf (invoke call.body env st) asset) := by
  refine invoke_of_success (Q := fun st' => FuseEffect asset st _ (fuseOf st' asset))
    (trip_succeeds a previousPrice candidatePrice changeBps maxChangeBps) ?_
  refine (tripCircuitBreaker_sat asset _ _ _ _).andThen ?_
  rintro _ u ⟨henv,hu⟩
  refine (recordTrip_sat asset).mono fun _ v hv => ?_
  rw [hu,henv] at hv
  by_cases ha : asset = a
  · subst ha
    rw [if_pos rfl,if_pos rfl] at hv
    exact .tripped _ _ _ _ rfl hv
  · rw [if_neg ha,if_neg ha] at hv
    exact .kept (quiet_of_ne ha) hv

theorem evaluate_effect (deviationBps : Nat) :
    FuseEffect asset st ⟨env,.call (.evaluate a deviationBps)⟩
      (fuseOf (invoke (evaluateRearm a deviationBps) env st) asset) := by
  refine invoke_of_success (Q := fun st' => FuseEffect asset st _ (fuseOf st' asset))
    (evaluateRearm_succeeds a deviationBps) ?_
  refine sat_ite _ (fun hclosed => (sat_pure _).2 (.kept ⟨nofun,?_⟩ rfl)) fun hnot => ?_
  · rintro _ ⟨⟩
    exact hclosed
  have hopen := Bool.eq_true_of_not_eq_false hnot
  rw [sat_bind]
  refine (trackStreak_sat asset deviationBps).mono ?_
  rintro _ u ⟨henv,hu⟩
  rw [sat_bind,sat_readStore,sat_bind]
  refine (noteEscalation_sat asset).mono fun _ v hv => ?_
  rw [hu] at hv
  refine sat_ite _ (fun hcan => ?_) fun _ => (sat_pure _).2 ?_
  · rw [sat_bind]
    refine (closeBreaker_sat asset).mono fun _ x hx => (sat_pure _).2 ?_
    by_cases ha : asset = a
    · subst ha
      rw [if_pos rfl] at hx hv hu
      have hrearmable := rearmable_of_canRearm asset hcan
      rw [hu,henv] at hrearmable
      refine .rearmed deviationBps rfl hopen hrearmable ?_
      rw [hx,hv]
      unfold Fuse.close
      rw [Fuse.observe_policy,Fuse.observe_armed]
      rfl
    · rw [if_neg ha] at hx hv
      exact .kept (quiet_of_ne ha) (hx.trans hv)
  · refine effect_of_ite hv fun ha => ?_
    subst ha
    exact .observed deviationBps rfl hopen rfl

theorem recover_effect : FuseEffect asset st ⟨env,.call (.recover a)⟩
      (fuseOf (invoke (recordBreakerSourceRecovery a) env st) asset) := by
  have hsat : Sat (recordBreakerSourceRecovery a) (World.enter env st) fun _ w =>
      fuseOf w.store asset =
        if asset = a then { fuseOf st asset with recovery := env.sequence }
        else fuseOf st asset := by
    rw [recordBreakerSourceRecovery,sat_asAdmin]
    intro admin _ _
    rw [sat_bind]
    refine (checkRegisteredAsset_sat a _).mono ?_
    rintro _ u ⟨_,hagree⟩
    have henv : u.env = env := hagree .env (by simp)
    have hfuse : fuseOf u.store asset = fuseOf st asset :=
      fuseOf_congr asset (hagree .gates (by simp)) (hagree .breakers (by simp))
    refine (recordSourceRecovery_sat asset).mono fun _ v hv => ?_
    rw [hv,hfuse,henv]
  rcases invoke_cases hsat with ⟨_,hstore,-⟩ | ⟨hok,w,hw,hstore,-⟩
  · rw [hstore]
    exact .kept ⟨nofun,nofun⟩ rfl
  · rw [← hstore]
    refine effect_of_ite hw fun ha => ?_
    subst ha
    exact .recovered rfl hok rfl

theorem execBreaker_effect (asset : Address) (st : Store) (t : BreakerTx) :
    FuseEffect asset st t (fuseOf (execBreaker st t) asset) := by
  obtain ⟨env,act⟩ := t
  cases act with
  | elsewhere rest =>
    have htripped : (fuseOf (execBreaker st ⟨env,.elsewhere rest⟩) asset).tripped =
        ((if rest.isCircuitBreakerTripped asset then st.gates.circuitBreakerTripped asset
          else rest.gates.circuitBreakerTripped asset).getD false) := rfl
    by_cases hrest : rest.isCircuitBreakerTripped asset = true
    · refine .kept ⟨nofun,nofun⟩ ((Fuse.mk.injEq ..).mpr ⟨?_,rfl,rfl,rfl,rfl⟩)
      rw [if_pos hrest] at htripped
      exact htripped
    · refine .lowered rest rfl ((Fuse.mk.injEq ..).mpr ⟨?_,rfl,rfl,rfl,rfl⟩)
      rw [if_neg hrest] at htripped
      exact htripped.trans (Bool.eq_false_of_not_eq_true hrest)
  | call call =>
    cases call with
    | trip a previousPrice candidatePrice changeBps maxChangeBps =>
      exact trip_effect a previousPrice candidatePrice changeBps maxChangeBps
    | evaluate a deviationBps =>
      change FuseEffect asset st _ (fuseOf (invoke (do let _ ← evaluateRearm a deviationBps; pure ())
        env st) asset)
      rw [invoke_discard]
      exact evaluate_effect a deviationBps
    | recover a => exact recover_effect a
    | setPolicy a policy =>
      refine invoke_of_sat (P := fun st' => FuseEffect asset st _ (fuseOf st' asset))
        (.kept ⟨nofun,nofun⟩ rfl) ?_
      refine (setBreakerPolicy_sat asset policy).mono fun _ u hu => ?_
      refine effect_of_ite hu fun ha => ?_
      subst ha
      exact .configured policy rfl rfl
    | clear a =>
      refine invoke_of_sat (P := fun st' => FuseEffect asset st _ (fuseOf st' asset))
        (.kept ⟨nofun,nofun⟩ rfl) ?_
      rw [BreakerCall.body,clearBreaker,sat_asAdmin]
      intro admin _ _
      refine (closeBreaker_sat asset).mono fun _ u hu => ?_
      refine effect_of_ite hu fun ha => ?_
      subst ha
      exact .cleared rfl rfl

end Effects

end PriceOracle.Breakers

/-! ## When a breaker re-arms

The settle streak is one ledger number, the start of the streak, and a calm observation leaves it
alone. -/

namespace PriceOracle.Breakers

open Model Lib.Transaction Lib.Run

section Statements

variable (asset : Address)

def Trips (x : Store × BreakerTx) : Prop :=
  ∃ previousPrice candidatePrice changeBps maxChangeBps,
    x.2.act = .call (.trip asset previousPrice candidatePrice changeBps maxChangeBps)

/-- The open breaker is observed at a deviation below the threshold in force. -/
def Calm (x : Store × BreakerTx) : Prop :=
  ∃ deviationBps, x.2.act = .call (.evaluate asset deviationBps) ∧
    x.1.isCircuitBreakerTripped asset = true ∧
    deviationBps < (x.1.getBreakerPolicy asset).clearBps

/-- The open breaker is observed at a deviation at or above the threshold in force. -/
def Agitated (x : Store × BreakerTx) : Prop :=
  ∃ deviationBps, x.2.act = .call (.evaluate asset deviationBps) ∧
    x.1.isCircuitBreakerTripped asset = true ∧
    (x.1.getBreakerPolicy asset).clearBps ≤ deviationBps

def Recovers (x : Store × BreakerTx) : Prop :=
  x.2.act = .call (.recover asset) ∧
    failure (recordBreakerSourceRecovery asset) x.2.env x.1 = none

/-- An evaluation finds the breaker open and leaves it closed. -/
def Rearms (st : Store) (t : BreakerTx) : Prop :=
  (∃ deviationBps, t.act = .call (.evaluate asset deviationBps)) ∧
    st.isCircuitBreakerTripped asset = true ∧
    (execBreaker st t).isCircuitBreakerTripped asset = false

/-- Since the last trip the breaker was observed calm in each of the last `settleLedgers` ledgers and
not otherwise in any of them, the source has recovered, and the breaker was not open for too long. -/
def RearmedDuly (past : List (Store × BreakerTx)) (st : Store) (t : BreakerTx) : Prop :=
  ∃ pre trip post, past = pre ++ trip :: post ∧ Trips asset trip ∧ (∀ y ∈ post, ¬Trips asset y) ∧
    (∀ l, t.env.sequence < l + (st.getBreakerPolicy asset).settleLedgers → l ≤ t.env.sequence →
      ∃ y ∈ post ++ [(st, t)], Calm asset y ∧ y.2.env.sequence = l) ∧
    (∀ y ∈ post ++ [(st, t)], Agitated asset y →
      y.2.env.sequence + (st.getBreakerPolicy asset).settleLedgers ≤ t.env.sequence) ∧
    (∃ y ∈ post, Recovers asset y) ∧
    t.env.sequence ≤ trip.2.env.sequence + (st.getBreakerPolicy asset).maxOpenLedgers

/-- A calm observation comes in the ledger of another observation, or of a trip, or in the next
one. -/
def Attended (past : List (Store × BreakerTx)) (st : Store) (t : BreakerTx) : Prop :=
  Calm asset (st, t) → ∃ y ∈ past, (Trips asset y ∨ Calm asset y ∨ Agitated asset y) ∧
    t.env.sequence ≤ y.2.env.sequence + 1

end Statements

section Steps

variable {asset : Address} {past pre post : List (Store × BreakerTx)} {st : Store}
  {t : BreakerTx} {trip x : Store × BreakerTx} {c : Fuse}

/-- What the steps since the last trip tell of an open breaker; `last` is the ledger of the last
observation, or of the trip. -/
structure Evident (asset : Address) (past : List (Store × BreakerTx)) (trip : Store × BreakerTx)
    (post : List (Store × BreakerTx)) (last : Nat) (c : Fuse) : Prop where
  trips : Trips asset trip
  lastTrip : ∀ y ∈ post, ¬Trips asset y
  armed : c.armed = trip.2.env.sequence
  watched : ∀ y ∈ past, Trips asset y ∨ Calm asset y ∨ Agitated asset y → y.2.env.sequence ≤ last
  calm : ∀ l, c.streak < l → l ≤ last → ∃ y ∈ post, Calm asset y ∧ y.2.env.sequence = l
  agitated : ∀ y ∈ post, Agitated asset y → y.2.env.sequence ≤ c.streak
  recovery : c.recovery = 0 ∨ ∃ y ∈ post, Recovers asset y ∧ y.2.env.sequence = c.recovery

/-- Every open breaker has been tripped, and its evidence is told by the steps since. -/
def Tracked (asset : Address) (past : List (Store × BreakerTx)) (st : Store) : Prop :=
  st.isCircuitBreakerTripped asset = true →
    ∃ pre trip post last, past = pre ++ trip :: post ∧
      Evident asset past trip post last (fuseOf st asset)

/-- The step comes no earlier than those before it. -/
def InOrder (past : List (Store × BreakerTx)) (t : BreakerTx) : Prop :=
  ∀ y ∈ past, y.2.env.sequence ≤ t.env.sequence

theorem unwatched_of_quiet (h : Quiet asset st t) :
    ¬(Trips asset (st,t) ∨ Calm asset (st,t) ∨ Agitated asset (st,t)) := by
  rintro (⟨_,_,_,_,hact⟩ | ⟨d,hact,hopen,_⟩ | ⟨d,hact,hopen,_⟩)
  · exact h.untripped _ _ _ _ hact
  · exact absurd (hopen.symm.trans (h.unobserved d hact)) (by decide)
  · exact absurd (hopen.symm.trans (h.unobserved d hact)) (by decide)

theorem not_trips (h : ∀ previousPrice candidatePrice changeBps maxChangeBps,
    t.act ≠ .call (.trip asset previousPrice candidatePrice changeBps maxChangeBps)) :
    ¬Trips asset (st,t) := by
  rintro ⟨p,q,r,s,hact⟩
  exact h p q r s hact

/-- A step that is no observation and no trip. -/
theorem Evident.pass {last : Nat} (h : Evident asset past trip post last c)
    (hquiet : ¬(Trips asset x ∨ Calm asset x ∨ Agitated asset x)) :
    Evident asset (past ++ [x]) trip (post ++ [x]) last c where
  trips := h.trips
  lastTrip y hy := by
    rcases List.mem_append.1 hy with hy | hy
    · exact h.lastTrip y hy
    · rw [List.mem_singleton] at hy
      exact hy ▸ fun htrips => hquiet (.inl htrips)
  armed := h.armed
  watched y hy hwatched := by
    rcases List.mem_append.1 hy with hy | hy
    · exact h.watched y hy hwatched
    · rw [List.mem_singleton] at hy
      exact absurd (hy ▸ hwatched) hquiet
  calm l hstreak hlast := by
    obtain ⟨y,hy,hcalm⟩ := h.calm l hstreak hlast
    exact ⟨y,List.mem_append_left _ hy,hcalm⟩
  agitated y hy hagitated := by
    rcases List.mem_append.1 hy with hy | hy
    · exact h.agitated y hy hagitated
    · rw [List.mem_singleton] at hy
      exact absurd (.inr (.inr (hy ▸ hagitated))) hquiet
  recovery := h.recovery.imp_right fun ⟨y,hy,hrecovers⟩ =>
    ⟨y,List.mem_append_left _ hy,hrecovers⟩

/-- An observation of the open breaker. -/
theorem Evident.observe {last deviationBps : Nat}
    (h : Evident asset past trip post last (fuseOf st asset)) (horder : InOrder past t)
    (hpost : ∀ y ∈ post, y ∈ past) (hact : t.act = .call (.evaluate asset deviationBps))
    (hopen : st.isCircuitBreakerTripped asset = true) (hattended : Attended asset past st t) :
    Evident asset (past ++ [(st,t)]) trip (post ++ [(st,t)]) t.env.sequence
      ((fuseOf st asset).observe t.env.sequence deviationBps) where
  trips := h.trips
  lastTrip y hy := by
    rcases List.mem_append.1 hy with hy | hy
    · exact h.lastTrip y hy
    · rw [List.mem_singleton] at hy
      rw [hy]
      exact not_trips (by simp [hact])
  armed := by rw [Fuse.observe_armed,h.armed]
  watched y hy _ := by
    rcases List.mem_append.1 hy with hy | hy
    · exact horder y hy
    · rw [List.mem_singleton] at hy
      rw [hy]
  calm l hstreak hlast := by
    by_cases hcalm : deviationBps < (fuseOf st asset).policy.clearBps ∧ (fuseOf st asset).streak ≠ 0
    · rw [Fuse.observe_calm hcalm] at hstreak
      have hnow : Calm asset (st,t) := ⟨deviationBps,hact,hopen,hcalm.1⟩
      obtain ⟨y,hy,hwatched,hnext⟩ := hattended hnow
      have hprevious := h.watched y hy hwatched
      by_cases hl : l ≤ last
      · obtain ⟨z,hz,hcalm'⟩ := h.calm l hstreak hl
        exact ⟨z,List.mem_append_left _ hz,hcalm'⟩
      · exact ⟨(st,t),by simp,hnow,by dsimp only; omega⟩
    · rw [Fuse.observe_new hcalm] at hstreak
      dsimp only at hstreak
      omega
  agitated y hy hagitated := by
    by_cases hcalm : deviationBps < (fuseOf st asset).policy.clearBps ∧ (fuseOf st asset).streak ≠ 0
    · rw [Fuse.observe_calm hcalm]
      rcases List.mem_append.1 hy with hy | hy
      · exact h.agitated y hy hagitated
      · rw [List.mem_singleton] at hy
        obtain ⟨d,hd,_,hle⟩ := hy ▸ hagitated
        rw [hact] at hd
        cases hd
        exact absurd hcalm.1 (not_lt.2 hle)
    · rw [Fuse.observe_new hcalm]
      rcases List.mem_append.1 hy with hy | hy
      · exact horder y (hpost y hy)
      · rw [List.mem_singleton] at hy
        rw [hy]
  recovery := by
    rw [Fuse.observe_recovery]
    exact h.recovery.imp_right fun ⟨y,hy,hrecovers⟩ => ⟨y,List.mem_append_left _ hy,hrecovers⟩

theorem evident_of_trip (horder : InOrder past t) (htrips : Trips asset (st,t)) :
    Evident asset (past ++ [(st,t)]) (st,t) [] t.env.sequence (c.trip t.env.sequence) where
  trips := htrips
  lastTrip := by rintro _ ⟨⟩
  armed := rfl
  watched y hy _ := by
    rcases List.mem_append.1 hy with hy | hy
    · exact horder y hy
    · rw [List.mem_singleton] at hy
      rw [hy]
  calm l hstreak hlast := absurd hlast (not_le.2 hstreak)
  agitated := by rintro _ ⟨⟩
  recovery := .inl rfl

theorem tracked_of_split (last : Nat) (hpast : past = pre ++ trip :: post)
    (h : Evident asset (past ++ [x]) trip (post ++ [x]) last (fuseOf st asset)) :
    Tracked asset (past ++ [x]) st := by
  refine fun _ => ⟨pre,trip,post ++ [x],last,?_,h⟩
  rw [hpast,List.append_assoc,List.cons_append]

theorem tracked_of_closed (h : (fuseOf st asset).tripped = false) : Tracked asset past st :=
  fun hopen => absurd (h.symm.trans hopen) (by decide)

/-- A step that does not touch the evidence and is no observation keeps what is told of it. -/
theorem Tracked.pass (h : Tracked asset past st) (hquiet : Quiet asset st t) {c' : Fuse} (hc' : fuseOf (execBreaker st t) asset = c')
    (htripped : c'.tripped = (fuseOf st asset).tripped)
    (hkeep : ∀ trip post last, Evident asset (past ++ [(st,t)]) trip (post ++ [(st,t)]) last
      (fuseOf st asset) → Evident asset (past ++ [(st,t)]) trip (post ++ [(st,t)]) last c') :
    Tracked asset (past ++ [(st,t)]) (execBreaker st t) := by
  intro hopen
  have hbefore : st.isCircuitBreakerTripped asset = true := by
    change (fuseOf (execBreaker st t) asset).tripped = true at hopen
    rw [hc',htripped] at hopen
    exact hopen
  obtain ⟨pre,trip,post,last,hpast,hevident⟩ := h hbefore
  refine tracked_of_split last hpast ?_ hopen
  rw [hc']
  exact hkeep trip post last (hevident.pass (unwatched_of_quiet hquiet))

theorem rearmedDuly_of_evident {deviationBps : Nat} (hpast : past = pre ++ trip :: post)
    (h : Evident asset (past ++ [(st,t)]) trip (post ++ [(st,t)]) t.env.sequence
      ((fuseOf st asset).observe t.env.sequence deviationBps))
    (hact : t.act = .call (.evaluate asset deviationBps))
    (hrearmable : ((fuseOf st asset).observe t.env.sequence deviationBps).Rearmable t.env.sequence
      deviationBps) : RearmedDuly asset past st t := by
  obtain ⟨_,hsettled,hrecovered,hbounded⟩ := hrearmable
  have hpolicy : (fuseOf st asset).policy = st.getBreakerPolicy asset := rfl
  rw [Fuse.observe_policy,hpolicy] at hsettled hbounded
  refine ⟨pre,trip,post,hpast,h.trips,fun y hy => h.lastTrip y (List.mem_append_left _ hy),
    fun l hl hle => h.calm l (by omega) hle,fun y hy hagitated => ?_,?_,?_⟩
  · have hstreak := h.agitated y hy hagitated
    have hle : y.2.env.sequence ≤ t.env.sequence :=
      h.watched y (by rw [hpast]; simp at hy ⊢; tauto) (.inr (.inr hagitated))
    omega
  · rcases h.recovery with hzero | ⟨y,hy,hrecovers,_⟩
    · omega
    · rcases List.mem_append.1 hy with hy | hy
      · exact ⟨y,hy,hrecovers⟩
      · rw [List.mem_singleton] at hy
        rw [hy] at hrecovers
        cases hact.symm.trans hrecovers.1
  · have harmed := h.armed
    omega

/-- One step keeps what is told of the open breaker, and re-arms it only duly. -/
theorem breaker_step (h : Tracked asset past st) (horder : InOrder past t)
    (hattended : Attended asset past st t) :
    (Rearms asset st t → RearmedDuly asset past st t) ∧
      Tracked asset (past ++ [(st,t)]) (execBreaker st t) := by
  have hidle (hact : ∀ deviationBps, t.act ≠ .call (.evaluate asset deviationBps)) :
      Rearms asset st t → RearmedDuly asset past st t := fun ⟨⟨d,hd⟩,_⟩ => absurd hd (hact d)
  have hheld {c' : Fuse} (hc' : fuseOf (execBreaker st t) asset = c')
      (hopen : c'.tripped = (fuseOf st asset).tripped) :
      Rearms asset st t → RearmedDuly asset past st t := by
    rintro ⟨-,hbefore,hafter⟩
    change (fuseOf (execBreaker st t) asset).tripped = false at hafter
    rw [hc',hopen] at hafter
    exact absurd (hafter.symm.trans hbefore) (by decide)
  cases execBreaker_effect asset st t with
  | kept hquiet hkept => exact ⟨hheld hkept rfl,h.pass hquiet hkept rfl fun _ _ _ hkeep => hkeep⟩
  | tripped previousPrice candidatePrice changeBps maxChangeBps hact htripped =>
    refine ⟨hidle (by simp [hact]),fun _ => ⟨past,(st,t),[],t.env.sequence,rfl,?_⟩⟩
    rw [htripped]
    exact evident_of_trip horder ⟨_,_,_,_,hact⟩
  | observed deviationBps hact hopen hobserved =>
    obtain ⟨pre,trip,post,last,hpast,hevident⟩ := h hopen
    refine ⟨hheld hobserved (Fuse.observe_tripped ..),tracked_of_split t.env.sequence hpast ?_⟩
    rw [hobserved]
    exact hevident.observe horder (by rw [hpast]; simp; tauto) hact hopen hattended
  | rearmed deviationBps hact hopen hrearmable hrearmed =>
    obtain ⟨pre,trip,post,last,hpast,hevident⟩ := h hopen
    refine ⟨fun _ => ?_,tracked_of_closed (by rw [hrearmed]; rfl)⟩
    exact rearmedDuly_of_evident hpast
      (hevident.observe horder (by rw [hpast]; simp; tauto) hact hopen hattended) hact hrearmable
  | recovered hact haccepted hrecovered =>
    refine ⟨hidle (by simp [hact]),h.pass ⟨by simp [hact],by simp [hact]⟩ hrecovered rfl ?_⟩
    intro trip post last hkeep
    exact { hkeep with recovery := .inr ⟨(st,t),by simp,⟨hact,haccepted⟩,rfl⟩ }
  | configured policy hact hconfigured =>
    refine ⟨hidle (by simp [hact]),h.pass ⟨by simp [hact],by simp [hact]⟩ hconfigured rfl ?_⟩
    intro trip post last hkeep
    exact { hkeep with }
  | cleared hact hcleared =>
    exact ⟨hidle (by simp [hact]),tracked_of_closed (by rw [hcleared]; rfl)⟩
  | lowered rest hact hlowered =>
    exact ⟨hidle (by simp [hact]),tracked_of_closed (by rw [hlowered])⟩

end Steps

section Runs

variable {asset : Address} {st : Store}

/-- In a run whose calm observations are attended, and that begins with the breaker closed, the
breaker is only re-armed duly. -/
theorem rearmings_due (ts : List BreakerTx) (hst : st.isCircuitBreakerTripped asset = false)
    (hledgers : ts.Pairwise fun t u => t.env.sequence ≤ u.env.sequence)
    (hattended : ∀ pre t post, ts = pre ++ t :: post →
      Attended asset (steps execBreaker st pre) (run execBreaker st pre) t) :
    ∀ pre t post, ts = pre ++ t :: post → Rearms asset (run execBreaker st pre) t →
      RearmedDuly asset (steps execBreaker st pre) (run execBreaker st pre) t :=
  past_satisfies (I := fun past s => Tracked asset past s)
    (C := fun past s t => InOrder past t ∧ Attended asset past s t)
    (P := fun past s t => Rearms asset s t → RearmedDuly asset past s t)
    (fun _ _ _ hs ht => breaker_step hs ht.1 ht.2) (tracked_of_closed hst)
    fun pre t post hts => ⟨past_ordered hledgers pre t post hts,hattended pre t post hts⟩

/-- The breaker of asset 10 has the default policy. -/
def breakerStore : Store where
  config := { admin := some 9 }
  registry := { assetRegistered := fun a => if a = 10 then some true else none }

def breakerCall (sequence : Nat) (call : BreakerCall) : BreakerTx :=
  ⟨.concrete sequence 5 [9], .call call⟩

/-- A trip, a recovery, and one calm observation ten ledgers after the trip. -/
def hastyRun : List BreakerTx :=
  [breakerCall 100 (.trip 10 100 200 10000 1000), breakerCall 101 (.recover 10),
    breakerCall 110 (.evaluate 10 0)]

/-- One calm observation re-arms a breaker that nobody has observed since its trip. -/
theorem rearmed_unobserved :
    breakerStore.isCircuitBreakerTripped 10 = false ∧
      hastyRun.Pairwise (fun t u => t.env.sequence ≤ u.env.sequence) ∧
      ¬∀ pre t post, hastyRun = pre ++ t :: post → Rearms 10 (run execBreaker breakerStore pre) t →
        RearmedDuly 10 (steps execBreaker breakerStore pre) (run execBreaker breakerStore pre) t := by
  refine ⟨rfl,by decide,fun h => ?_⟩
  obtain ⟨pre,trip,post,hpast,-,-,hcalm,-⟩ := h (hastyRun.take 2)
    (breakerCall 110 (.evaluate 10 0)) [] rfl ⟨⟨0,rfl⟩,by decide +kernel,by decide +kernel⟩
  obtain ⟨y,hy,⟨d,hact,-⟩,hledger⟩ := hcalm 105 (by decide +kernel) (by decide)
  rcases List.mem_append.1 hy with hy | hy
  · have hmem : y ∈ steps execBreaker breakerStore (hastyRun.take 2) := by
      rw [hpast]
      exact List.mem_append_right _ (List.mem_cons_of_mem trip hy)
    have hinput := snd_mem_of_mem_steps hmem
    simp only [hastyRun,List.take_succ_cons,List.take_zero,List.mem_cons,List.not_mem_nil,
      or_false] at hinput
    rcases hinput with hinput | hinput <;> rw [hinput] at hact <;> cases hact
  · rw [List.mem_singleton] at hy
    rw [hy] at hledger
    exact absurd hledger (by decide)

/-- A trip, a recovery, and calm observations in both ledgers that the policy asks for. -/
def patientRun : List BreakerTx :=
  [breakerCall 99 (.setPolicy 10 ⟨2000, 1000, 2, 1000, true⟩),
    breakerCall 100 (.trip 10 100 200 10000 1000), breakerCall 101 (.recover 10),
    breakerCall 101 (.evaluate 10 0), breakerCall 102 (.evaluate 10 0)]

theorem rearmed_attended :
    RearmedDuly 10 (steps execBreaker breakerStore (patientRun.take 4))
      (run execBreaker breakerStore (patientRun.take 4)) (breakerCall 102 (.evaluate 10 0)) := by
  have hattended : ∀ pre t post, patientRun = pre ++ t :: post →
      Attended 10 (steps execBreaker breakerStore pre) (run execBreaker breakerStore pre) t := by
    refine forall_splits_cons (fun h => nomatch h) (forall_splits_cons (fun h => nomatch h)
      (forall_splits_cons (fun h => nomatch h) (forall_splits_cons (fun _ => ?_)
        (forall_splits_cons (fun _ => ?_) forall_splits_nil))))
    · exact ⟨(_,breakerCall 100 (.trip 10 100 200 10000 1000)),.tail _ (.head _),
        .inl ⟨_,_,_,_,rfl⟩,show 101 ≤ 100 + 1 by decide⟩
    · exact ⟨(_,breakerCall 101 (.evaluate 10 0)),.tail _ (.tail _ (.tail _ (.head _))),
        .inr (.inl ⟨0,rfl,by decide +kernel,by decide +kernel⟩),show 102 ≤ 101 + 1 by decide⟩
  exact rearmings_due patientRun rfl (by decide) hattended (patientRun.take 4) _ [] rfl
    ⟨⟨0,rfl⟩,by decide +kernel,by decide +kernel⟩

end Runs

end PriceOracle.Breakers
