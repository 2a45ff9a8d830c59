import PriceOracle.Configuration.Calls
import PriceOracle.Model.Recovery

/-! # Lapses of the heartbeat

The warning is a latch: an evaluation sets it and a recovery resets it, but a heartbeat does not.
The trip and the operators share one pause flag, which a recovery clears. -/

namespace PriceOracle.DeadMan

open Lib.Transaction Lib.Run Model

inductive WatchCall
  | configure (triggerAfter warnAfter : Nat) (operators : List Address)
  | heartbeat (operator : Address)
  | evaluate
  | recover (guardian : Address)
  | pause
  | unpause

def WatchCall.body : WatchCall → Contract Unit
  | configure triggerAfter warnAfter operators => deadManConfigure triggerAfter warnAfter operators
  | heartbeat operator => deadManHeartbeat operator
  | evaluate => do
    let _ ← deadManEvaluate
    pure ()
  | recover guardian => deadManRecover guardian
  | pause => Model.pause
  | unpause => Model.unpause

structure WatchTx where
  env : Env
  call : WatchCall

def execWatch (st : Store) (t : WatchTx) : Store := invoke t.call.body t.env st

def WatchTx.events (st : Store) (t : WatchTx) : List DeadManEvent :=
  (effects t.call.body t.env st).liveness

def Beats (st : Store) (t : WatchTx) : Prop :=
  ∃ operator, t.call = .heartbeat operator ∧ failure (deadManHeartbeat operator) t.env st = none

def Warns (st : Store) (t : WatchTx) : Prop :=
  ∃ elapsed triggerAfter last, .warning elapsed triggerAfter last ∈ t.events st

def Trips (st : Store) (t : WatchTx) : Prop :=
  st.isDegraded = false ∧ (execWatch st t).isDegraded = true

def Recovers (st : Store) (t : WatchTx) : Prop :=
  ∃ guardian, t.call = .recover guardian ∧ failure (deadManRecover guardian) t.env st = none

def watching (st : Store) : Bool := st.isDeadManEnabled && !st.isDegraded

/-- The warning is overdue and was not announced since the last recovery. -/
def warningDue (env : Env) (st : Store) : Bool :=
  0 < st.getDeadManConfig.warnAfter ∧
    st.getDeadManConfig.warnAfter ≤ st.elapsedSince env.timestamp ∧ st.isWarningEmitted = false

def triggerDue (env : Env) (st : Store) : Bool :=
  st.getDeadManConfig.triggerAfter ≤ st.elapsedSince env.timestamp

def warningOf (env : Env) (st : Store) : DeadManEvent :=
  .warning (st.elapsedSince env.timestamp) st.getDeadManConfig.triggerAfter st.getLastHeartbeat

def triggerOf (env : Env) (st : Store) : DeadManEvent :=
  .triggered (st.elapsedSince env.timestamp) st.getDeadManConfig.triggerAfter st.getLastHeartbeat

def acceptsHeartbeat (env : Env) (st : Store) (operator : Address) : Bool :=
  st.isDeadManEnabled && env.authorized operator && decide (operator ∈ st.getDeadManConfig.operators)

/-- The warning of a configuration comes before its trigger. -/
def Sensible (st : Store) : Prop :=
  0 < st.getDeadManConfig.triggerAfter →
    st.getDeadManConfig.warnAfter < st.getDeadManConfig.triggerAfter

section Calls

variable {w : World}

theorem deadManConfigure_sat (triggerAfter warnAfter : Nat) (operators : List Address) :
    Sat (deadManConfigure triggerAfter warnAfter operators) w fun _ w' =>
      Sensible w'.store ∧ w'.log.liveness = w.log.liveness ∧
        w'.store.deadMan = { w.store.deadMan with
          config := some ⟨triggerAfter,warnAfter,operators⟩ } := by
  refine (sat_asAdmin _).2 fun admin _ _ => ?_
  simp only [sat_bind,sat_ensure,modifyDeadMan,sat_update]
  intro hwarn _
  exact ⟨hwarn,rfl,rfl⟩

theorem deadManHeartbeat_sat (operator : Address) :
    Sat (deadManHeartbeat operator) w fun _ w' =>
      acceptsHeartbeat w.env w.store operator = true ∧ w'.log.liveness = w.log.liveness ∧
        w'.store.deadMan = { w.store.deadMan with lastHeartbeat := some w.env.timestamp } := by
  simp only [deadManHeartbeat,sat_bind,sat_readStore,sat_ensure,sat_requireAuth,
    sat_getTimestamp,modifyDeadMan,sat_update]
  intro harmed hauth hoperator
  simp [acceptsHeartbeat,Store.isDeadManEnabled,hauth,hoperator,Nat.pos_of_ne_zero harmed]

theorem warnIfOverdue_sat :
    Sat (warnIfOverdue (w.store.elapsedSince w.env.timestamp) w.store.getLastHeartbeat) w
      fun _ w' => w'.store.deadMan = { w.store.deadMan with
          warned := w.store.deadMan.warned || warningDue w.env w.store } ∧
        w'.log.liveness = w.log.liveness ++
          if warningDue w.env w.store = true then [warningOf w.env w.store] else [] := by
  refine sat_ite _ (fun hdue => ?_) fun hquiet => (sat_pure _).2 ?_
  · have hset : warningDue w.env w.store = true := decide_eq_true hdue
    simp only [sat_bind,modifyDeadMan,sat_update,sat_announce]
    rw [hset,Bool.or_true,if_pos rfl]
    exact ⟨rfl,rfl⟩
  · have hclear : warningDue w.env w.store = false := decide_eq_false hquiet
    rw [hclear,Bool.or_false,if_neg Bool.false_ne_true,List.append_nil]
    exact ⟨rfl,rfl⟩

theorem enterDegraded_sat (elapsed last : Nat) :
    Sat (enterDegraded elapsed last) w fun _ w' =>
      w'.store.deadMan = { w.store.deadMan with
        degraded := true
        triggeredAt := some w.env.timestamp } ∧
      w'.log.liveness = w.log.liveness ++
        [.triggered elapsed w.store.getDeadManConfig.triggerAfter last] := by
  simp only [enterDegraded,sat_bind,sat_getTimestamp,modifyDeadMan,sat_update,sat_mark,
    modifyGates,sat_readStore,sat_announce]
  exact ⟨trivial,rfl⟩

/-- An evaluation of an armed switch announces the warning, and then the trip. -/
theorem evaluateArmed_sat :
    Sat evaluateArmed w fun _ w' =>
      w'.store.deadMan.config = w.store.deadMan.config ∧
      w'.store.deadMan.warned = (w.store.deadMan.warned || warningDue w.env w.store) ∧
      w'.store.deadMan.degraded = (w.store.deadMan.degraded || triggerDue w.env w.store) ∧
      w'.log.liveness = w.log.liveness ++
        (if warningDue w.env w.store = true then [warningOf w.env w.store] else []) ++
        (if triggerDue w.env w.store = true then [triggerOf w.env w.store] else []) := by
  simp only [evaluateArmed,sat_bind,sat_readStore]
  refine warnIfOverdue_sat.mono ?_
  rintro _ u ⟨hstate,hlog⟩
  have hconfig : u.store.getDeadManConfig = w.store.getDeadManConfig := by
    rw [Store.getDeadManConfig,hstate]
    rfl
  refine sat_ite _ (fun hdue => ?_) fun hquiet => (sat_pure _).2 ?_
  · have hset : triggerDue w.env w.store = true := decide_eq_true hdue
    refine (enterDegraded_sat _ _).andThen ?_
    rintro _ v ⟨hstate',hlog'⟩
    rw [sat_pure]
    rw [hset,Bool.or_true,if_pos rfl,hstate',hlog',hconfig,hstate,hlog]
    exact ⟨rfl,rfl,rfl,rfl⟩
  · have hclear : triggerDue w.env w.store = false := decide_eq_false hquiet
    rw [hclear,Bool.or_false,if_neg Bool.false_ne_true,List.append_nil,hstate,hlog]
    exact ⟨rfl,rfl,rfl,rfl⟩

theorem deadManEvaluate_sat {P : World → Prop} (hquiet : watching w.store = false → P w)
    (harmed : watching w.store = true → Sat evaluateArmed w fun _ w' => P w') :
    Sat deadManEvaluate w fun _ w' => P w' := by
  refine sat_ite _ (fun hdisabled => (sat_pure _).2 (hquiet ?_)) fun henabled => ?_
  · simp [watching,hdisabled]
  · refine sat_ite _ (fun hdegraded => (sat_pure _).2 (hquiet ?_)) fun hoperating => harmed ?_
    · simp [watching,hdegraded]
    · simp [watching,henabled,hoperating]

theorem deadManRecover_sat (guardian : Address) :
    Sat (deadManRecover guardian) w fun _ w' =>
      w.store.isDegraded = true ∧ w'.store.isPaused = false ∧
        w'.store.deadMan = { w.store.deadMan with
          degraded := false
          triggeredAt := none
          warned := false } ∧
        w'.log.liveness = w.log.liveness ++ [.recovered guardian] := by
  simp only [deadManRecover,sat_bind,sat_requireAuth,sat_readStore,sat_ensure,getAdmin,
    sat_consult,modifyDeadMan,sat_update,modifyGates,sat_announce]
  intro _ hdegraded _ _ _
  refine ⟨hdegraded,?_,trivial,trivial⟩
  simp [Store.isPaused]

theorem deadMan_of_frame {m : Contract Unit}
    (hm : Frame [.auths,.config,.suspension,.flags,.gates] m) (env : Env) (st : Store) :
    (invoke m env st).deadMan = st.deadMan :=
  congrArg Prod.fst (invoke_view (r := .deadMan) hm (by simp))

theorem pause_frame : Frame [.auths,.config,.suspension,.flags,.gates] Model.pause :=
  asAdmin_frame ((snapshotBeforeChange_frame.mono (by simp)).bind fun _ =>
    ((mark_frame _).mono (by simp)).bind fun _ => (modifyGates_frame _).mono (by simp))

theorem unpause_frame : Frame [.auths,.config,.suspension,.flags,.gates] Model.unpause :=
  asAdmin_frame ((snapshotBeforeChange_frame.mono (by simp)).bind fun _ =>
    (modifyGates_frame _).mono (by simp))

end Calls

/-- What a step does to the latch and the degraded state, with the events that matter. -/
inductive Effect (st st' : Store) (t : WatchTx) : Prop
  | quiet (hlatch : st'.deadMan.warned = st.deadMan.warned)
      (hstate : st'.deadMan.degraded = st.deadMan.degraded) (hno : ¬Recovers st t)
  | warned (hwarns : Warns st t) (hstate : st'.deadMan.degraded = st.deadMan.degraded)
      (hno : ¬Recovers st t)
  | tripped (hcall : t.call = .evaluate) (hwatching : watching st = true)
      (hdue : triggerDue t.env st = true) (hset : st'.deadMan.degraded = true)
      (hevents : t.events st = (if warningDue t.env st = true then [warningOf t.env st] else []) ++
        [triggerOf t.env st])
  | recovered (hcall : Recovers st t) (hdegraded : st.deadMan.degraded = true)
      (hpaused : st'.isPaused = false) (hclear : st'.deadMan.warned = false)
      (hstate : st'.deadMan.degraded = false)

section Steps

variable {st : Store} {t : WatchTx}

theorem not_recovers (hcall : ∀ guardian, t.call ≠ .recover guardian) : ¬Recovers st t := by
  rintro ⟨guardian,hrecover,-⟩
  exact hcall guardian hrecover

theorem quiet_of_state {d : Model.DeadMan} (h : (execWatch st t).deadMan = d)
    (hlatch : d.warned = st.deadMan.warned) (hstate : d.degraded = st.deadMan.degraded)
    (hno : ¬Recovers st t) : Effect st (execWatch st t) t := by
  refine .quiet ?_ ?_ hno
  · rw [h,hlatch]
  · rw [h,hstate]

theorem execWatch_effect (st : Store) (t : WatchTx) : Effect st (execWatch st t) t := by
  obtain ⟨env,call⟩ := t
  have hkept (h : execWatch st ⟨env,call⟩ = st) (hno : ¬Recovers st ⟨env,call⟩) :
      Effect st (execWatch st ⟨env,call⟩) ⟨env,call⟩ :=
    quiet_of_state (congrArg Store.deadMan h) rfl rfl hno
  cases call with
  | configure triggerAfter warnAfter operators =>
    have hno : ¬Recovers st ⟨env,.configure triggerAfter warnAfter operators⟩ :=
      not_recovers fun _ h => by cases h
    rcases invoke_cases (deadManConfigure_sat (w := World.enter env st) triggerAfter warnAfter
      operators) with ⟨-,hst,-⟩ | ⟨-,w,⟨-,-,hstate⟩,hw,-⟩
    · exact hkept hst hno
    · rw [hw] at hstate
      exact quiet_of_state hstate rfl rfl hno
  | heartbeat operator =>
    have hno : ¬Recovers st ⟨env,.heartbeat operator⟩ := not_recovers fun _ h => by cases h
    rcases invoke_cases (deadManHeartbeat_sat (w := World.enter env st) operator) with
      ⟨-,hst,-⟩ | ⟨-,w,⟨-,-,hstate⟩,hw,-⟩
    · exact hkept hst hno
    · rw [hw] at hstate
      exact quiet_of_state hstate rfl rfl hno
  | evaluate =>
    have hno : ¬Recovers st ⟨env,.evaluate⟩ := not_recovers fun _ h => by cases h
    by_cases hwatching : watching st = true
    · have hsat : Sat WatchCall.evaluate.body (World.enter env st) fun _ w' =>
          w'.store.deadMan.warned = (st.deadMan.warned || warningDue env st) ∧
          w'.store.deadMan.degraded = (st.deadMan.degraded || triggerDue env st) ∧
          w'.log.liveness = (if warningDue env st = true then [warningOf env st] else []) ++
            (if triggerDue env st = true then [triggerOf env st] else []) := by
        simp only [WatchCall.body,sat_bind,sat_pure]
        refine deadManEvaluate_sat (fun hoff => ?_) fun _ => evaluateArmed_sat.mono ?_
        · rw [show watching st = false from hoff] at hwatching
          cases hwatching
        · exact fun _ _ h => h.2
      rcases invoke_cases hsat with ⟨-,hst,-⟩ | ⟨-,w,⟨hlatch,hstate,hevents⟩,hw,hlog⟩
      · exact hkept hst hno
      · rw [hw] at hlatch hstate
        rw [hlog] at hevents
        cases hdue : triggerDue env st with
        | true =>
          rw [hdue,Bool.or_true] at hstate
          rw [if_pos hdue] at hevents
          exact .tripped rfl hwatching hdue hstate hevents
        | false =>
          rw [hdue,Bool.or_false] at hstate
          cases hwarn : warningDue env st with
          | true =>
            have hwarns : warningOf env st ∈ WatchTx.events st ⟨env,.evaluate⟩ := by
              rw [WatchTx.events,hevents,if_pos hwarn]
              exact List.mem_append_left _ (List.mem_singleton_self _)
            exact .warned ⟨_,_,_,hwarns⟩ hstate hno
          | false =>
            rw [hwarn,Bool.or_false] at hlatch
            exact .quiet hlatch hstate hno
    · have hsat : Sat WatchCall.evaluate.body (World.enter env st) fun _ w' =>
          w'.store = st := by
        simp only [WatchCall.body,sat_bind,sat_pure]
        exact deadManEvaluate_sat (fun _ => rfl) fun hon => (hwatching hon).elim
      exact hkept (invoke_of_sat (P := fun s => s = st) rfl hsat) hno
  | recover guardian =>
    rcases invoke_cases (deadManRecover_sat (w := World.enter env st) guardian) with
      ⟨hfail,hst,-⟩ | ⟨hok,w,⟨hdegraded,hpaused,hstate,-⟩,hw,-⟩
    · refine hkept hst ?_
      rintro ⟨g,hcall,hok⟩
      cases hcall
      exact hfail hok
    · rw [hw] at hpaused hstate
      refine .recovered ⟨guardian,rfl,hok⟩ hdegraded hpaused ?_ ?_
      · exact congrArg DeadMan.warned hstate
      · exact congrArg DeadMan.degraded hstate
  | pause =>
    exact quiet_of_state (deadMan_of_frame pause_frame env st) rfl rfl
      (not_recovers fun _ h => by cases h)
  | unpause =>
    exact quiet_of_state (deadMan_of_frame unpause_frame env st) rfl rfl
      (not_recovers fun _ h => by cases h)

theorem accepts_of_beats (h : Beats st t) : ∃ operator, t.call = .heartbeat operator ∧
    acceptsHeartbeat t.env st operator = true := by
  obtain ⟨operator,hcall,hok⟩ := h
  obtain ⟨_,w,hrun⟩ := failure_eq_none_iff.1 hok
  exact ⟨operator,hcall,(deadManHeartbeat_sat operator _ _ hrun).1⟩

theorem sensible_step (h : Sensible st) : Sensible (execWatch st t) := by
  have hsame (st' : Store) (hconfig : st'.deadMan.config = st.deadMan.config) : Sensible st' := by
    unfold Sensible Store.getDeadManConfig at h ⊢
    rw [hconfig]
    exact h
  obtain ⟨env,call⟩ := t
  cases call with
  | configure triggerAfter warnAfter operators =>
    exact invoke_of_sat (P := Sensible) h
      ((deadManConfigure_sat triggerAfter warnAfter operators).mono fun _ _ hw => hw.1)
  | heartbeat operator =>
    refine hsame _ (invoke_of_sat (P := fun s => s.deadMan.config = st.deadMan.config) rfl ?_)
    refine (deadManHeartbeat_sat operator).mono ?_
    rintro _ w ⟨_,_,hw⟩
    rw [hw]
    rfl
  | evaluate =>
    refine hsame _ (invoke_of_sat (P := fun s => s.deadMan.config = st.deadMan.config) rfl ?_)
    simp only [WatchCall.body,sat_bind,sat_pure]
    exact deadManEvaluate_sat (fun _ => rfl) fun _ => evaluateArmed_sat.mono fun _ _ hw => hw.1
  | recover guardian =>
    refine hsame _ (invoke_of_sat (P := fun s => s.deadMan.config = st.deadMan.config) rfl ?_)
    refine (deadManRecover_sat guardian).mono ?_
    rintro _ w ⟨_,_,hw,_⟩
    rw [hw]
    rfl
  | pause => exact hsame _ (congrArg DeadMan.config (deadMan_of_frame pause_frame env st))
  | unpause => exact hsame _ (congrArg DeadMan.config (deadMan_of_frame unpause_frame env st))

end Steps

/-- No heartbeat is accepted while a warning stands, unless the switch has tripped; and no trip
finds the contract paused. -/
def WatchTx.Calm (st : Store) (t : WatchTx) : Prop :=
  match t.call with
  | .heartbeat operator => acceptsHeartbeat t.env st operator = true →
      st.isDegraded = true ∨ st.isWarningEmitted = false
  | .evaluate => watching st = true → triggerDue t.env st = true → st.isPaused = false
  | _ => True

/-- A warning was announced since the last accepted heartbeat, or the trip announces it first. -/
def Forewarned (st : Store) (pre : List WatchTx) (t : WatchTx) : Prop :=
  Unended execWatch st Warns Beats pre ∨
    t.events (run execWatch st pre) = [warningOf t.env (run execWatch st pre),
      triggerOf t.env (run execWatch st pre)]

/-- The recovery leaves the contract paused exactly if the trip that it ends found it paused. -/
def Restores (st : Store) (pre : List WatchTx) (t : WatchTx) : Prop :=
  ∃ before trip mid, pre = before ++ trip :: mid ∧ Trips (run execWatch st before) trip ∧
    (∀ x ∈ steps execWatch (run execWatch st (before ++ [trip])) mid, ¬Recovers x.1 x.2) ∧
    (execWatch (run execWatch st pre) t).isPaused = (run execWatch st before).isPaused

section Runs

variable {st : Store} {pre ts : List WatchTx} {t : WatchTx}

theorem tripped_of_trips (h : Trips st t) : t.call = .evaluate ∧ watching st = true ∧
    triggerDue t.env st = true ∧
    t.events st = (if warningDue t.env st = true then [warningOf t.env st] else []) ++
      [triggerOf t.env st] := by
  obtain ⟨hbefore,hafter⟩ := h
  unfold Store.isDegraded at hbefore hafter
  cases execWatch_effect st t with
  | quiet _ hstate _ =>
    rw [hstate,hbefore] at hafter
    cases hafter
  | warned _ hstate _ =>
    rw [hstate,hbefore] at hafter
    cases hafter
  | tripped hcall hwatching hdue _ hevents => exact ⟨hcall,hwatching,hdue,hevents⟩
  | recovered _ hdegraded _ _ _ =>
    rw [hdegraded] at hbefore
    cases hbefore

theorem degraded_iff (hst : st.isDegraded = false) :
    (run execWatch st pre).isDegraded = true ↔ Unended execWatch st Trips Recovers pre := by
  refine latch_iff (P := fun s : Store => s.isDegraded = true) (by simp [hst])
    (fun _ _ htrip => htrip.2) (fun s u hrecovers => ?_) fun s u htrips hrecovers => ?_
  · cases execWatch_effect s u with
    | quiet _ _ hno => exact (hno hrecovers).elim
    | warned _ _ hno => exact (hno hrecovers).elim
    | tripped hcall _ _ _ _ =>
      obtain ⟨guardian,hrecover,-⟩ := hrecovers
      rw [hcall] at hrecover
      cases hrecover
    | recovered _ _ _ _ hstate =>
      unfold Store.isDegraded
      rw [hstate]
      exact Bool.false_ne_true
  · unfold Store.isDegraded
    cases execWatch_effect s u with
    | quiet _ hstate _ => rw [hstate]
    | warned _ hstate _ => rw [hstate]
    | tripped _ hwatching _ hset _ =>
      refine (htrips ⟨?_,hset⟩).elim
      rw [watching,Bool.and_eq_true,Bool.not_eq_true'] at hwatching
      exact hwatching.2
    | recovered hcall _ _ _ _ => exact (hrecovers hcall).elim

/-- While the switch has not tripped, a latch that is set stands for a warning that no accepted
heartbeat came after. -/
structure WarnedSince (st : Store) (pre : List WatchTx) : Prop where
  sensible : Sensible (run execWatch st pre)
  warned : (run execWatch st pre).isDegraded = false →
    (run execWatch st pre).isWarningEmitted = true → Unended execWatch st Warns Beats pre

theorem warnedSince_run (hst : st.deadMan = {})
    (hcalm : ∀ x ∈ steps execWatch st pre, x.2.Calm x.1) : WarnedSince st pre := by
  induction pre using List.reverseRecOn with
  | nil =>
    refine ⟨fun harmed => ?_,fun _ hset => ?_⟩
    · rw [run_nil,Store.getDeadManConfig,hst] at harmed
      exact (Nat.lt_irrefl 0 harmed).elim
    · rw [run_nil,Store.isWarningEmitted,hst] at hset
      cases hset
  | append_singleton pre t ih =>
    rw [steps_append,List.forall_mem_append] at hcalm
    obtain ⟨hbefore,hlast⟩ := hcalm
    obtain ⟨hsensible,hwarned⟩ := ih hbefore
    have hquiet := hlast _ (List.mem_singleton_self _)
    refine ⟨by rw [run_concat]; exact sensible_step hsensible,fun hoperating hset => ?_⟩
    rw [run_concat] at hoperating hset
    unfold Store.isDegraded at hoperating
    unfold Store.isWarningEmitted at hset
    rw [unended_concat]
    cases execWatch_effect (run execWatch st pre) t with
    | quiet hlatch hstate _ =>
      rw [hlatch] at hset
      rw [hstate] at hoperating
      refine .inr ⟨hwarned hoperating hset,fun hbeats => ?_⟩
      -- an accepted heartbeat would find the latch set
      obtain ⟨operator,hcall,haccepts⟩ := accepts_of_beats hbeats
      unfold WatchTx.Calm at hquiet
      rw [hcall] at hquiet
      rcases hquiet haccepts with hdegraded | hclear
      · exact (Bool.eq_false_iff.1 hoperating hdegraded).elim
      · exact (Bool.eq_false_iff.1 hclear hset).elim
    | warned hwarns _ _ => exact .inl hwarns
    | tripped _ _ _ hstate _ => exact (Bool.eq_false_iff.1 hoperating hstate).elim
    | recovered _ _ _ hclear _ => exact (Bool.eq_false_iff.1 hclear hset).elim

theorem forewarned_of_calm (hsince : WarnedSince st pre) (htrip : Trips (run execWatch st pre) t)
    (hwarns : 0 < (run execWatch st pre).getDeadManConfig.warnAfter) : Forewarned st pre t := by
  obtain ⟨hcall,hwatching,hdue,hevents⟩ := tripped_of_trips htrip
  cases hwarn : warningDue t.env (run execWatch st pre) with
  | true =>
    rw [if_pos hwarn] at hevents
    exact .inr hevents
  | false =>
    refine .inl (hsince.warned htrip.1 ?_)
    -- the trigger is past, so the warning is too, and only the latch can have held it back
    rw [watching,Bool.and_eq_true,Store.isDeadManEnabled,decide_eq_true_eq] at hwatching
    have hbefore := hsince.sensible hwatching.1
    unfold triggerDue at hdue
    rw [decide_eq_true_eq] at hdue
    unfold warningDue at hwarn
    rw [decide_eq_false_iff_not,not_and,not_and,Bool.not_eq_false] at hwarn
    exact hwarn hwarns (Nat.le_trans (Nat.le_of_lt hbefore) hdue)

theorem restores_of_calm (hst : st.isDegraded = false)
    (hcalm : ∀ x ∈ steps execWatch st pre, x.2.Calm x.1)
    (hrecovers : Recovers (run execWatch st pre) t) : Restores st pre t := by
  cases execWatch_effect (run execWatch st pre) t with
  | quiet _ _ hno => exact (hno hrecovers).elim
  | warned _ _ hno => exact (hno hrecovers).elim
  | tripped hcall _ _ _ _ =>
    obtain ⟨guardian,hrecover,-⟩ := hrecovers
    rw [hcall] at hrecover
    cases hrecover
  | recovered _ hdegraded hpaused _ _ =>
    obtain ⟨before,trip,mid,hpre,htrip,hno⟩ := (degraded_iff hst).1 hdegraded
    refine ⟨before,trip,mid,hpre,htrip,hno,?_⟩
    obtain ⟨hcall,hwatching,hdue,-⟩ := tripped_of_trips htrip
    have hquiet := hcalm (run execWatch st before,trip) (mem_steps_iff.2 ⟨before,mid,hpre,rfl⟩)
    unfold WatchTx.Calm at hquiet
    rw [hcall] at hquiet
    rw [hpaused,hquiet hwatching hdue]

/-- In a run whose steps are calm, every trip is forewarned and every recovery restores the
service that the trip found. -/
theorem calm_lapses (st : Store) (hst : st.deadMan = {})
    (hcalm : ∀ x ∈ steps execWatch st ts, x.2.Calm x.1) :
    ∀ pre t post, ts = pre ++ t :: post →
      (Trips (run execWatch st pre) t → 0 < (run execWatch st pre).getDeadManConfig.warnAfter →
        Forewarned st pre t) ∧
      (Recovers (run execWatch st pre) t → Restores st pre t) := by
  rintro pre t post rfl
  rw [steps_append,List.forall_mem_append] at hcalm
  have hdegraded : st.isDegraded = false := by
    rw [Store.isDegraded,hst]
  constructor
  · intro htrip hwarns
    exact forewarned_of_calm (warnedSince_run hst hcalm.1) htrip hwarns
  · intro hrecovers
    exact restores_of_calm hdegraded hcalm.1 hrecovers

end Runs

instance (st : Store) : ∀ t : WatchTx, Decidable (t.Calm st)
  | ⟨_, .heartbeat _⟩ => inferInstanceAs (Decidable (_ → _))
  | ⟨_, .evaluate⟩ => inferInstanceAs (Decidable (_ → _ → _))
  | ⟨_, .configure _ _ _⟩ => inferInstanceAs (Decidable True)
  | ⟨_, .recover _⟩ => inferInstanceAs (Decidable True)
  | ⟨_, .pause⟩ => inferInstanceAs (Decidable True)
  | ⟨_, .unpause⟩ => inferInstanceAs (Decidable True)

def operated : Store := { config := { admin := some 1, minSources := some 1 } }

def sent (timestamp : Nat) (signers : List Address) (call : WatchCall) : WatchTx :=
  ⟨.concrete 5 timestamp signers, call⟩

/-- The switch warns after 50 seconds and trips after 100. -/
def armed : List WatchTx :=
  [sent 1000 [1] (.configure 100 50 [2]), sent 1000 [2] (.heartbeat 2)]

/-- Two lapses: the first trips and is recovered, the second is warned of in time. -/
def lapses : List WatchTx :=
  armed ++ [sent 1060 [] .evaluate, sent 1100 [] .evaluate, sent 1150 [1] (.recover 1),
    sent 1200 [2] (.heartbeat 2), sent 1260 [] .evaluate, sent 1300 [] .evaluate]

theorem lapses_forewarned :
    (steps execWatch operated lapses).map (fun x => x.2.events x.1) =
      [[], [], [.warning 60 100 1000], [.triggered 100 100 1000], [.recovered 1], [],
        [.warning 60 100 1200], [.triggered 100 100 1200]] ∧
    ∀ pre t post, lapses = pre ++ t :: post →
      (Trips (run execWatch operated pre) t →
        0 < (run execWatch operated pre).getDeadManConfig.warnAfter → Forewarned operated pre t) ∧
      (Recovers (run execWatch operated pre) t → Restores operated pre t) :=
  ⟨by decide,calm_lapses operated rfl (by decide)⟩

/-- A heartbeat leaves the latch set, so the lapse after it trips without a warning; and the
recovery from a trip on top of a pause lifts the pause. -/
theorem late_heartbeat_unwarned :
    (steps execWatch operated (armed ++ [sent 1060 [] .evaluate, sent 1070 [2] (.heartbeat 2),
      sent 1200 [] .evaluate])).map (fun x => x.2.events x.1) =
        [[], [], [.warning 60 100 1000], [], [.triggered 130 100 1070]] ∧
    (let paused := armed ++ [sent 1010 [1] .pause]
     let recovered := paused ++ [sent 1200 [] .evaluate, sent 1210 [1] (.recover 1)]
     (run execWatch operated paused).isPaused = true ∧
       (run execWatch operated recovered).isDegraded = false ∧
       (run execWatch operated recovered).isPaused = false) := by
  decide

end PriceOracle.DeadMan
