import PriceOracle.Blackout.Curfew
import PriceOracle.Model.Invocation

/-! # What a call does to a curfew

The calls that read or write the blackout records, and the effect of one of them, on any asset, on
the curfew of a given one. -/

namespace PriceOracle.Blackout

open Model Lib.Transaction Lib.MachineInt

inductive BlackoutCall
  | schedule (asset : Address) (start stop : Nat)
  | extend (asset : Address) (newStop : Nat)
  | cancel (asset : Address)
  | signal (source asset : Address)
  | setQuorum (quorum : Nat)
  | suppresses (asset : Address)

def BlackoutCall.body : BlackoutCall → Contract Unit
  | schedule asset start stop => scheduleBlackout asset start stop
  | extend asset newStop => extendBlackout asset newStop
  | cancel asset => cancelBlackout asset
  | signal source asset => do
    let _ ← signalVolatility source asset
    pure ()
  | setQuorum quorum => setVolatilityQuorum quorum
  | suppresses asset => do
    let _ ← Model.suppresses asset
    pure ()

/-- A call, or a change elsewhere: it does not touch the blackout records. -/
inductive BlackoutAct
  | call (call : BlackoutCall)
  | elsewhere (rest : Store)

structure BlackoutTx where
  env : Env
  act : BlackoutAct

def execBlackout (st : Store) (t : BlackoutTx) : Store :=
  match t.act with
  | .call call => invoke call.body t.env st
  | .elsewhere rest =>
    { rest with
      flags := Function.update rest.flags .blackout (st.flags .blackout)
      rounds := { rest.rounds with
        blackoutWindow := st.rounds.blackoutWindow
        blackoutLastEnd := st.rounds.blackoutLastEnd }
      volatility := st.volatility }

/-- The times of a transaction fit 64 bits. -/
def BlackoutTx.Typed (t : BlackoutTx) : Prop :=
  t.env.timestamp ≤ u64Max ∧
    match t.act with
    | .call (.schedule _ _ stop) => stop ≤ u64Max
    | .call (.extend _ newStop) => newStop ≤ u64Max
    | _ => True

def BlackoutTx.extends (t : BlackoutTx) (asset : Address) : Bool :=
  match t.act with
  | .call (.extend a _) => a = asset
  | _ => false

def curfewOf (st : Store) (asset : Address) : Curfew :=
  ⟨st.blackoutWindowOf asset, st.rounds.blackoutLastEnd asset, st.volatility.signals asset⟩

/-- No window of the asset waits for the feature to be switched on. -/
def Shown (asset : Address) (st : Store) : Prop :=
  st.on .blackout = false → st.rounds.blackoutWindow asset = none

/-- The step is a signal of the source on the asset that passes all its checks. -/
structure Signals (asset source : Address) (x : Store × BlackoutTx) : Prop where
  act : x.2.act = .call (.signal source asset)
  accepted : failure (signalVolatility source asset) x.2.env x.1 = none
  signed : x.2.env.authorized source = true
  registered : (x.1.registry.srcActive source).getD false = true
  settled : x.1.onProbation source = false

/-- What one step does to the curfew of one asset. -/
inductive CurfewEffect (asset : Address) (st : Store) (t : BlackoutTx) (c' : Curfew) : Prop
  | kept (hkept : c' = curfewOf st asset)
  | closed (b : BlackoutWindow) (hplain : t.extends asset = false)
    (hb : (curfewOf st asset).window = some b)
    (hclosed : c' = (curfewOf st asset).closeAt (min t.env.timestamp b.stop))
  | extended (b : BlackoutWindow) (newStop : Nat) (hact : t.act = .call (.extend asset newStop))
    (hb : (curfewOf st asset).window = some b) (hnow : t.env.timestamp < b.stop)
    (hlater : b.stop < newStop) (hmax : wrapSub64 newStop b.start ≤ maxBlackoutSecs)
    (hextended : c' = { curfewOf st asset with window := some { b with stop := newStop } })
  | scheduled (start stop : Nat) (hact : t.act = .call (.schedule asset start stop))
    (hsigned : AdminSigned t.env st) (hnotice : satAdd64 t.env.timestamp minNoticeSecs ≤ start)
    (horder : start < stop) (hmax : stop - start ≤ maxBlackoutSecs)
    (hopen : (curfewOf st asset).CanOpen t.env.timestamp start)
    (hscheduled : c' =
      { (curfewOf st asset).settled with window := some ⟨start, stop, originScheduled⟩ })
  | noted (source : Address) (hsignals : Signals asset source (st, t))
    (hnoted : c' = { curfewOf st asset with
      signals := some ((st.signalsAt asset t.env.timestamp).add source) })
  | raised (source : Address) (hsignals : Signals asset source (st, t))
    (hquorum : st.getVolatilityQuorum ≤
      ((st.signalsAt asset t.env.timestamp).add source).sources.length)
    (hopen : (curfewOf st asset).CanOpen t.env.timestamp t.env.timestamp)
    (hraised : c' = { (curfewOf st asset).settled with
      window := some ⟨t.env.timestamp, wrap64 (t.env.timestamp + volatilityBlackoutSecs),
        originVolatility⟩
      signals := none })

section Steps

variable {asset a : Address} {c : Curfew} {env : Env} {st : Store} {w : World}

/-- The call is under way, and the curfew of the asset is `c`. -/
structure Reached (asset : Address) (c : Curfew) (env : Env) (w : World) : Prop where
  env : w.env = env
  curfew : curfewOf w.store asset = c
  shown : Shown asset w.store

theorem Reached.window (h : Reached asset c env w) :
    w.store.blackoutWindowOf asset = c.window := by
  rw [← h.curfew]
  rfl

theorem curfewOf_congr (asset : Address) {st st' : Store} (hflags : st'.flags .blackout = st.flags .blackout)
    (hwindow : st'.rounds.blackoutWindow asset = st.rounds.blackoutWindow asset)
    (hend : st'.rounds.blackoutLastEnd asset = st.rounds.blackoutLastEnd asset)
    (hsignals : st'.volatility.signals asset = st.volatility.signals asset) :
    curfewOf st' asset = curfewOf st asset ∧ (Shown asset st → Shown asset st') := by
  unfold curfewOf Shown Store.blackoutWindowOf Store.on
  rw [hflags,hwindow,hend,hsignals]
  exact ⟨rfl,id⟩

/-- What changes neither the flags nor the blackout records. -/
theorem Reached.of_agree {T : List Region} {w' : World} (h : Reached asset c env w)
    (hagree : layout.agreeOff T w w') (hT : ∀ r ∈ T, r = .auths) : Reached asset c env w' := by
  have houtside {r : Region} (hr : r ≠ .auths) : r ∉ T := fun hmem => hr (hT r hmem)
  have henv : w'.env = w.env := hagree .env (houtside (by decide))
  have hflags : w'.store.flags = w.store.flags := hagree .flags (houtside (by decide))
  have hrounds : w'.store.rounds = w.store.rounds := hagree .rounds (houtside (by decide))
  have hvolatility : w'.store.volatility = w.store.volatility :=
    hagree .volatility (houtside (by decide))
  obtain ⟨hcurfew,hshown⟩ := curfewOf_congr asset (congrFun hflags .blackout)
    (congrArg (fun r => r.blackoutWindow asset) hrounds)
    (congrArg (fun r => r.blackoutLastEnd asset) hrounds)
    (congrArg (fun v => v.signals asset) hvolatility)
  exact ⟨henv.trans h.env,hcurfew.trans h.curfew,hshown h.shown⟩

theorem closeWindow_reached (h : Reached asset c env w) (stop : Nat) :
    Sat (closeWindow a stop) w fun _ w' =>
      Reached asset (if asset = a then c.closeAt stop else c) env w' := by
  obtain ⟨henv,rfl,hshown⟩ := h
  rw [closeWindow,modifyRounds,sat_update]
  by_cases ha : asset = a
  · subst ha
    rw [if_pos rfl]
    refine ⟨henv,?_,fun _ => Function.update_self ..⟩
    unfold curfewOf Store.blackoutWindowOf Curfew.closeAt Store.on
    simp only [Function.update_self,ite_self]
  · rw [if_neg ha]
    let closed : Store := { w.store with rounds := { w.store.rounds with
      blackoutWindow := Function.update w.store.rounds.blackoutWindow a none
      blackoutLastEnd := Function.update w.store.rounds.blackoutLastEnd a (some stop) } }
    obtain ⟨hcurfew,hkept⟩ : curfewOf closed asset = curfewOf w.store asset ∧
        (Shown asset w.store → Shown asset closed) :=
      curfewOf_congr asset rfl (Function.update_of_ne ha ..) (Function.update_of_ne ha ..) rfl
    exact ⟨henv,hcurfew,hkept hshown⟩

theorem storeWindow_reached (h : Reached asset c env w) (b : BlackoutWindow) :
    Sat (storeWindow a b) w fun _ w' =>
      Reached asset (if asset = a then { c with window := some b } else c) env w' := by
  obtain ⟨henv,rfl,hshown⟩ := h
  simp only [storeWindow,sat_bind,sat_mark,modifyRounds,sat_update]
  have hon : Function.update w.store.flags .blackout true .blackout = true :=
    Function.update_self ..
  refine ⟨henv,?_,fun hoff => absurd (hon.symm.trans hoff) (by decide)⟩
  change Curfew.mk (if Function.update w.store.flags .blackout true .blackout = true then
    Function.update w.store.rounds.blackoutWindow a (some b) asset else none) _ _ = _
  rw [if_pos hon]
  by_cases ha : asset = a
  · subst ha
    rw [if_pos rfl,Function.update_self]
    rfl
  · rw [if_neg ha,Function.update_of_ne ha]
    unfold curfewOf Store.blackoutWindowOf
    by_cases hflag : w.store.on .blackout = true
    · rw [if_pos hflag]
    · rw [if_neg hflag,hshown (by simpa using hflag)]

theorem writeSignals_reached (h : Reached asset c env w) (signals : Option VolatilitySignals) :
    Sat (modifyVolatility fun v => { v with signals := Function.update v.signals a signals }) w
      fun _ w' =>
        Reached asset (if asset = a then { c with signals := signals } else c) env w' := by
  obtain ⟨henv,rfl,hshown⟩ := h
  rw [modifyVolatility,sat_update]
  refine ⟨henv,?_,hshown⟩
  by_cases ha : asset = a
  · subst ha
    unfold curfewOf
    simp only [Function.update_self]
    rfl
  · rw [if_neg ha]
    unfold curfewOf
    simp only [Function.update_of_ne ha]
    rfl

theorem closeExpired_reached (h : Reached asset c env w) :
    Sat (closeExpired a) w fun _ w' =>
      Reached asset (if asset = a then c.settled else c) env w' ∧
        (asset = a → ∀ b ∈ c.window, b.stop ≤ env.timestamp) := by
  simp only [closeExpired,sat_bind,sat_getTimestamp,sat_readStore]
  by_cases ha : asset = a
  · subst ha
    rw [if_pos rfl,h.window]
    unfold Curfew.settled
    cases hb : c.window with
    | none => exact (sat_pure _).2 ⟨h,fun _ b hb => by cases hb⟩
    | some b =>
      simp only [sat_bind,sat_ensure]
      intro hover
      refine (closeWindow_reached h b.stop).mono fun _ u hu => ?_
      rw [if_pos rfl] at hu
      refine ⟨hu,?_⟩
      rintro - _ ⟨⟩
      exact h.env ▸ hover
  · rw [if_neg ha]
    cases w.store.blackoutWindowOf a with
    | none => exact (sat_pure _).2 ⟨h,fun h => absurd h ha⟩
    | some b =>
      simp only [sat_bind,sat_ensure]
      intro hover
      refine (closeWindow_reached h b.stop).mono fun _ u hu => ?_
      rw [if_neg ha] at hu
      exact ⟨hu,fun h => absurd h ha⟩

theorem checkCanOpen_reached (h : Reached asset c env w) (start : Nat) :
    Sat (checkCanOpen a start) w fun _ w' =>
      Reached asset (if asset = a then c.settled else c) env w' ∧
        (asset = a → c.CanOpen env.timestamp start) := by
  rw [checkCanOpen,sat_bind]
  refine (closeExpired_reached h).mono ?_
  rintro _ u ⟨hu,hover⟩
  simp only [sat_bind,sat_readStore,sat_ensure]
  refine fun hrested => ⟨hu,fun ha => ⟨hover ha,fun l hl => hrested l ?_⟩⟩
  rw [if_pos ha] at hu
  rw [← hu.curfew,ha] at hl
  exact hl

end Steps

section Effects

variable {asset : Address} {env : Env} {st : Store} {act : BlackoutAct}

/-- The step has one of the effects, and still shows every window there is. -/
def Stepped (asset : Address) (st : Store) (t : BlackoutTx) (st' : Store) : Prop :=
  CurfewEffect asset st t (curfewOf st' asset) ∧ Shown asset st'

theorem stepped_of_kept {w : World} (h : Reached asset (curfewOf st asset) env w) :
    Stepped asset st ⟨env,act⟩ w.store :=
  ⟨.kept h.curfew,h.shown⟩

theorem stepped_self (h : Shown asset st) : Stepped asset st ⟨env,act⟩ st := ⟨.kept rfl,h⟩

theorem openedWindow_sat (a : Address) (w : World) :
    Sat (openedWindow a) w fun b w' => w.store.blackoutWindowOf a = some b ∧ w' = w := by
  refine sat_lookup ?_
  cases w.store.blackoutWindowOf a <;> rfl

theorem scheduleBlackout_effect (hshown : Shown asset st) (a : Address) (start stop : Nat) :
    Sat (scheduleBlackout a start stop) (World.enter env st) fun _ w =>
      Stepped asset st ⟨env,.call (.schedule a start stop)⟩ w.store := by
  refine (sat_asAdmin_signed (Q := fun _ w => AdminSigned env st →
    Stepped asset st ⟨env,.call (.schedule a start stop)⟩ w.store) fun admin => ?_).mono
      fun _ _ h => h.2 h.1
  rw [sat_bind]
  refine (checkRegisteredAsset_sat a _).mono ?_
  rintro _ u ⟨_,hagree⟩
  have hentered : Reached asset (curfewOf st asset) env u :=
    Reached.of_agree (w := (World.enter env st).authorizedBy admin) ⟨rfl,rfl,hshown⟩ hagree
      (by simp)
  simp only [sat_bind,sat_getTimestamp,sat_ensure]
  rintro ⟨hnotice,horder,hmax⟩
  rw [hentered.env] at hnotice
  refine (checkCanOpen_reached hentered start).mono ?_
  rintro _ v ⟨hv,hopen⟩
  refine (storeWindow_reached hv _).mono fun _ x hx hsigned => ⟨?_,hx.shown⟩
  rw [hx.curfew]
  by_cases ha : asset = a
  · subst ha
    rw [if_pos rfl,if_pos rfl]
    exact .scheduled start stop rfl hsigned hnotice horder hmax (hopen rfl) rfl
  · rw [if_neg ha,if_neg ha]
    exact .kept rfl

theorem extendBlackout_effect (hshown : Shown asset st) (a : Address) (newStop : Nat) :
    Sat (extendBlackout a newStop) (World.enter env st) fun _ w =>
      Stepped asset st ⟨env,.call (.extend a newStop)⟩ w.store := by
  rw [extendBlackout,sat_asAdmin]
  intro admin _ _
  have hentered : Reached asset (curfewOf st asset) env ((World.enter env st).authorizedBy admin) :=
    ⟨rfl,rfl,hshown⟩
  rw [sat_bind]
  refine (openedWindow_sat a _).mono ?_
  rintro b _ ⟨hb,hu⟩
  subst hu
  simp only [sat_bind,sat_getTimestamp,sat_ensure]
  rintro ⟨hnow,hlater,hmax⟩
  refine (storeWindow_reached hentered _).mono fun _ x hx => ⟨?_,hx.shown⟩
  rw [hx.curfew]
  by_cases ha : asset = a
  · subst ha
    rw [if_pos rfl]
    exact .extended b newStop rfl hb hnow hlater hmax rfl
  · rw [if_neg ha]
    exact .kept rfl

theorem cancelBlackout_effect (hshown : Shown asset st) (a : Address) :
    Sat (cancelBlackout a) (World.enter env st) fun _ w =>
      Stepped asset st ⟨env,.call (.cancel a)⟩ w.store := by
  rw [cancelBlackout,sat_asAdmin]
  intro admin _ _
  have hentered : Reached asset (curfewOf st asset) env ((World.enter env st).authorizedBy admin) :=
    ⟨rfl,rfl,hshown⟩
  rw [sat_bind]
  refine (openedWindow_sat a _).mono ?_
  rintro b _ ⟨hb,hu⟩
  subst hu
  refine (closeWindow_reached hentered _).mono fun _ x hx => ⟨?_,hx.shown⟩
  rw [hx.curfew]
  by_cases ha : asset = a
  · subst ha
    rw [if_pos rfl]
    exact .closed b rfl hb rfl
  · rw [if_neg ha]
    exact .kept rfl

theorem suppresses_effect (hshown : Shown asset st) (a : Address) :
    Sat (suppresses a) (World.enter env st) fun _ w =>
      Stepped asset st ⟨env,.call (.suppresses a)⟩ w.store := by
  have hentered : Reached asset (curfewOf st asset) env (World.enter env st) := ⟨rfl,rfl,hshown⟩
  simp only [suppresses,sat_bind,sat_readStore,sat_getTimestamp]
  cases hb : (World.enter env st).store.blackoutWindowOf a with
  | none => exact (sat_pure _).2 (stepped_of_kept hentered)
  | some b =>
    refine sat_ite _ (fun _ => (sat_pure _).2 (stepped_of_kept hentered)) fun _ => ?_
    refine sat_ite _ (fun hover => ?_) fun _ => (sat_pure _).2 (stepped_of_kept hentered)
    rw [sat_bind]
    refine (closeWindow_reached hentered b.stop).mono fun _ x hx => (sat_pure _).2 ⟨?_,hx.shown⟩
    rw [hx.curfew]
    by_cases ha : asset = a
    · subst ha
      rw [if_pos rfl]
      refine .closed b rfl hb ?_
      rw [min_eq_right (show b.stop ≤ env.timestamp from hover)]
    · rw [if_neg ha]
      exact .kept rfl

theorem setVolatilityQuorum_effect (hshown : Shown asset st) (quorum : Nat) :
    Sat (setVolatilityQuorum quorum) (World.enter env st) fun _ w =>
      Stepped asset st ⟨env,.call (.setQuorum quorum)⟩ w.store := by
  rw [setVolatilityQuorum,sat_asAdmin]
  intro admin _ _
  simp only [sat_bind,sat_ensure,modifyVolatility,sat_update]
  exact fun _ => ⟨.kept rfl,hshown⟩

/-- The signal is noted, or it completes the quorum and opens a window. -/
def Heard (asset : Address) (st : Store) (env : Env) (source : Address) (c' : Curfew) : Prop :=
  let signals := (st.signalsAt asset env.timestamp).add source
  c' = { curfewOf st asset with signals := some signals } ∨
    st.getVolatilityQuorum ≤ signals.sources.length ∧
      (curfewOf st asset).CanOpen env.timestamp env.timestamp ∧
      c' = { (curfewOf st asset).settled with
        window := some ⟨env.timestamp, wrap64 (env.timestamp + volatilityBlackoutSecs),
          originVolatility⟩
        signals := none }

theorem settled_withSignals (c : Curfew) (signals : Option VolatilitySignals) :
    ({ c with signals := signals } : Curfew).settled = { c.settled with signals := signals } := by
  obtain ⟨window,lastEnd,previous⟩ := c
  cases window <;> rfl

theorem countSignal_reached {a source : Address} {w : World}
    (h : Reached asset (curfewOf st asset) env w) (hvolatility : w.store.volatility = st.volatility) :
    Sat (countSignal source a) w fun _ w' => Shown asset w'.store ∧
      (asset ≠ a → curfewOf w'.store asset = curfewOf st asset) ∧
      (asset = a → Heard asset st env source (curfewOf w'.store asset)) := by
  have hsignals : w.store.signalsAt a = st.signalsAt a := by
    unfold Store.signalsAt
    rw [hvolatility]
  have hquorum : w.store.getVolatilityQuorum = st.getVolatilityQuorum := by
    unfold Store.getVolatilityQuorum
    rw [hvolatility]
  simp only [countSignal,sat_bind,sat_getTimestamp,sat_readStore,hsignals,hquorum,h.env]
  refine sat_ite _ (fun hfew => ?_) fun hmany => ?_
  · rw [sat_bind]
    refine (writeSignals_reached h _).mono fun _ u hu => (sat_pure _).2 ⟨hu.shown,?_,?_⟩
    · intro ha
      rw [hu.curfew,if_neg ha]
    · intro ha
      rw [hu.curfew,if_pos ha,← ha]
      exact .inl rfl
  · rw [sat_bind]
    refine (writeSignals_reached h none).mono fun _ u hu => ?_
    rw [sat_bind]
    refine (checkCanOpen_reached hu env.timestamp).mono ?_
    rintro _ v ⟨hv,hopen⟩
    rw [sat_bind]
    refine (storeWindow_reached hv _).mono fun _ x hx => (sat_pure _).2 ⟨hx.shown,?_,?_⟩
    · intro ha
      rw [hx.curfew,if_neg ha,if_neg ha,if_neg ha]
    · intro ha
      rw [if_pos ha] at hopen
      have hopen := hopen ha
      rw [hx.curfew,if_pos ha,if_pos ha,if_pos ha,settled_withSignals]
      refine .inr ⟨?_,⟨hopen.ended,fun l hl => hopen.rested l ?_⟩,rfl⟩
      · rw [ha]
        exact not_lt.1 hmany
      · rwa [settled_withSignals]

theorem signalVolatility_sat (env : Env) (hshown : Shown asset st) (source a : Address) :
    Sat (signalVolatility source a) (World.enter env st) fun _ w =>
      (env.authorized source = true ∧ (st.registry.srcActive source).getD false = true ∧
        st.onProbation source = false) ∧ Shown asset w.store ∧
        (asset ≠ a → curfewOf w.store asset = curfewOf st asset) ∧
        (asset = a → Heard asset st env source (curfewOf w.store asset)) := by
  rw [signalVolatility,sat_bind,sat_requireAuth]
  intro hsigned
  simp only [checkSource,sat_bind,sat_readStore,sat_ensure]
  intro hactive _
  refine (checkRegisteredAsset_sat a _).mono ?_
  rintro _ u ⟨_,hagree⟩
  have hentered : Reached asset (curfewOf st asset) env u :=
    Reached.of_agree (w := (World.enter env st).authorizedBy source) ⟨rfl,rfl,hshown⟩ hagree
      (by simp)
  have hflags : u.store.flags = st.flags := hagree .flags (by simp)
  have hconfig : u.store.config = st.config := hagree .config (by simp)
  have hprobation : u.store.onProbation source = st.onProbation source := by
    unfold Store.onProbation Store.anyProbation Store.on
    rw [hflags,hconfig]
  intro hclean
  refine (countSignal_reached hentered (hagree .volatility (by simp))).mono fun _ w hw => ?_
  exact ⟨⟨hsigned,hactive,hprobation.symm.trans hclean⟩,hw⟩

theorem signal_effect (hshown : Shown asset st) (source a : Address) :
    Stepped asset st ⟨env,.call (.signal source a)⟩
      (invoke (BlackoutCall.signal source a).body env st) := by
  have hbody : invoke (BlackoutCall.signal source a).body env st =
      invoke (signalVolatility source a) env st := invoke_discard _
  rw [hbody]
  rcases invoke_cases (signalVolatility_sat env hshown source a) with
    ⟨_,hstore,-⟩ | ⟨hok,w,⟨⟨hsigned,hactive,hclean⟩,hw,hother,hheard⟩,hstore,-⟩
  · rw [hstore]
    exact stepped_self hshown
  · rw [← hstore]
    refine ⟨?_,hw⟩
    by_cases ha : asset = a
    · have hresult := hheard ha
      subst ha
      have hsignals : Signals asset source (st,⟨env,.call (.signal source asset)⟩) :=
        ⟨rfl,hok,hsigned,hactive,hclean⟩
      rcases hresult with hnoted | ⟨hquorum,hopen,hraised⟩
      · exact .noted source hsignals hnoted
      · exact .raised source hsignals hquorum hopen hraised
    · exact .kept (hother ha)

theorem execBlackout_effect (hshown : Shown asset st) (t : BlackoutTx) :
    Stepped asset st t (execBlackout st t) := by
  obtain ⟨env,act⟩ := t
  cases act with
  | elsewhere rest =>
    have hflag : Function.update rest.flags .blackout (st.flags .blackout) .blackout =
        st.flags .blackout := Function.update_self ..
    obtain ⟨hcurfew,hkept⟩ : curfewOf (execBlackout st ⟨env,.elsewhere rest⟩) asset =
        curfewOf st asset ∧ (Shown asset st → Shown asset (execBlackout st ⟨env,.elsewhere rest⟩)) :=
      curfewOf_congr asset hflag rfl rfl rfl
    exact ⟨.kept hcurfew,hkept hshown⟩
  | call call =>
    have hidle : Stepped asset st ⟨env,.call call⟩ st := stepped_self hshown
    cases call with
    | schedule a start stop =>
      exact invoke_of_sat hidle (scheduleBlackout_effect hshown a start stop)
    | extend a newStop => exact invoke_of_sat hidle (extendBlackout_effect hshown a newStop)
    | cancel a => exact invoke_of_sat hidle (cancelBlackout_effect hshown a)
    | signal source a => exact signal_effect hshown source a
    | setQuorum quorum => exact invoke_of_sat hidle (setVolatilityQuorum_effect hshown quorum)
    | suppresses a =>
      refine invoke_of_sat hidle ?_
      rw [BlackoutCall.body,sat_bind]
      exact (suppresses_effect hshown a).mono fun _ _ h => (sat_pure _).2 h

end Effects

end PriceOracle.Blackout
