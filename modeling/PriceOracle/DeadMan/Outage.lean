import PriceOracle.Aggregation.Idle
import PriceOracle.DeadMan.Lapses
import PriceOracle.Model.StorageTier
import PriceOracle.Model.Serving

/-! # The degraded state

A trip sets a state that one reader asks for, and the pause flag, which most submission paths ask
for and which other calls clear. Whatever else the degraded state withholds, it withholds because
the storage has nothing to offer. -/

namespace PriceOracle.Model.Store

variable (env : Env) (st : Store)

/-- The aggregate, if there is one, is the placeholder of a migration or too old. -/
def Unfit (asset : Address) (maxAge : Nat) : Prop :=
  ∀ a ∈ st.aggregate asset, a.price ≤ 0 ∨ a.stale maxAge env.timestamp = true ∨
    a.stale (st.getAssetResolution asset) env.timestamp = true

/-- A storage that came about elsewhere: the switch and the pause are as they were in `st`, and of
the submissions and aggregates some may be gone. -/
def besides (rest : Store) : Store :=
  { rest with
    deadMan := st.deadMan
    flags := fun f => st.flags f || rest.flags f
    gates := { rest.gates with pauseFlag := st.gates.pauseFlag }
    submission := fun k => (rest.submission k).bind fun _ => st.submission k
    aggregate := fun a => (rest.aggregate a).bind fun _ => st.aggregate a }

end PriceOracle.Model.Store

namespace PriceOracle.DeadMan

open Lib.Transaction Lib.Run Model Aggregation Submissions

inductive ReadCall
  | getPrice (asset : Address) (maxAge : Nat)
  | lastprice (asset : Asset)
  | price (asset : Asset) (timestamp : Nat)
  | prices (asset : Asset) (records : Nat)

/-- Whether the reader returns a value. -/
def ReadCall.body : ReadCall → Contract Bool
  | getPrice asset maxAge => do
    let value ← Model.getPrice asset maxAge
    pure value.isSome
  | lastprice asset => readStore fun e st => (st.lastprice e asset).isSome
  | price asset timestamp => readStore fun e st => (st.price e asset timestamp).isSome
  | prices asset records => do
    let values ← Model.prices asset records
    pure values.isSome

/-- The calls that store submissions, write aggregates, serve prices or write the pause flag. -/
inductive ServiceCall
  | price (call : PriceCall)
  | watch (call : WatchCall)
  | rollbackConfig (version : Nat)
  | emergencyPause (reason : String) (autoUnpauseLedgers : Nat)
  | cancelEmergencyPause
  | read (call : ReadCall)

/-- Whether the call returns a price. -/
def ServiceCall.body : ServiceCall → Contract Bool
  | price call => do call.body; pure false
  | watch call => do call.body; pure false
  | rollbackConfig version => do Model.rollbackConfig version; pure false
  | emergencyPause reason autoUnpauseLedgers => do
    Model.emergencyPause reason autoUnpauseLedgers
    pure false
  | cancelEmergencyPause => do Model.cancelEmergencyPause; pure false
  | read call => call.body

/-- A call, another change of storage, or a rotation of a key, whose loop over the submissions
follows such a change. -/
inductive ServiceAct
  | call (call : ServiceCall)
  | elsewhere (rest : Store)
  | rotate (rest : Store) (source newAddress : Address)

def besides (rest : Store) : Contract Unit :=
  update fun w => { w with store := w.store.besides rest }

def ServiceAct.body : ServiceAct → Contract Bool
  | call c => c.body
  | elsewhere rest => do besides rest; pure false
  | rotate rest source newAddress => do
    besides rest
    moveSubmissions source newAddress
    pure false

structure ServiceTx where
  env : Env
  act : ServiceAct

def execService (st : Store) (t : ServiceTx) : Store := invoke t.act.body t.env st

/-- Whether a step returns a price. -/
def ServiceTx.serves (st : Store) (t : ServiceTx) : Bool :=
  match t.act.body (World.enter t.env st) with
  | .ok value _ => value
  | .error _ _ => false

/-- The step stores no submission, writes no aggregate and returns no price. -/
structure Withheld (st : Store) (t : ServiceTx) : Prop where
  submissions : (effects t.act.body t.env st).submissions = []
  aggregates : (effects t.act.body t.env st).aggregates = []
  value : t.serves st = false

/-- There is nothing that the reader could return; `prices` asks for the degraded state instead. -/
def ReadCall.Barren (env : Env) (st : Store) : ReadCall → Prop
  | getPrice asset maxAge => st.isRegisteredAsset asset = true → st.isAssetDisabled asset = false →
    st.getFrozenPrice asset = none ∧ (∀ o ∈ st.overrides asset, o.expiryLedger < env.sequence) ∧
      (st.isCircuitBreakerTripped asset = true → st.aggregate asset = none) ∧
      st.Unfit env asset maxAge
  | lastprice asset => ∀ a ∈ st.registeredToken asset, st.Unfit env a 0
  | price asset timestamp => ∀ a ∈ st.registeredToken asset,
    (∀ agg ∈ st.aggregate a, agg.timestamp ≠ timestamp) ∧ ∀ back ≤ min env.sequence 1000,
      ∀ e ∈ st.history.readHistoryEntry a (env.sequence - back), timestamp < e.timestamp
  | prices _ _ => True

/-- What keeps a call from publishing a price, or from ending the pause. -/
def ServiceCall.Sealed (env : Env) (st : Store) : ServiceCall → Prop
  | price call => call.Idle env st
  | watch .unpause => st.adminSigns env = false
  | rollbackConfig version => st.adminSigns env = true →
    ∀ snapshot ∈ st.config.snapshot version, snapshot.paused = true
  | cancelEmergencyPause => st.adminSigns env = true → st.emergency = none
  | read call => call.Barren env st
  | _ => True

def ServiceTx.Sealed (st : Store) (t : ServiceTx) : Prop :=
  match t.act with
  | .call c => c.Sealed t.env st
  | .elsewhere _ => True
  | .rotate rest source _ =>
    ∀ asset ∈ rest.registry.assets, (st.besides rest).submission (asset, source) = none

section Reading

variable {env : Env} {st : Store} {w : World} {asset : Address} {maxAge : Nat} {timestamp : Nat}
  {token : Asset}

theorem freshAggregate_unfit (h : st.Unfit env asset maxAge) :
    st.freshAggregate env asset maxAge = none := by
  unfold Store.freshAggregate
  rw [Option.filter_eq_none_iff]
  intro a ha hfit
  simp only [Bool.and_eq_true,Bool.not_eq_true',decide_eq_true_eq] at hfit
  rcases h a ha with hprice | hold | hold
  · omega
  · rw [hfit.1.2] at hold
    cases hold
  · rw [hfit.2] at hold
    cases hold

theorem fallbackPrice_none (h : st.aggregate asset = none) : st.fallbackPrice env asset = none := by
  simp [Store.fallbackPrice,Store.computeTwapFallback,Store.computeTwapWindow,
    Store.computeTwapStats,h]

theorem livePrice_none
    (htripped : st.isCircuitBreakerTripped asset = true → st.aggregate asset = none)
    (hunfit : st.Unfit env asset maxAge) : st.livePrice env asset maxAge = none := by
  unfold Store.livePrice
  split_ifs with h
  · exact fallbackPrice_none (htripped h)
  · exact freshAggregate_unfit hunfit

theorem lookBack_none {h : History} (n ledger : Nat)
    (hlate : ∀ back ≤ n, ∀ e ∈ h.readHistoryEntry asset (ledger - back), timestamp < e.timestamp) :
    h.lookBack asset timestamp n ledger = none := by
  have hfirst : (h.readHistoryEntry asset ledger).filter
      (fun e => decide (e.timestamp ≤ timestamp)) = none := by
    rw [Option.filter_eq_none_iff]
    intro e he hearly
    have hafter := hlate 0 (Nat.zero_le n) e he
    rw [decide_eq_true_eq] at hearly
    omega
  induction n generalizing ledger with
  | zero => rw [History.lookBack,hfirst,Option.map_none]
  | succ n ih =>
    have hrest (back : Nat) (hback : back ≤ n) :
        ∀ e ∈ h.readHistoryEntry asset (ledger - 1 - back), timestamp < e.timestamp := by
      rw [Nat.sub_sub,Nat.add_comm]
      exact hlate (back+1) (by omega)
    rw [History.lookBack,hfirst]
    refine ih (ledger - 1) hrest ?_
    rw [Option.filter_eq_none_iff]
    intro e he hearly
    have hafter := hrest 0 (Nat.zero_le n) e he
    rw [decide_eq_true_eq] at hearly
    omega

theorem activeOverride_expired (h : ∀ o ∈ w.store.overrides asset, o.expiryLedger < w.env.sequence) :
    Sat (activeOverride asset) w fun o u => o = none ∧ layout.agreeOff [.overrides] w u := by
  unfold activeOverride
  simp only [sat_bind,sat_getSequence,sat_readStore]
  cases hstored : w.store.overrides asset with
  | none => exact (sat_pure _).2 ⟨rfl,Std.Refl.refl w⟩
  | some o =>
    have hexpired : ¬w.env.sequence ≤ o.expiryLedger := Nat.not_le.2 (h o hstored)
    dsimp only
    rw [if_neg hexpired]
    exact (modifyOverrides_frame _ w).andThen fun _ u hu => (sat_pure _).2 ⟨rfl,hu⟩

theorem livePrice_agree {t : World} (h : layout.agreeOff [.overrides] w t)
    (htripped : w.store.isCircuitBreakerTripped asset = true → w.store.aggregate asset = none)
    (hunfit : w.store.Unfit w.env asset maxAge) : t.store.livePrice t.env asset maxAge = none := by
  have henv : t.env = w.env := h .env (by simp)
  have hgates : t.store.gates = w.store.gates := h .gates (by simp)
  have hconfig : t.store.config = w.store.config := h .config (by simp)
  have haggregate : t.store.aggregate = w.store.aggregate :=
    congrArg Prod.fst (h .aggregates (by simp))
  apply livePrice_none
  · rw [Store.isCircuitBreakerTripped,hgates,haggregate]
    exact htripped
  · unfold Store.Unfit Store.getAssetResolution Store.getResolution at hunfit ⊢
    rw [henv,hconfig,haggregate]
    exact hunfit

theorem getPrice_barren (h : (ReadCall.getPrice asset maxAge).Barren w.env w.store) :
    Sat (Model.getPrice asset maxAge) w fun value u =>
      value = none ∧ layout.agreeOff [.overrides] w u := by
  refine (checkRegisteredAsset_sat asset w).andThen fun _ t ht => ?_
  obtain ⟨hregistered,ht⟩ := ht
  have hflags : t.store.flags = w.store.flags := ht .flags (by simp)
  have hgates : t.store.gates = w.store.gates := ht .gates (by simp)
  have henv : t.env = w.env := ht .env (by simp)
  have hoverrides : t.store.overrides = w.store.overrides := ht .overrides (by simp)
  have hdisabled : t.store.isAssetDisabled asset = w.store.isAssetDisabled asset := by
    rw [Store.isAssetDisabled,Store.isAssetDisabled,Store.on,Store.on,hflags,hgates]
  simp only [checkNotDisabled,sat_bind,sat_readStore,sat_ensure]
  rw [hdisabled]
  intro henabled
  obtain ⟨hfrozen,hexpired,htripped,hunfit⟩ := h hregistered henabled
  refine (effectivePolicy_sat asset t).mono fun _ u hu => ?_
  obtain ⟨-,rfl⟩ := hu
  have hnone : u.store.getFrozenPrice asset = none := by
    rw [← hfrozen,Store.getFrozenPrice,Store.getFrozenPrice,Store.on,Store.on,hflags,hgates]
  rw [hnone]
  rw [← hoverrides,← henv] at hexpired
  refine (activeOverride_expired hexpired).andThen fun o v hv => ?_
  obtain ⟨rfl,hv⟩ := hv
  have hwv : layout.agreeOff [.overrides] w v :=
    IsTrans.trans w u v (fun r _ => ht r (by simp)) hv
  exact (sat_readStore _ _).2 ⟨livePrice_agree hwv htripped hunfit,hwv⟩

theorem lastprice_barren (h : (ReadCall.lastprice token).Barren env st) :
    st.lastprice env token = none := by
  unfold Store.lastprice
  cases htoken : st.registeredToken token with
  | none => rfl
  | some a => rw [Option.bind_some,freshAggregate_unfit (h a htoken),Option.map_none]

theorem price_barren (h : (ReadCall.price token timestamp).Barren env st) :
    st.price env token timestamp = none := by
  unfold Store.price
  cases htoken : st.registeredToken token with
  | none => rfl
  | some a =>
    obtain ⟨hother,hlate⟩ := h a htoken
    have hnone : (st.aggregate a).filter (fun agg => decide (agg.timestamp = timestamp)) = none := by
      rw [Option.filter_eq_none_iff]
      intro agg hagg hsame
      exact hother agg hagg (of_decide_eq_true hsame)
    rw [Option.bind_some,hnone]
    exact lookBack_none _ _ hlate

theorem ReadCall.body_barren {call : ReadCall} (hdegraded : w.store.isDegraded = true)
    (h : call.Barren w.env w.store) : Sat call.body w fun value u =>
      value = false ∧ layout.agreeOff [.overrides] w u := by
  cases call with
  | getPrice asset maxAge =>
    refine (getPrice_barren h).andThen fun value u hu => (sat_pure _).2 ⟨?_,hu.2⟩
    rw [hu.1,Option.isSome_none]
  | lastprice token =>
    rw [ReadCall.body,sat_readStore,lastprice_barren h]
    exact ⟨rfl,Std.Refl.refl w⟩
  | price token timestamp =>
    rw [ReadCall.body,sat_readStore,price_barren h]
    exact ⟨rfl,Std.Refl.refl w⟩
  | prices token records =>
    simp only [ReadCall.body,Model.prices,sat_bind,sat_readStore]
    rw [if_pos hdegraded]
    exact (sat_pure _).2 ((sat_pure _).2 ⟨rfl,Std.Refl.refl w⟩)

end Reading

/-- What the calls write that concern the switch, the pause and the settings. -/
def switchboard : List Region :=
  [.auths, .config, .suspension, .flags, .gates, .deadMan, .emergency, .overrides]

theorem deadManConfigure_frame (triggerAfter warnAfter : Nat) (operators : List Address) :
    Frame [.auths,.deadMan] (deadManConfigure triggerAfter warnAfter operators) :=
  asAdmin_frame (.check fun _ => .check fun _ =>
    modifyDeadMan_frame _)

theorem deadManHeartbeat_frame (operator : Address) :
    Frame [.auths,.deadMan] (deadManHeartbeat operator) :=
  .read fun _ => .check fun _ => ((requireAuth_frame operator).mono (by simp)).bind fun _ =>
    .check fun _ =>
    .read fun _ => (modifyDeadMan_frame _).mono (by simp)

theorem warnIfOverdue_frame (elapsed last : Nat) :
    Frame [.deadMan] (warnIfOverdue elapsed last) := by
  refine .read fun _ => .read fun _ => ?_
  split_ifs
  · exact (modifyDeadMan_frame _).bind fun _ => announce_frame _
  · exact preserves_pure _

theorem enterDegraded_frame (elapsed last : Nat) :
    Frame [.flags,.suspension,.gates,.deadMan] (enterDegraded elapsed last) :=
  .read fun _ => ((modifyDeadMan_frame _).mono (by simp)).bind fun _ =>
    ((mark_frame _).mono (by simp)).bind fun _ => ((modifyGates_frame _).mono (by simp)).bind
    fun _ => .read fun _ => (announce_frame _).mono (by simp)

theorem deadManEvaluate_frame : Frame [.flags,.suspension,.gates,.deadMan] deadManEvaluate := by
  have harmed : Frame [.flags,.suspension,.gates,.deadMan] evaluateArmed := by
    refine .read fun _ => .read fun elapsed => .read fun last =>
      ((warnIfOverdue_frame elapsed last).mono (by simp)).bind fun _ => ?_
    split_ifs
    · exact (enterDegraded_frame elapsed last).bind fun _ => preserves_pure _
    · exact preserves_pure _
  refine .read fun _ => .read fun _ => ?_
  split_ifs
  · exact preserves_pure _
  · exact preserves_pure _
  · exact harmed

theorem deadManRecover_frame (guardian : Address) :
    Frame [.auths,.gates,.deadMan] (deadManRecover guardian) :=
  ((requireAuth_frame guardian).mono (by simp)).bind fun _ => .read fun _ => .check fun _ =>
    getAdmin_frame.bind fun _ => .read
    fun _ => .check fun _ => ((modifyDeadMan_frame _).mono (by simp)).bind
    fun _ => ((modifyGates_frame _).mono (by simp)).bind fun _ => (announce_frame _).mono (by simp)

theorem WatchCall.body_frame (call : WatchCall) : Frame switchboard call.body := by
  cases call with
  | configure triggerAfter warnAfter operators =>
    exact (deadManConfigure_frame triggerAfter warnAfter operators).mono (by decide)
  | heartbeat operator => exact (deadManHeartbeat_frame operator).mono (by decide)
  | evaluate =>
    exact (deadManEvaluate_frame.mono (by decide)).bind fun _ => preserves_pure _
  | recover guardian => exact (deadManRecover_frame guardian).mono (by decide)
  | pause => exact pause_frame.mono (by decide)
  | unpause => exact unpause_frame.mono (by decide)

theorem rollbackConfig_frame (version : Nat) :
    Frame [.auths,.config,.suspension,.flags,.gates] (Model.rollbackConfig version) :=
  asAdmin_frame (.lookup fun _ => (snapshotBeforeChange_frame.mono (by simp)).bind fun _ =>
    ((modifyConfig_frame _).mono (by simp)).bind fun _ =>
    ((forM_mark_frame _).mono (by simp)).bind fun _ => (modifyGates_frame _).mono (by simp))

theorem emergencyPause_frame (reason : String) (autoUnpauseLedgers : Nat) :
    Frame [.auths,.flags,.suspension,.gates,.emergency]
      (Model.emergencyPause reason autoUnpauseLedgers) :=
  asAdmin_frame (getAdmin_frame.bind fun _ => .check fun _ => .read fun _ =>
    ((mark_frame _).mono (by simp)).bind fun _ =>
    ((modifyGates_frame _).mono (by simp)).bind fun _ => (setEmergency_frame _).mono (by simp))

theorem cancelEmergencyPause_frame :
    Frame [.auths,.gates,.emergency] Model.cancelEmergencyPause :=
  asAdmin_frame (.lookup fun _ => ((setEmergency_frame _).mono (by simp)).bind
    fun _ => (modifyGates_frame _).mono (by simp))

theorem getPrice_frame (asset : Address) (maxAge : Nat) :
    Frame [.overrides] (Model.getPrice asset maxAge) := by
  have hoverride : Frame [.overrides] (activeOverride asset) := by
    refine .read fun _ => .read fun stored => ?_
    cases stored with
    | none => exact preserves_pure _
    | some o =>
      dsimp only
      split_ifs
      · exact preserves_pure _
      · exact (modifyOverrides_frame _).bind fun _ => preserves_pure _
  refine (checkRegisteredAsset_frame asset).bind fun _ => Preserves.bind ?_ fun _ =>
    (effectivePolicy_frame asset).bind fun _ => .read fun frozen => ?_
  · exact .read fun _ => preserves_ensure _ _
  · cases frozen with
    | some f => exact preserves_pure _
    | none =>
      refine hoverride.bind fun o => ?_
      cases o with
      | some o => exact readStore_frame _
      | none => exact readStore_frame _

theorem ReadCall.body_frame (call : ReadCall) : Frame [.overrides] call.body := by
  cases call with
  | getPrice asset maxAge => exact (getPrice_frame asset maxAge).bind fun _ => preserves_pure _
  | lastprice token => exact readStore_frame fun e st => (st.lastprice e token).isSome
  | price token timestamp => exact readStore_frame fun e st => (st.price e token timestamp).isSome
  | prices token records =>
    refine Preserves.bind ?_ fun _ => preserves_pure _
    refine .read fun _ => .read fun registered => ?_
    cases registered with
    | none =>
      split_ifs
      · exact preserves_pure _
      · exact preserves_pure _
      · exact preserves_pure _
    | some a =>
      split_ifs
      · exact preserves_pure _
      · exact preserves_pure _
      · exact .read fun _ => .check fun _ =>
          readStore_frame _

section Idle

variable {w : World}

theorem moveSubmissions_idle {source : Address}
    (hidle : ∀ asset ∈ w.store.registry.assets, w.store.submission (asset,source) = none)
    (newAddress : Address) : Sat (moveSubmissions source newAddress) w fun _ u => u = w := by
  refine sat_forM (I := fun t => t = w) (fun asset hasset t ht => ?_) rfl
  subst ht
  unfold moveSubmission
  rw [sat_bind,sat_readStore,hidle asset hasset]
  exact (sat_pure _).2 rfl

theorem ServiceCall.body_silent {call : ServiceCall} (hdegraded : w.store.isDegraded = true)
    (hpaused : w.store.isPaused = true) (hsealed : call.Sealed w.env w.store) :
    Sat call.body w fun value u => value = false ∧ Silent w u := by
  have hboard {m : Contract Unit} (hm : Frame switchboard m) :
      Sat (do m; pure false) w fun value u => value = false ∧ Silent w u :=
    (silent_of_frame hm (by decide) (by decide)).andThen fun _ _ hu => (sat_pure _).2 ⟨rfl,hu⟩
  cases call with
  | price c =>
    exact (PriceCall.idle_sat hpaused hsealed).andThen fun _ u hu => (sat_pure _).2 ⟨rfl,hu⟩
  | watch c => exact hboard c.body_frame
  | rollbackConfig version => exact hboard ((rollbackConfig_frame version).mono (by decide))
  | emergencyPause reason autoUnpauseLedgers =>
    exact hboard ((emergencyPause_frame reason autoUnpauseLedgers).mono (by decide))
  | cancelEmergencyPause => exact hboard (cancelEmergencyPause_frame.mono (by decide))
  | read c =>
    exact (ReadCall.body_barren hdegraded hsealed).mono fun _ u hu =>
      ⟨hu.1,silent_of_agreeOff hu.2 (by decide) (by decide)⟩

end Idle

/-- While the switch is tripped, the contract is paused. -/
def Guarded (st : Store) : Prop := st.isDegraded = true → st.isPaused = true

/-- The switch is as it was, and a pause still stands. -/
structure KeepsPause (w w' : World) : Prop where
  deadMan : w'.store.deadMan = w.store.deadMan
  paused : w.store.isPaused = true → w'.store.isPaused = true

instance : Std.Refl KeepsPause := ⟨fun _ => ⟨rfl, fun h => h⟩⟩

instance : IsTrans World KeepsPause :=
  ⟨fun _ _ _ h h' => ⟨h'.deadMan.trans h.deadMan, fun hw => h'.paused (h.paused hw)⟩⟩

section Pause

variable {α : Type} {w w' : World}

theorem KeepsPause.guarded (h : KeepsPause w w') (hw : Guarded w.store) : Guarded w'.store := by
  intro hdegraded
  rw [Store.isDegraded,h.deadMan] at hdegraded
  exact h.paused (hw hdegraded)

theorem keepsPause_of_agreeOff {T : List Region} (h : layout.agreeOff T w w')
    (hdeadMan : .deadMan ∉ T) (hflags : .flags ∉ T) (hgates : .gates ∉ T) : KeepsPause w w' := by
  refine ⟨congrArg Prod.fst (h .deadMan hdeadMan),fun hpaused => ?_⟩
  have hflags : w'.store.flags = w.store.flags := h .flags hflags
  have hgates : w'.store.gates = w.store.gates := h .gates hgates
  rw [← hpaused,Store.isPaused,Store.isPaused,Store.on,Store.on,hflags,hgates]

theorem keepsPause_frame {T : List Region} {m : Contract α} (hm : Frame T m)
    (hdeadMan : .deadMan ∉ T) (hflags : .flags ∉ T) (hgates : .gates ∉ T) :
    Preserves KeepsPause m :=
  hm.weaken fun _ _ h => keepsPause_of_agreeOff h hdeadMan hflags hgates

theorem mark_keepsPause (f : FeatureFlag) : Preserves KeepsPause (mark f) := by
  intro w
  rw [sat_mark]
  refine ⟨rfl,fun hpaused => ?_⟩
  rw [Store.isPaused,Bool.and_eq_true] at hpaused ⊢
  refine ⟨?_,hpaused.2⟩
  change Function.update w.store.flags f true .pause = true
  rw [Function.update_apply]
  split_ifs
  · rfl
  · exact hpaused.1

theorem keepsPause_tolerates : Tolerates KeepsPause fun _ _ _ => True where
  ignored _ _ h := keepsPause_of_agreeOff h (by decide) (by decide) (by decide)
  write _ _ _ _ _ h := keepsPause_of_agreeOff h.rest (by decide) (by decide) (by decide)
  setBounds asset arg :=
    .lookup fun admin =>
      (keepsPause_frame (requireAuth_frame admin) (by decide) (by decide) (by decide)).bind fun _ =>
      (keepsPause_frame (T := []) (checkRegisteredAsset_frame asset) (by decide) (by decide)
        (by decide)).bind fun _ => .lookup fun _ =>
      (keepsPause_frame (modifyBounds_frame _) (by decide) (by decide) (by decide)).bind fun _ =>
      .read fun _ => (mark_keepsPause _).bind fun _ =>
      keepsPause_frame (modifyBounds_frame _) (by decide) (by decide) (by decide)
  clearBounds asset :=
    keepsPause_frame (clearBounds_frame asset) (by decide) (by decide) (by decide)

theorem always_justifies :
    Justifies (fun _ _ _ => True) (fun _ _ _ => True) fun _ _ _ => True where
  round _ _ _ _ _ _ := trivial
  trigger _ _ _ _ := trivial
  snapshot _ _ _ _ _ := trivial
  correction _ _ _ _ _ _ _ := trivial
  migration _ _ _ _ := trivial

theorem priceCall_keepsPause (call : PriceCall) : Preserves KeepsPause call.body := by
  refine fun w => call.body_sat keepsPause_tolerates always_justifies ?_
  cases call <;> simp [Settles]

end Pause

section Guards

variable {w : World} {env : Env} {st : Store}

theorem guarded_of_same {st' : Store} (hguarded : Guarded st)
    (hswitch : st'.deadMan.degraded = st.deadMan.degraded) (hflags : st'.flags = st.flags)
    (hgates : st'.gates = st.gates) : Guarded st' := by
  intro hdegraded
  rw [Store.isDegraded,hswitch] at hdegraded
  rw [Store.isPaused,Store.on,hflags,hgates]
  exact hguarded hdegraded

theorem deadManEvaluate_guards (hguarded : Guarded w.store) :
    Sat deadManEvaluate w fun _ u => Guarded u.store := by
  refine deadManEvaluate_sat (P := fun u => Guarded u.store) (fun _ => hguarded) fun hwatching => ?_
  have hoperating : w.store.deadMan.degraded = false := by
    rw [watching,Bool.and_eq_true,Bool.not_eq_true'] at hwatching
    exact hwatching.2
  simp only [evaluateArmed,sat_bind,sat_readStore]
  refine warnIfOverdue_sat.mono fun _ u hu => sat_ite _ (fun _ => ?_) fun _ => (sat_pure _).2 ?_
  · simp only [enterDegraded,sat_bind,sat_getTimestamp,modifyDeadMan,sat_update,sat_mark,
      modifyGates,sat_readStore,sat_announce,sat_pure]
    intro _
    simp [Store.isPaused,Store.on]
  · intro hdegraded
    rw [Store.isDegraded,hu.1,hoperating] at hdegraded
    cases hdegraded

theorem pause_sat : Sat Model.pause w fun _ u => u.store.isPaused = true := by
  refine (sat_asAdmin _).2 fun admin _ _ => ?_
  simp only [sat_bind,Configuration.sat_snapshotBeforeChange,sat_mark,modifyGates,sat_update]
  simp [Store.isPaused,Store.on]

theorem emergencyPause_sat (reason : String) (autoUnpauseLedgers : Nat) :
    Sat (Model.emergencyPause reason autoUnpauseLedgers) w fun _ u => u.store.isPaused = true := by
  refine (sat_asAdmin _).2 fun admin _ _ => ?_
  simp only [getAdmin,sat_bind,sat_consult,sat_ensure,sat_getSequence,sat_mark,modifyGates,
    setEmergency,sat_update]
  simp [Store.isPaused,Store.on]

/-- A call that only the administrator can make leaves the switch guarded if it cannot be made from
the degraded state. -/
theorem guarded_of_refused {T : List Region} {body : Contract Unit} (hframe : Frame T (asAdmin body))
    (hT : .deadMan ∉ T) (hrefused : w.store.isDegraded = true →
      w.store.adminSigns w.env = true → ∀ admin, Sat body (w.authorizedBy admin) fun _ _ => False) :
    Sat (asAdmin body) w fun _ u => Guarded u.store := by
  by_cases hdegraded : w.store.isDegraded = true
  · exact sat_asAdmin_of_signed fun hsigned admin =>
      (hrefused hdegraded hsigned admin).mono fun _ _ h => h.elim
  · refine (hframe w).mono fun _ u hu hafter => ?_
    have hswitch : u.store.deadMan = w.store.deadMan := congrArg Prod.fst (hu .deadMan hT)
    rw [Store.isDegraded,hswitch] at hafter
    exact (hdegraded hafter).elim

theorem WatchCall.body_guards {call : WatchCall} (hguarded : Guarded w.store)
    (hsealed : w.store.isDegraded = true → (ServiceCall.watch call).Sealed w.env w.store) :
    Sat call.body w fun _ u => Guarded u.store := by
  cases call with
  | configure triggerAfter warnAfter operators =>
    refine ((deadManConfigure_sat triggerAfter warnAfter operators).and
      (deadManConfigure_frame triggerAfter warnAfter operators w)).mono fun _ u hu => ?_
    refine guarded_of_same hguarded ?_ (hu.2 .flags (by simp)) (hu.2 .gates (by simp))
    rw [hu.1.2.2]
  | heartbeat operator =>
    refine ((deadManHeartbeat_sat operator).and (deadManHeartbeat_frame operator w)).mono
      fun _ u hu => ?_
    refine guarded_of_same hguarded ?_ (hu.2 .flags (by simp)) (hu.2 .gates (by simp))
    rw [hu.1.2.2]
  | evaluate => exact (deadManEvaluate_guards hguarded).andThen fun _ _ hu => (sat_pure _).2 hu
  | recover guardian =>
    refine (deadManRecover_sat guardian).mono fun _ u hu hdegraded => ?_
    rw [Store.isDegraded,hu.2.2.1] at hdegraded
    cases hdegraded
  | pause => exact pause_sat.mono fun _ _ hpaused _ => hpaused
  | unpause =>
    refine guarded_of_refused unpause_frame (by decide) fun hdegraded hsigned _ => ?_
    have hunsigned : w.store.adminSigns w.env = false := hsealed hdegraded
    rw [hunsigned] at hsigned
    cases hsigned

theorem rollbackConfig_guards {version : Nat}
    (hsealed : w.store.isDegraded = true → (ServiceCall.rollbackConfig version).Sealed w.env w.store) :
    Sat (Model.rollbackConfig version) w fun _ u => Guarded u.store := by
  have hsigned : Sat (Model.rollbackConfig version) w fun _ _ =>
      w.store.adminSigns w.env = true :=
    sat_asAdmin_of_signed fun h _ => sat_of_const h
  refine (((Configuration.rollbackConfig_sat version).and (rollbackConfig_frame version w)).and
    hsigned).mono fun _ u hu hafter => ?_
  obtain ⟨⟨⟨snapshot,hstored,-,hsame⟩,hframe⟩,hadmin⟩ := hu
  have hswitch : u.store.deadMan = w.store.deadMan := congrArg Prod.fst (hframe .deadMan (by simp))
  rw [Store.isDegraded,hswitch] at hafter
  have hpaused := hsealed hafter hadmin snapshot hstored
  rw [Store.isPaused,Store.on,hsame.flags,hsame.gates]
  change (Configuration.markAll w.store.flags snapshotFlags .pause && snapshot.paused) = true
  rw [Configuration.markAll_apply,hpaused]
  simp [snapshotFlags]

theorem cancelEmergencyPause_guards
    (hsealed : w.store.isDegraded = true → ServiceCall.cancelEmergencyPause.Sealed w.env w.store) :
    Sat Model.cancelEmergencyPause w fun _ u => Guarded u.store := by
  refine guarded_of_refused cancelEmergencyPause_frame (by decide) fun hdegraded hsigned _ => ?_
  have hnone : w.store.emergency = none := hsealed hdegraded hsigned
  rw [sat_bind,getEmergencyPause,sat_consult,authorizedBy_store,hnone]
  rintro _ ⟨⟩

theorem ServiceCall.body_guards {call : ServiceCall} (hguarded : Guarded w.store)
    (hsealed : w.store.isDegraded = true → call.Sealed w.env w.store) :
    Sat call.body w fun _ u => Guarded u.store := by
  have hkeeps {α : Type} {m : Contract α} (hm : Preserves KeepsPause m) :
      Sat m w fun _ u => Guarded u.store := (hm w).mono fun _ _ h => h.guarded hguarded
  have hreturn {m : Contract Unit} (hm : Sat m w fun _ u => Guarded u.store) :
      Sat (do m; pure false) w fun _ u => Guarded u.store :=
    hm.andThen fun _ _ hu => (sat_pure _).2 hu
  cases call with
  | price c => exact hreturn (hkeeps (priceCall_keepsPause c))
  | watch c => exact hreturn (c.body_guards hguarded hsealed)
  | rollbackConfig version => exact hreturn (rollbackConfig_guards hsealed)
  | emergencyPause reason autoUnpauseLedgers =>
    exact hreturn ((emergencyPause_sat reason autoUnpauseLedgers).mono fun _ _ hpaused _ => hpaused)
  | cancelEmergencyPause => exact hreturn (cancelEmergencyPause_guards hsealed)
  | read c =>
    exact hkeeps (keepsPause_frame c.body_frame (by decide) (by decide) (by decide))

theorem besides_keepsPause (rest : Store) : Preserves KeepsPause (besides rest) := by
  refine preserves_update fun w => ⟨rfl,fun hpaused => ?_⟩
  rw [Store.isPaused,Bool.and_eq_true] at hpaused ⊢
  refine ⟨?_,hpaused.2⟩
  change (w.store.flags .pause || rest.flags .pause) = true
  rw [Bool.or_eq_true]
  exact .inl hpaused.1

end Guards

section Runs

variable {st : Store} {t : ServiceTx} {ts : List ServiceTx}

theorem withheld_of_sat (h : Sat t.act.body (World.enter t.env st) fun value u =>
    value = false ∧ Silent (World.enter t.env st) u) : Withheld st t := by
  have hserves : t.serves st = false := by
    unfold ServiceTx.serves
    cases hrun : t.act.body (World.enter t.env st) with
    | ok value u => exact (h value u hrun).1
    | error e u => rfl
  rcases invoke_cases (h.mono fun _ _ hu => hu.2) with ⟨-,-,hlog⟩ | ⟨-,u,hu,-,hlog⟩
  · exact ⟨by rw [hlog],by rw [hlog],hserves⟩
  · refine ⟨?_,?_,hserves⟩
    · rw [← hlog,hu.submissions]
      rfl
    · rw [← hlog,hu.aggregates]
      rfl

/-- A sealed step from the degraded state publishes nothing, and the pause stands after it. -/
theorem service_step (hguarded : Guarded st) (hsealed : st.isDegraded = true → t.Sealed st) :
    (st.isDegraded = true → Withheld st t) ∧ Guarded (execService st t) := by
  obtain ⟨env,act⟩ := t
  constructor
  · intro hdegraded
    have hseal := hsealed hdegraded
    apply withheld_of_sat
    cases act with
    | call c => exact c.body_silent hdegraded (hguarded hdegraded) hseal
    | elsewhere rest => exact (sat_bind _ _).2 ((sat_update _ _).2 ((sat_pure _).2 ⟨rfl,rfl,rfl⟩))
    | rotate rest source newAddress =>
      refine (sat_bind _ _).2 ((sat_update _ _).2 ?_)
      have hmove := moveSubmissions_idle (w := ⟨env,st.besides rest,{}⟩) hseal newAddress
      refine Sat.andThen hmove fun _ u hu => (sat_pure _).2 ?_
      subst hu
      exact ⟨rfl,rfl,rfl⟩
  · refine invoke_of_sat (P := Guarded) hguarded ?_
    have hkeeps {m : Contract Bool} (hm : Preserves KeepsPause m) :
        Sat m (World.enter env st) fun _ u => Guarded u.store :=
      (hm _).mono fun _ _ h => h.guarded hguarded
    cases act with
    | call c => exact c.body_guards hguarded hsealed
    | elsewhere rest => exact hkeeps ((besides_keepsPause rest).bind fun _ => preserves_pure _)
    | rotate rest source newAddress =>
      have hmove : Preserves KeepsPause (moveSubmissions source newAddress) :=
        keepsPause_frame (moveSubmissions_frame source newAddress) (by decide) (by decide)
          (by decide)
      exact hkeeps ((besides_keepsPause rest).bind fun _ => hmove.bind fun _ => preserves_pure _)

/-- In a run whose steps from the degraded state are sealed, none of them stores a submission,
writes an aggregate or returns a price. -/
theorem degraded_withholds (st : Store) (hst : st.isDegraded = false)
    (hsealed : ∀ x ∈ steps execService st ts, x.1.isDegraded = true → x.2.Sealed x.1) :
    ∀ x ∈ steps execService st ts, x.1.isDegraded = true → Withheld x.1 x.2 := by
  have hguarded : Guarded st := by
    intro hdegraded
    rw [hst] at hdegraded
    cases hdegraded
  exact (steps_satisfy (fun _ _ h hC => service_step h hC) hguarded hsealed).1

end Runs


/-- Asset `7` has a published price, and source `3` has paid for a newer one. -/
def publishing : Store where
  config := { admin := some 1, minSources := some 1 }
  registry := { assetIndex := fun a => if a = 7 then some true else none
                assetRegistered := fun a => if a = 7 then some true else none
                assets := [7]
                sources := [3]
                srcActive := fun a => if a = 3 then some true else none }
  aggregate := fun a => if a = 7 then some ⟨500, 990, 1, 7, false, 1⟩ else none
  feeMarket := { pending := [⟨3, 7, 510, 1100, 5, 4⟩] }

def asked (timestamp : Nat) (signers : List Address) (call : ServiceCall) : ServiceTx :=
  ⟨.concrete 5 timestamp signers, .call call⟩

/-- The switch is armed, and trips 200 seconds after its last heartbeat. -/
def tripping : List ServiceTx :=
  [asked 1000 [1] (.watch (.configure 100 50 [2])), asked 1000 [2] (.watch (.heartbeat 2)),
    asked 1200 [] (.watch .evaluate)]

/-- Source `3` submits a price that it signs itself. -/
def submitting : ServiceTx :=
  asked 1210 [3] (.price (.aggregate (.submit (.bySource 3 (.submitPrice 7 520 1205 1)))))

def drainingMarket : ServiceTx := asked 1210 [] (.price (.aggregate (.submit .processFeeMarket)))

def stale : Store := { publishing with
  config := { publishing.config with resolution := some 60 }
  feeMarket := {} }

def outage : List ServiceTx :=
  tripping ++ [submitting, drainingMarket, asked 1210 [] (.read (.lastprice (.stellar 7))),
    asked 1210 [2] (.watch .unpause), asked 1220 [1] (.emergencyPause "" 9)]

/-- An outage in which a submission is refused, the fee market is empty, the last price is too old
and a stranger cannot lift the pause. -/
theorem outage_withholds :
    (run execService stale outage).isDegraded = true ∧
      ∀ x ∈ steps execService stale outage, x.1.isDegraded = true → Withheld x.1 x.2 := by
  have hoperating : ∀ x ∈ steps execService stale tripping, x.1.isDegraded = false := by
    decide +kernel
  have hempty : (execService (run execService stale tripping) submitting).feeMarket.pending = [] := by
    decide +kernel
  have hold : (ServiceCall.read (.lastprice (.stellar 7))).Sealed (.concrete 5 1210 [])
      (execService (execService (run execService stale tripping) submitting) drainingMarket) := by
    unfold ServiceCall.Sealed ReadCall.Barren Store.Unfit
    decide +kernel
  refine ⟨by decide +kernel,degraded_withholds stale rfl ?_⟩
  rw [outage,steps_append,List.forall_mem_append]
  refine ⟨fun x hx hdegraded => ?_,?_⟩
  · rw [hoperating x hx] at hdegraded
    cases hdegraded
  · simp only [steps_cons,steps_nil,List.forall_mem_cons]
    refine ⟨fun _ => trivial,fun _ x hx => ?_,fun _ => hold,fun _ => ?_,fun _ => trivial,?_⟩
    · rw [hempty] at hx
      cases hx
    · change Store.adminSigns _ _ = false
      decide +kernel
    · simp

/-- In the degraded state, and paused, the published price is served and the fee market stores and
publishes a new one; and once the administrator lifts the pause a source can submit again. -/
theorem degraded_publishes :
    let tripped := run execService publishing tripping
    let unpaused := run execService publishing (tripping ++ [asked 1205 [1] (.watch .unpause)])
    tripped.isDegraded = true ∧ tripped.isPaused = true ∧
      (asked 1210 [] (.read (.getPrice 7 0))).serves tripped = true ∧
      (asked 1210 [] (.read (.lastprice (.stellar 7)))).serves tripped = true ∧
      (asked 1210 [] (.read (.price (.stellar 7) 990))).serves tripped = true ∧
      ¬Withheld tripped drainingMarket ∧
      unpaused.isDegraded = true ∧ ¬Withheld unpaused submitting := by
  have hmarket : (effects drainingMarket.act.body drainingMarket.env
      (run execService publishing tripping)).submissions.length = 1 := by decide +kernel
  have hsource : (effects submitting.act.body submitting.env (run execService publishing
      (tripping ++ [asked 1205 [1] (.watch .unpause)]))).aggregates.length = 1 := by decide +kernel
  refine ⟨by decide,by decide,by decide,by decide,by decide,fun h => ?_,by decide,fun h => ?_⟩
  · rw [h.submissions] at hmarket
    cases hmarket
  · rw [h.aggregates] at hsource
    cases hsource

end PriceOracle.DeadMan
