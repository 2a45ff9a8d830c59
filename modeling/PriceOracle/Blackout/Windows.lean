import PriceOracle.Blackout.Effects
import PriceOracle.Lib.Run

/-! # The windows of a run

Over any run in which time does not go back, the windows of an asset are short and far apart, those
of the administrator are announced, and those of the sources are called for by a quorum. -/

namespace PriceOracle.Blackout

open Model Lib.Transaction Lib.MachineInt Lib.Run Lib.Spacing

/-- The span in which a window that the step removes has been in force. -/
def goneBy (asset : Address) (x : Store × BlackoutTx) : List Span :=
  let c := curfewOf x.1 asset
  if (curfewOf (execBlackout x.1 x.2) asset).window = c.window ∨ x.2.extends asset = true then []
  else c.untilNow x.2.env.timestamp

def gone (asset : Address) (past : List (Store × BlackoutTx)) : List Span :=
  past.flatMap (goneBy asset)

/-- The spans of all the windows of a run, the one that is there at its end taken whole. -/
def windowsOf (asset : Address) (st : Store) (ts : List BlackoutTx) : List Span :=
  gone asset (steps execBlackout st ts) ++ (curfewOf (run execBlackout st ts) asset).live

/-- After the step the asset has the window `b`, which is neither the one it had nor that one
extended. -/
def Opens (asset : Address) (x : Store × BlackoutTx) (b : BlackoutWindow) : Prop :=
  (curfewOf (execBlackout x.1 x.2) asset).window = some b ∧ (curfewOf x.1 asset).window ≠ some b ∧
    x.2.extends asset = false

/-- The window is announced in time by the administrator, or begins with the signals of a quorum. -/
def OpenedDuly (past : List (Store × BlackoutTx)) (asset : Address) (x : Store × BlackoutTx)
    (b : BlackoutWindow) : Prop :=
  b.origin = originScheduled ∧ AdminSigned x.2.env x.1 ∧
      x.2.env.timestamp + minNoticeSecs ≤ b.start ∨
    b.origin = originVolatility ∧ b.start = x.2.env.timestamp ∧
      ∃ sources : List Address, sources.Nodup ∧ x.1.getVolatilityQuorum ≤ sources.length ∧
        ∀ source ∈ sources, ∃ y ∈ past ++ [x], Signals asset source y ∧
          x.2.env.timestamp < y.2.env.timestamp + signalWindowSecs

def Withheld (asset : Address) (env : Env) (st : Store) : Prop :=
  ∃ w, suppresses asset (World.enter env st) = .ok true w

/-- What the windows of a run that ends after `ts` are like. -/
structure WellSpaced (asset : Address) (st : Store) (ts : List BlackoutTx) : Prop where
  spaced : Spaced cooldownSecs (windowsOf asset st ts)
  brief : ∀ a ∈ windowsOf asset st ts, a.stop ≤ a.start + maxBlackoutSecs
  opened : ∀ pre t post, ts = pre ++ t :: post → ∀ b,
    Opens asset (run execBlackout st pre, t) b →
      OpenedDuly (steps execBlackout st pre) asset (run execBlackout st pre, t) b
  withheld : ∀ env, Withheld asset env (run execBlackout st ts) →
    ∃ a ∈ windowsOf asset st ts, a.Covers env.timestamp
  broken : ∀ n, ∃ m, n ≤ m ∧ m ≤ n + maxBlackoutSecs ∧ ∀ a ∈ windowsOf asset st ts, ¬a.Covers m

section Steps

variable {asset source : Address} {past : List (Store × BlackoutTx)} {st : Store} {t : BlackoutTx}
  (x : Store × BlackoutTx)

/-- A step has come in the last half hour that 64 bits can tell. -/
def Late (past : List (Store × BlackoutTx)) : Prop :=
  ∃ y ∈ past, 2 ^ 64 ≤ y.2.env.timestamp + volatilityBlackoutSecs

/-- The signals that are counted have been given, all since the first of them. -/
structure Known (asset : Address) (past : List (Store × BlackoutTx)) (s : VolatilitySignals) :
    Prop where
  nodup : s.sources.Nodup
  begun : ∃ y ∈ past, s.since ≤ y.2.env.timestamp
  given : ∀ source ∈ s.sources, ∃ y ∈ past, Signals asset source y ∧ s.since ≤ y.2.env.timestamp

structure Watched (asset : Address) (past : List (Store × BlackoutTx)) (st : Store) : Prop where
  shown : Shown asset st
  account : Accounted (gone asset past) (Late past) (curfewOf st asset)
  signals : ∀ s ∈ (curfewOf st asset).signals, Known asset past s

/-- The step comes no earlier than those before it, at a time of 64 bits. -/
def InTime (past : List (Store × BlackoutTx)) (t : BlackoutTx) : Prop :=
  t.Typed ∧ ∀ y ∈ past, y.2.env.timestamp ≤ t.env.timestamp

theorem gone_concat : gone asset (past ++ [x]) = gone asset past ++ goneBy asset x := by
  unfold gone
  rw [List.flatMap_append,List.flatMap_singleton]

theorem of_mem_gone {a : Span} (h : a ∈ gone asset past) :
    a.start < a.stop ∧ ∃ y ∈ past, a.stop ≤ y.2.env.timestamp := by
  obtain ⟨y,hy,ha⟩ := List.mem_flatMap.1 h
  unfold goneBy at ha
  dsimp only at ha
  split_ifs at ha with hsame
  · cases ha
  · obtain ⟨hlt,hle⟩ := Curfew.stop_le_of_untilNow ha
    exact ⟨hlt,y,hy,hle⟩

theorem gone_le (htime : InTime past t) : ∀ a ∈ gone asset past, a.stop ≤ t.env.timestamp := by
  intro a ha
  obtain ⟨-,y,hy,hle⟩ := of_mem_gone ha
  exact hle.trans (htime.2 y hy)

theorem late_iff (htime : InTime past t) :
    Late (past ++ [(st,t)]) ↔ 2 ^ 64 ≤ t.env.timestamp + volatilityBlackoutSecs := by
  constructor
  · rintro ⟨y,hy,hlate⟩
    rcases List.mem_append.1 hy with hy | hy
    · have hle := htime.2 y hy
      omega
    · rw [List.mem_singleton] at hy
      rwa [hy] at hlate
  · exact fun hlate => ⟨(st,t),by simp,hlate⟩

theorem Late.concat (h : Late past) : Late (past ++ [x]) := by
  obtain ⟨y,hy,hlate⟩ := h
  exact ⟨y,List.mem_append_left _ hy,hlate⟩

theorem Known.concat {s : VolatilitySignals} (h : Known asset past s) (x : Store × BlackoutTx) :
    Known asset (past ++ [x]) s := by
  obtain ⟨y,hy,hbegun⟩ := h.begun
  refine ⟨h.nodup,⟨y,List.mem_append_left _ hy,hbegun⟩,fun source hsource => ?_⟩
  obtain ⟨z,hz,hgiven⟩ := h.given source hsource
  exact ⟨z,List.mem_append_left _ hz,hgiven⟩

/-- The signals that count once the step has added its own. -/
theorem known_signalsAt (htime : InTime past t)
    (h : ∀ s ∈ (curfewOf st asset).signals, Known asset past s)
    (hsignals : Signals asset source (st,t)) :
    let s := (st.signalsAt asset t.env.timestamp).add source
    Known asset (past ++ [(st,t)]) s ∧ t.env.timestamp - s.since < signalWindowSecs := by
  have hcurrent : (st,t) ∈ past ++ [(st,t)] := by simp
  have hprevious : let p := st.signalsAt asset t.env.timestamp
      Known asset (past ++ [(st,t)]) p ∧ p.since ≤ t.env.timestamp ∧
        t.env.timestamp - p.since < signalWindowSecs := by
    unfold Store.signalsAt
    cases hp : (st.volatility.signals asset).filter
        fun s => t.env.timestamp - s.since < signalWindowSecs with
    | none =>
      refine ⟨⟨List.nodup_nil,⟨_,hcurrent,le_refl _⟩,by rintro _ ⟨⟩⟩,le_refl _,?_⟩
      simp [signalWindowSecs]
    | some p =>
      obtain ⟨hstored,hfresh⟩ := Option.filter_eq_some_iff.1 hp
      have hknown := h p hstored
      obtain ⟨y,hy,hbegun⟩ := hknown.begun
      exact ⟨hknown.concat _,hbegun.trans (htime.2 y hy),by simpa using hfresh⟩
  obtain ⟨hknown,hsince,hfresh⟩ := hprevious
  change Known asset _ (VolatilitySignals.add _ source) ∧
    t.env.timestamp - (VolatilitySignals.add _ source).since < _
  unfold VolatilitySignals.add
  split_ifs with hmem
  · exact ⟨hknown,hfresh⟩
  · rw [List.contains_iff_mem] at hmem
    refine ⟨⟨?_,hknown.begun,fun a ha => ?_⟩,hfresh⟩
    · exact List.nodup_append.2 ⟨hknown.nodup,List.nodup_singleton source,by
        rintro a ha b hb rfl
        exact hmem (List.mem_singleton.1 hb ▸ ha)⟩
    · rcases List.mem_append.1 ha with ha | ha
      · exact hknown.given a ha
      · rw [List.mem_singleton] at ha
        exact ⟨_,hcurrent,ha ▸ hsignals,hsince⟩

theorem goneBy_same
    (h : (curfewOf (execBlackout st t) asset).window = (curfewOf st asset).window) :
    goneBy asset (st,t) = [] :=
  if_pos (.inl h)

theorem goneBy_extends (h : t.extends asset = true) : goneBy asset (st,t) = [] := if_pos (.inr h)

theorem goneBy_closed (hplain : t.extends asset = false)
    (h : (curfewOf (execBlackout st t) asset).window = none) :
    goneBy asset (st,t) = (curfewOf st asset).untilNow t.env.timestamp := by
  unfold goneBy
  dsimp only
  split_ifs with hsame
  · rw [h,hplain] at hsame
    rcases hsame with hnone | hextends
    · exact (Curfew.untilNow_of_none hnone.symm).symm
    · cases hextends
  · rfl

theorem goneBy_opened {b : BlackoutWindow} (hplain : t.extends asset = false)
    (h : (curfewOf (execBlackout st t) asset).window = some b) (hb : t.env.timestamp ≤ b.start) :
    goneBy asset (st,t) = (curfewOf st asset).untilNow t.env.timestamp := by
  unfold goneBy
  dsimp only
  split_ifs with hsame
  · rw [h,hplain] at hsame
    rcases hsame with hsome | hextends
    · exact (Curfew.untilNow_of_le hsome.symm hb).symm
    · cases hextends
  · rfl

/-- The window that a step opens when the sources have called for it. -/
def volatilityWindow (now : Nat) : BlackoutWindow :=
  ⟨now, wrap64 (now + volatilityBlackoutSecs), originVolatility⟩

theorem account_scheduled {start stop : Nat} (h : Watched asset past st) (htime : InTime past t)
    (hbounded : stop ≤ u64Max) (hnotice : satAdd64 t.env.timestamp minNoticeSecs ≤ start)
    (horder : start < stop) (hmax : stop - start ≤ maxBlackoutSecs)
    (hopen : (curfewOf st asset).CanOpen t.env.timestamp start) :
    Accounted (gone asset past ++ (curfewOf st asset).untilNow t.env.timestamp)
      (Late (past ++ [(st,t)]))
      { (curfewOf st asset).settled with window := some ⟨start,stop,originScheduled⟩ } := by
  obtain ⟨hsettled,hnone⟩ := h.account.settle hopen (gone_le htime)
  refine (hsettled.mono (Late.concat _)).opened hnone hopen.rested hbounded ?_ ?_
  · refine fun _ => ⟨fun hlate => ?_,?_⟩
    · rw [late_iff htime] at hlate
      unfold satAdd64 u64Max minNoticeSecs at hnotice
      unfold u64Max at hbounded
      unfold volatilityBlackoutSecs at hlate
      omega
    · dsimp only at hmax ⊢
      omega
  · exact fun hempty => absurd horder hempty

theorem account_raised (h : Watched asset past st) (htime : InTime past t)
    (hopen : (curfewOf st asset).CanOpen t.env.timestamp t.env.timestamp) :
    Accounted (gone asset past ++ (curfewOf st asset).untilNow t.env.timestamp)
      (Late (past ++ [(st,t)]))
      { (curfewOf st asset).settled with
        window := some (volatilityWindow t.env.timestamp), signals := none } := by
  obtain ⟨hsettled,hnone⟩ := h.account.settle hopen (gone_le htime)
  have hnow : t.env.timestamp ≤ u64Max := htime.1.1
  unfold u64Max at hnow
  have hrest := ((hsettled.mono (Late.concat (st,t))).opened
    (b := volatilityWindow t.env.timestamp) hnone hopen.rested ?_ ?_ ?_)
  · exact hrest.withSignals none
  · unfold volatilityWindow wrap64 u64Max
    dsimp only
    omega
  · unfold volatilityWindow
    dsimp only
    rw [late_iff htime]
    unfold wrap64 volatilityBlackoutSecs maxBlackoutSecs at *
    omega
  · unfold volatilityWindow
    dsimp only
    rw [late_iff htime]
    unfold wrap64 volatilityBlackoutSecs at *
    omega

/-- One step keeps the account, and opens a window only duly. -/
theorem blackout_step (h : Watched asset past st) (htime : InTime past t) :
    (∀ b, Opens asset (st,t) b → OpenedDuly past asset (st,t) b) ∧
      Watched asset (past ++ [(st,t)]) (execBlackout st t) := by
  obtain ⟨heffect,hshown⟩ := execBlackout_effect h.shown t
  have hlate : Late past → Late (past ++ [(st,t)]) := Late.concat (st,t)
  have hsame {c' : Curfew} (hc' : curfewOf (execBlackout st t) asset = c')
      (hwindow : c'.window = (curfewOf st asset).window) :
      gone asset (past ++ [(st,t)]) = gone asset past ∧
        ∀ b, Opens asset (st,t) b → OpenedDuly past asset (st,t) b := by
    refine ⟨?_,fun b hb => ?_⟩
    · rw [gone_concat,goneBy_same (by rw [hc',hwindow]),List.append_nil]
    · obtain ⟨hafter,hbefore,-⟩ := hb
      rw [hc',hwindow] at hafter
      exact absurd hafter hbefore
  cases heffect with
  | kept hkept =>
    obtain ⟨hgone,hduly⟩ := hsame hkept rfl
    refine ⟨hduly,hshown,?_,fun s hs => ?_⟩
    · rw [hgone,hkept]
      exact h.account.mono hlate
    · rw [hkept] at hs
      exact (h.signals s hs).concat _
  | closed b hplain hb hclosed =>
    refine ⟨fun b' hb' => ?_,hshown,?_,fun s hs => ?_⟩
    · have hafter := hb'.1
      rw [hclosed] at hafter
      cases hafter
    · rw [gone_concat,goneBy_closed hplain (by rw [hclosed]; rfl),hclosed]
      exact (h.account.close hb (gone_le htime)).mono hlate
    · rw [hclosed] at hs
      exact (h.signals s hs).concat _
  | extended b newStop hact hb hnow hlater hmax hextended =>
    have hextends : t.extends asset = true := by
      unfold BlackoutTx.extends
      rw [hact]
      exact decide_eq_true rfl
    have hbounded : newStop ≤ u64Max := by
      have htyped := htime.1.2
      rwa [hact] at htyped
    have hproper : b.start < b.stop := by
      rcases h.account.proper b hb with hlt | ⟨⟨y,hy,hy'⟩,hsmall⟩
      · exact hlt
      · have hle := htime.2 y hy
        unfold volatilityBlackoutSecs at hy' hsmall
        omega
    rw [wrapSub64_eq (by omega) hbounded] at hmax
    refine ⟨fun b' hb' => ?_,hshown,?_,fun s hs => ?_⟩
    · exact absurd (hextends.symm.trans hb'.2.2) (by decide)
    · rw [gone_concat,goneBy_extends hextends,List.append_nil,hextended]
      exact (h.account.mono hlate).extend hb hproper hlater (by omega) hbounded
    · rw [hextended] at hs
      exact (h.signals s hs).concat _
  | scheduled start stop hact hsigned hnotice horder hmax hopen hscheduled =>
    have hplain : t.extends asset = false := by
      unfold BlackoutTx.extends
      rw [hact]
    have hbounded : stop ≤ u64Max := by
      have htyped := htime.1.2
      rwa [hact] at htyped
    have hstart : t.env.timestamp + minNoticeSecs ≤ start := by
      unfold satAdd64 at hnotice
      omega
    refine ⟨fun b' hb' => ?_,hshown,?_,fun s hs => ?_⟩
    · have hafter := hb'.1
      rw [hscheduled] at hafter
      cases hafter
      exact .inl ⟨rfl,hsigned,hstart⟩
    · have hbegin : t.env.timestamp ≤ start := (Nat.le_add_right _ _).trans hstart
      rw [gone_concat,goneBy_opened hplain (by rw [hscheduled]) hbegin,hscheduled]
      exact account_scheduled h htime hbounded hnotice horder hmax hopen
    · rw [hscheduled] at hs
      have hkept : (curfewOf st asset).settled.signals = (curfewOf st asset).signals := by
        unfold Curfew.settled
        cases (curfewOf st asset).window <;> rfl
      exact (h.signals s (hkept ▸ hs)).concat _
  | noted source hsignals hnoted =>
    obtain ⟨hgone,hduly⟩ := hsame hnoted rfl
    refine ⟨hduly,hshown,?_,fun s hs => ?_⟩
    · rw [hgone,hnoted]
      exact (h.account.mono hlate).withSignals _
    · rw [hnoted] at hs
      cases hs
      exact (known_signalsAt htime h.signals hsignals).1
  | raised source hsignals hquorum hopen hraised =>
    have hplain : t.extends asset = false := by
      unfold BlackoutTx.extends
      rw [hsignals.act]
    refine ⟨fun b' hb' => ?_,hshown,?_,fun s hs => ?_⟩
    · have hafter := hb'.1
      rw [hraised] at hafter
      cases hafter
      obtain ⟨hknown,hfresh⟩ := known_signalsAt htime h.signals hsignals
      refine .inr ⟨rfl,rfl,_,hknown.nodup,hquorum,fun a ha => ?_⟩
      obtain ⟨y,hy,hgiven,hsince⟩ := hknown.given a ha
      exact ⟨y,hy,hgiven,by dsimp only; omega⟩
    · rw [gone_concat,goneBy_opened hplain (by rw [hraised]) (le_refl _),hraised]
      exact account_raised h htime hopen
    · rw [hraised] at hs
      cases hs

end Steps

section Runs

variable {asset : Address} {st : Store}

theorem withheld_iff (env : Env) : Withheld asset env st ↔
    ∃ b, (curfewOf st asset).window = some b ∧ b.start ≤ env.timestamp ∧
      env.timestamp < b.stop := by
  unfold Withheld curfewOf suppresses
  rw [bind_of_ok (show readStore _ (World.enter env st) =
      .ok (st.blackoutWindowOf asset) (World.enter env st) from rfl),
    bind_of_ok (show getTimestamp (World.enter env st) =
      .ok env.timestamp (World.enter env st) from rfl)]
  cases st.blackoutWindowOf asset with
  | none => exact ⟨by rintro ⟨w,⟨⟩⟩,by rintro ⟨b,⟨⟩,-⟩⟩
  | some b =>
    simp only [Option.some.injEq,exists_eq_left']
    split_ifs with hstart hstop
    · exact ⟨by rintro ⟨w,⟨⟩⟩,fun h => absurd hstart (not_lt.2 h.1)⟩
    · exact ⟨by rintro ⟨w,⟨⟩⟩,fun h => absurd hstop (not_le.2 h.2)⟩
    · exact ⟨fun _ => ⟨not_lt.1 hstart,not_le.1 hstop⟩,fun _ => ⟨_,rfl⟩⟩

/-- Nothing is known of the blackouts of the asset yet. -/
def Unscheduled (asset : Address) (st : Store) : Prop :=
  st.rounds.blackoutWindow asset = none ∧ st.rounds.blackoutLastEnd asset = none ∧
    st.volatility.signals asset = none

theorem watched_of_unscheduled (h : Unscheduled asset st) : Watched asset [] st := by
  obtain ⟨hwindow,hend,hsignals⟩ := h
  have hnone : (curfewOf st asset).window = none := by
    change st.blackoutWindowOf asset = none
    unfold Store.blackoutWindowOf
    rw [hwindow,ite_self]
  have hlive : gone asset [] ++ (curfewOf st asset).live = [] := Curfew.live_of_none hnone
  refine ⟨fun _ => hwindow,⟨?_,?_,.inr (by rintro _ ⟨⟩),?_,?_⟩,fun s hs => ?_⟩
  · rw [hlive]
    exact List.Pairwise.nil
  · rw [hlive]
    rintro _ ⟨⟩
  · rw [hnone]
    rintro _ ⟨⟩
  · rw [hnone]
    rintro _ ⟨⟩
  · change st.volatility.signals asset = some s at hs
    rw [hsignals] at hs
    cases hs

/-- However blackouts are scheduled, extended, cancelled and called for, they are brief, far apart
and duly opened, and aggregation is never withheld for long. -/
theorem blackouts_spaced (ts : List BlackoutTx) (hst : Unscheduled asset st)
    (htyped : ∀ t ∈ ts, t.Typed)
    (hclock : ts.Pairwise fun t u => t.env.timestamp ≤ u.env.timestamp) :
    WellSpaced asset st ts := by
  have htime : ∀ pre t post, ts = pre ++ t :: post →
      InTime (steps execBlackout st pre) t := fun pre t post hts =>
    ⟨htyped t (by simp [hts]),past_ordered hclock pre t post hts⟩
  have hwatched : Watched asset (steps execBlackout st ts) (run execBlackout st ts) :=
    past_keeps (C := fun past _ t => InTime past t)
      (fun past s t hI ht => (blackout_step hI ht).2) (watched_of_unscheduled hst) htime
  have hnonempty : ∀ a ∈ windowsOf asset st ts, a.start < a.stop := by
    intro a ha
    rcases List.mem_append.1 ha with ha | ha
    · exact (of_mem_gone ha).1
    · exact Curfew.start_lt_of_live ha
  refine ⟨hwatched.account.spaced,hwatched.account.brief,fun pre t post hts => ?_,?_,?_⟩
  · exact past_satisfies (C := fun past _ t => InTime past t)
      (P := fun past s t => ∀ b, Opens asset (s,t) b → OpenedDuly past asset (s,t) b)
      (fun past s t hI ht => blackout_step hI ht) (watched_of_unscheduled hst) htime pre t post hts
  · intro env hwithheld
    obtain ⟨b,hb,hstart,hstop⟩ := (withheld_iff env).1 hwithheld
    refine ⟨⟨b.start,b.stop⟩,List.mem_append_right _ ?_,hstart,hstop⟩
    rw [Curfew.live_of_window hb,Curfew.mem_spanOf]
    exact ⟨hstart.trans_lt hstop,rfl⟩
  · exact exists_free (by decide) hwatched.account.spaced hnonempty hwatched.account.brief

/-- Asset 10 has three sources. -/
def blackoutStore : Store where
  config := { admin := some 9 }
  registry :=
    { assetRegistered := fun a => if a = 10 then some true else none
      srcActive := fun s => if s = 1 ∨ s = 2 ∨ s = 3 then some true else none }

def blackoutCall (timestamp : Nat) (signer : Address) (call : BlackoutCall) : BlackoutTx :=
  ⟨.concrete 5 timestamp [signer], .call call⟩

/-- A window that is extended and cancelled, and three signals when its cooldown is over. -/
def blackoutRun : List BlackoutTx :=
  [blackoutCall 1000 9 (.schedule 10 4600 8200), blackoutCall 5000 9 (.suppresses 10),
    blackoutCall 6000 9 (.extend 10 9000), blackoutCall 7000 9 (.cancel 10),
    blackoutCall 28600 1 (.signal 1 10), blackoutCall 28600 2 (.signal 2 10),
    blackoutCall 28600 3 (.signal 3 10)]

theorem blackoutRun_spaced :
    windowsOf 10 blackoutStore blackoutRun = [⟨4600, 7000⟩, ⟨28600, 30400⟩] ∧
      WellSpaced 10 blackoutStore blackoutRun := by
  refine ⟨by decide +kernel,blackouts_spaced blackoutRun ⟨rfl,rfl,rfl⟩ ?_ (by decide)⟩
  simp only [blackoutRun,List.forall_mem_cons,blackoutCall,BlackoutTx.Typed,List.not_mem_nil,
    false_implies,implies_true]
  decide

end Runs

end PriceOracle.Blackout
