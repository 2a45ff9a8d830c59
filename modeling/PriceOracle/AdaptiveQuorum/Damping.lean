import PriceOracle.Lib.Run
import PriceOracle.Lib.Timing
import PriceOracle.Model.AdaptiveQuorum
import PriceOracle.Model.Invocation

/-! # The quorum of a round in flight

A pin is written without a look at the one before it, so the quorum of a round is what the asset's
window said when the round was pinned last. -/

namespace PriceOracle.AdaptiveQuorum

open Lib.Transaction Lib.Run Model

inductive QuorumCall
  | pinRoundQuorum (asset : Address) (round : Nat)
  | observePrice (asset : Address) (price : Int)
  | setAdaptiveQuorumConfig (config : VolatilityBuckets)
deriving DecidableEq

structure QuorumTx where
  env : Env
  call : QuorumCall

def execQuorum (st : Store) (t : QuorumTx) : Store :=
  match t.call with
  | .pinRoundQuorum asset round => invoke (Model.pinRoundQuorum asset round) t.env st
  | .observePrice asset price => invoke (Model.observePrice asset price) t.env st
  | .setAdaptiveQuorumConfig config => invoke (Model.setAdaptiveQuorumConfig config) t.env st

/-- What a pin of the round records: the quorum of the window as it is. -/
def currentPin (st : Store) (asset : Address) (round : Nat) : RoundQuorum :=
  ⟨round, (st.getRegime asset).bucket, (st.getRegime asset).quorum,
    (st.getRegime asset).volatilityBps⟩

section Calls

variable {w : World} {st : Store} {env : Env} (asset : Address)

theorem pinRoundQuorum_sat (round : Nat) : Sat (Model.pinRoundQuorum asset round) w fun _ w' =>
      w.store.classifies asset = true ∧ w'.store.adaptiveQuorum.round =
        Function.update w.store.adaptiveQuorum.round (asset,round)
          (some (currentPin w.store asset round)) := by
  simp only [Model.pinRoundQuorum,sat_bind,sat_readStore,sat_ensure,modifyAdaptiveQuorum,
    sat_update,sat_pure]
  intro henough
  exact ⟨henough,rfl⟩

theorem pinRoundQuorum_fails (round : Nat) :
    Fails (Model.pinRoundQuorum asset round) w fun _ _ => w.store.classifies asset = false := by
  simp only [Model.pinRoundQuorum,fails_bind]
  simp

theorem classify_round (config : VolatilityBuckets) (samples : List Nat) :
    Sat (classify asset config samples) w fun _ w' =>
      w'.store.adaptiveQuorum.round = w.store.adaptiveQuorum.round := by
  refine sat_ite _ (fun _ => (sat_pure _).2 rfl) fun _ => ?_
  simp

theorem observePrice_round (price : Int) : Sat (Model.observePrice asset price) w fun _ w' =>
      w'.store.adaptiveQuorum.round = w.store.adaptiveQuorum.round := by
  exact classify_round asset _ _

theorem setAdaptiveQuorumConfig_round (config : VolatilityBuckets) :
    Sat (Model.setAdaptiveQuorumConfig config) w fun _ w' =>
      w'.store.adaptiveQuorum.round = w.store.adaptiveQuorum.round := by
  refine (sat_asAdmin _).2 fun _ _ _ => ?_
  simp

end Calls

def KeepsPins (st st' : Store) : Prop :=
  ∀ key r, st.adaptiveQuorum.round key = some r → st'.adaptiveQuorum.round key = some r

/-- A pin of a round that has been pinned finds the regime that the record was made from. -/
def QuorumTx.Repeats (st : Store) (t : QuorumTx) : Prop :=
  ∀ asset round r, t.call = .pinRoundQuorum asset round →
    st.adaptiveQuorum.round (asset, round) = some r → st.classifies asset = true →
    currentPin st asset round = r

theorem keepsPins_iff (st : Store) (t : QuorumTx) :
    KeepsPins st (execQuorum st t) ↔ t.Repeats st := by
  have hquiet (st' : Store) (h : st'.adaptiveQuorum.round = st.adaptiveQuorum.round) :
      KeepsPins st st' := by
    intro key r hr
    rw [h]
    exact hr
  unfold QuorumTx.Repeats execQuorum
  cases t.call with
  | pinRoundQuorum asset round =>
    dsimp only
    rcases invoke_cases (pinRoundQuorum_sat (w := World.enter t.env st) asset round) with
      ⟨hfail,hst,-⟩ | ⟨-,w,⟨henough,hround⟩,hw,-⟩
    · refine iff_of_true (hquiet _ (by rw [hst])) fun a n r hcall hr henough => ?_
      cases hcall
      refine (hfail ?_).elim
      exact succeeds_of_no_failure ((pinRoundQuorum_fails asset round).mono fun _ _ hshort => by
        rw [show st.classifies asset = false from hshort] at henough
        cases henough)
    · rw [hw] at hround
      constructor
      · intro hkeeps a n r hcall hr _
        cases hcall
        have hafter := hkeeps (asset,round) r hr
        rw [hround,Function.update_self] at hafter
        exact Option.some.inj hafter
      · intro hrepeats key r hr
        rw [hround]
        by_cases hkey : key = (asset,round)
        · rw [hkey] at hr ⊢
          rw [Function.update_self]
          exact congrArg some (hrepeats asset round r rfl hr henough)
        · rw [Function.update_of_ne hkey]
          exact hr
  | observePrice asset price =>
    refine iff_of_true (hquiet _ ?_) fun _ _ _ hcall => by cases hcall
    exact invoke_of_sat (P := fun s => s.adaptiveQuorum.round = st.adaptiveQuorum.round) rfl
      (observePrice_round asset price)
  | setAdaptiveQuorumConfig config =>
    refine iff_of_true (hquiet _ ?_) fun _ _ _ hcall => by cases hcall
    exact invoke_of_sat (P := fun s => s.adaptiveQuorum.round = st.adaptiveQuorum.round) rfl
      (setAdaptiveQuorumConfig_round config)

/-- A pinned record is the same at every later point of a run exactly if every repeated pin of a
round finds the regime of the pin before it. -/
theorem pins_stable_iff (st : Store) (ts : List QuorumTx) :
    (∀ pre mid post, ts = pre ++ mid ++ post →
      KeepsPins (run execQuorum st pre) (run execQuorum st (pre ++ mid))) ↔
      ∀ x ∈ steps execQuorum st ts, x.2.Repeats x.1 := by
  rw [related_iff_steps (R := KeepsPins) (fun _ _ _ h => h) fun s t u hst htu key r hr =>
    htu key r (hst key r hr)]
  exact forall₂_congr fun x _ => keepsPins_iff x.1 x.2

/-- Anyone observes a calm market, pins a round, reports a jump and pins the round again. -/
def repinRun : List QuorumTx :=
  [100, 101, 102].map (fun price => ⟨.concrete 5 20 [], .observePrice 10 price⟩) ++
    [⟨.concrete 5 20 [], .pinRoundQuorum 10 7⟩, ⟨.concrete 6 30 [], .observePrice 10 200⟩,
      ⟨.concrete 6 30 [], .pinRoundQuorum 10 7⟩]

/-- The second pin raises the quorum of the round in flight. -/
theorem repin_raises :
    (run execQuorum {} (repinRun.take 4)).adaptiveQuorum.round (10, 7) = some ⟨7, 1, 3, 99⟩ ∧
      (run execQuorum {} repinRun).adaptiveQuorum.round (10, 7) = some ⟨7, 2, 5, 3268⟩ := by
  decide

end PriceOracle.AdaptiveQuorum

/-! ## The damped regime and the quorum that is read

The stored regime follows the buckets of the window with hysteresis. -/

namespace PriceOracle.AdaptiveQuorum

open Lib.Transaction Lib.Run Lib.Hysteresis Model

def observe (asset : Address) (st : Store) (x : Env × Int) : Store :=
  invoke (Model.observePrice asset x.2) x.1 st

def observedWindow (asset : Address) (st : Store) (price : Int) : List Nat :=
  st.getAdaptiveQuorumConfig.observed (st.volatilityWindow asset)
    (st.adaptiveQuorum.lastPrice asset) price

/-- The bucket that a further price falls into, once there are samples enough. -/
def target (asset : Address) (st : Store) (price : Int) : Option Nat :=
  if st.getAdaptiveQuorumConfig.minSamples ≤ (observedWindow asset st price).length then
    some (st.getAdaptiveQuorumConfig.bucketOf (meanAbsReturn (observedWindow asset st price)))
  else none

/-- The buckets that the observations of a run fell into. -/
def targets (asset : Address) (st : Store) (xs : List (Env × Int)) : List Nat :=
  (steps (observe asset) st xs).filterMap fun s => target asset s.1 s.2.2

section Observation

variable {asset : Address} {st : Store} {x : Env × Int} {w : World} (config : VolatilityBuckets)
  (price : Int)

theorem classify_sat (samples : List Nat) : Sat (classify asset config samples) w fun _ w' =>
      w'.store.adaptiveQuorum = { w.store.adaptiveQuorum with
        state := if samples.length < config.minSamples then w.store.adaptiveQuorum.state
          else Function.update w.store.adaptiveQuorum.state asset (some (config.damp
            (w.store.adaptiveQuorum.state asset) (meanAbsReturn samples) samples.length)) } := by
  refine sat_ite _ (fun hfew => (sat_pure _).2 ?_) fun henough => ?_
  · rw [if_pos hfew]
  · simp only [sat_bind,sat_readStore,modifyAdaptiveQuorum,sat_update,sat_pure]
    rw [if_neg henough]

theorem classify_fails (samples : List Nat) :
    Fails (classify asset config samples) w fun _ _ => False := by
  unfold classify
  by_cases hfew : samples.length < config.minSamples
  · rw [if_pos hfew]
    exact fails_pure _
  · rw [if_neg hfew]
    simp only [fails_bind,fails_readStore,sat_readStore,modifyAdaptiveQuorum,fails_update,
      sat_update,fails_pure,and_self]

theorem observePrice_fails (w : World) :
    Fails (Model.observePrice asset price) w fun _ _ => False := by
  exact classify_fails _ _

/-- An observation extends the window and damps the regime by the bucket of the new window. -/
theorem observePrice_sat : Sat (Model.observePrice asset price) w fun _ w' =>
      w'.store.getAdaptiveQuorumConfig = w.store.getAdaptiveQuorumConfig ∧
      w'.store.volatilityWindow asset = observedWindow asset w.store price ∧
      w'.store.adaptiveQuorum.state asset = if (observedWindow asset w.store price).length <
            w.store.getAdaptiveQuorumConfig.minSamples then w.store.adaptiveQuorum.state asset
        else some (w.store.getAdaptiveQuorumConfig.damp (w.store.adaptiveQuorum.state asset)
          (meanAbsReturn (observedWindow asset w.store price))
          (observedWindow asset w.store price).length) := by
  refine (classify_sat _ _).mono fun _ w' hw => ?_
  unfold Store.volatilityWindow Store.getAdaptiveQuorumConfig
  rw [hw]
  refine ⟨rfl,?_,?_⟩
  · dsimp only
    split_ifs with hmeasures
    · rw [Function.update_self]
      rfl
    · rw [observedWindow,VolatilityBuckets.observed,if_neg hmeasures]
      rfl
  · dsimp only
    split_ifs with hfew henough
    · rfl
    · exact (henough hfew).elim
    · rename_i hmany
      exact (hfew hmany).elim
    · rw [Function.update_self]
      rfl

/-- What an observation does to the window and the stored regime of its asset. -/
theorem observe_effect (asset : Address) (st : Store) (x : Env × Int) :
    (observe asset st x).getAdaptiveQuorumConfig = st.getAdaptiveQuorumConfig ∧
      (observe asset st x).volatilityWindow asset = observedWindow asset st x.2 ∧
      (observe asset st x).adaptiveQuorum.state asset =
        if (observedWindow asset st x.2).length < st.getAdaptiveQuorumConfig.minSamples then
          st.adaptiveQuorum.state asset
        else some (st.getAdaptiveQuorumConfig.damp (st.adaptiveQuorum.state asset)
          (meanAbsReturn (observedWindow asset st x.2)) (observedWindow asset st x.2).length) := by
  have hok : failure (Model.observePrice asset x.2) x.1 st = none :=
    succeeds_of_no_failure (observePrice_fails x.2 _)
  exact invoke_of_success (Q := fun s => s.getAdaptiveQuorumConfig = st.getAdaptiveQuorumConfig ∧
    s.volatilityWindow asset = observedWindow asset st x.2 ∧
    s.adaptiveQuorum.state asset =
      if (observedWindow asset st x.2).length < st.getAdaptiveQuorumConfig.minSamples then
        st.adaptiveQuorum.state asset
      else some (st.getAdaptiveQuorumConfig.damp (st.adaptiveQuorum.state asset)
        (meanAbsReturn (observedWindow asset st x.2)) (observedWindow asset st x.2).length))
    hok (observePrice_sat x.2)

def levelOf (regime : QuorumRegime) : Level Nat := ⟨regime.bucket, regime.streak⟩

theorem damp_follows (previous : Option QuorumRegime) (volatilityBps samples : Nat) :
    levelOf (config.damp previous volatilityBps samples) =
        follow config.relaxAfter (previous.map levelOf) (config.bucketOf volatilityBps) ∧
      (config.damp previous volatilityBps samples).quorum =
        config.quorumOf (config.damp previous volatilityBps samples).bucket := by
  cases previous with
  | none => simp [VolatilityBuckets.damp,follow,levelOf]
  | some regime =>
    unfold VolatilityBuckets.damp follow levelOf
    dsimp only [Option.map_some,Option.getD_some]
    split_ifs with hmoves
    · exact ⟨rfl,rfl⟩
    · exact ⟨rfl,rfl⟩

/-- The stored regime is the damped bucket of the history, with its own quorum. -/
structure Follows (config : VolatilityBuckets) (history : List Nat)
    (stored : Option QuorumRegime) : Prop where
  started : stored = none ↔ history = []
  tracks : ∀ regime, stored = some regime →
    Tracks config.relaxAfter history (levelOf regime) ∧ regime.quorum = config.quorumOf regime.bucket

theorem Follows.damp {config : VolatilityBuckets} {history : List Nat}
    {stored : Option QuorumRegime} (h : Follows config history stored)
    (volatilityBps samples : Nat) :
    Follows config (history ++ [config.bucketOf volatilityBps])
      (some (config.damp stored volatilityBps samples)) := by
  refine ⟨by simp,fun regime hregime => ?_⟩
  rw [← Option.some.inj hregime]
  obtain ⟨hlevel,hquorum⟩ := damp_follows config stored volatilityBps samples
  refine ⟨?_,hquorum⟩
  rw [hlevel]
  cases stored with
  | none =>
    rw [h.started.1 rfl]
    exact tracks_first
  | some regime => exact (h.tracks regime rfl).1.follow

/-- With samples enough, the window's bucket damps the stored regime and selects the quorum that
is read. -/
theorem observe_classified {b : Nat} (h : target asset st x.2 = some b) :
    ∃ volatilityBps samples, st.getAdaptiveQuorumConfig.bucketOf volatilityBps = b ∧
      (observe asset st x).adaptiveQuorum.state asset = some (st.getAdaptiveQuorumConfig.damp
        (st.adaptiveQuorum.state asset) volatilityBps samples) ∧
      (observe asset st x).classifies asset = true ∧
      ((observe asset st x).getRegime asset).quorum = st.getAdaptiveQuorumConfig.quorumOf b := by
  obtain ⟨hconfig,hwindow,hstate⟩ := observe_effect asset st x
  unfold target at h
  by_cases henough : st.getAdaptiveQuorumConfig.minSamples ≤ (observedWindow asset st x.2).length
  · rw [if_pos henough,Option.some.injEq] at h
    rw [if_neg (Nat.not_lt.2 henough)] at hstate
    have hclassifies : (observe asset st x).classifies asset = true := by
      rw [Store.classifies,hconfig,hwindow]
      exact decide_eq_true henough
    refine ⟨_,_,h,hstate,hclassifies,?_⟩
    unfold Store.getRegime
    rw [hclassifies,hconfig,hwindow,← h]
    rfl
  · rw [if_neg henough] at h
    cases h

theorem observe_unclassified (h : target asset st x.2 = none) :
    (observe asset st x).adaptiveQuorum.state asset = st.adaptiveQuorum.state asset ∧
      (observe asset st x).classifies asset = false := by
  obtain ⟨hconfig,hwindow,hstate⟩ := observe_effect asset st x
  unfold target at h
  by_cases henough : st.getAdaptiveQuorumConfig.minSamples ≤ (observedWindow asset st x.2).length
  · rw [if_pos henough] at h
    cases h
  · rw [if_pos (Nat.not_le.1 henough)] at hstate
    refine ⟨hstate,?_⟩
    rw [Store.classifies,hconfig,hwindow]
    exact decide_eq_false henough

theorem follows_observe {history : List Nat}
    (h : Follows st.getAdaptiveQuorumConfig history (st.adaptiveQuorum.state asset)) :
    Follows st.getAdaptiveQuorumConfig (history ++ (target asset st x.2).toList)
      ((observe asset st x).adaptiveQuorum.state asset) := by
  cases htarget : target asset st x.2 with
  | none =>
    rw [(observe_unclassified htarget).1,Option.toList_none,List.append_nil]
    exact h
  | some b =>
    obtain ⟨v,n,rfl,hstate,-,-⟩ := observe_classified htarget
    rw [hstate]
    exact h.damp v n

theorem targets_concat (xs : List (Env × Int)) :
    targets asset st (xs ++ [x]) = targets asset st xs ++
      (target asset (run (observe asset) st xs) x.2).toList := by
  unfold targets
  rw [steps_append]
  cases htarget : target asset (run (observe asset) st xs) x.2 with
  | none => simp [htarget]
  | some b => simp [htarget]

def Unobserved (asset : Address) (st : Store) : Prop := st.adaptiveQuorum.state asset = none

theorem run_follows (hst : Unobserved asset st) (xs : List (Env × Int)) :
    (run (observe asset) st xs).getAdaptiveQuorumConfig = st.getAdaptiveQuorumConfig ∧
      Follows st.getAdaptiveQuorumConfig (targets asset st xs)
        ((run (observe asset) st xs).adaptiveQuorum.state asset) := by
  induction xs using List.reverseRecOn with
  | nil =>
    refine ⟨rfl,iff_of_true hst rfl,fun regime hregime => ?_⟩
    rw [run_nil,hst] at hregime
    cases hregime
  | append_singleton xs x ih =>
    rw [run_concat,targets_concat]
    refine ⟨(observe_effect asset _ x).1.trans ih.1,?_⟩
    rw [← ih.1]
    exact follows_observe (ih.1 ▸ ih.2)

end Observation

/-- The quorum that is read and pinned after an observation is that of the damped regime, which
rises to the window's bucket at once and falls only to a bucket that the last observations did not
exceed. The history includes the observation. -/
structure ServesDamped (asset : Address) (history : List Nat) (st : Store) (x : Env × Int) :
    Prop where
  served : ∀ regime, (observe asset st x).adaptiveQuorum.state asset = some regime →
    (observe asset st x).classifies asset = true → ∀ env round,
      (∃ w, Model.effectiveQuorum asset (World.enter env (observe asset st x)) =
        .ok regime.quorum w) ∧
      ∃ pinned w, Model.pinRoundQuorum asset round (World.enter env (observe asset st x)) =
        .ok pinned w ∧ pinned.quorum = regime.quorum
  rises : ∀ old new b, st.adaptiveQuorum.state asset = some old →
    (observe asset st x).adaptiveQuorum.state asset = some new →
    target asset st x.2 = some b → old.bucket ≤ b → new.bucket = b
  falls : ∀ old new, st.adaptiveQuorum.state asset = some old →
    (observe asset st x).adaptiveQuorum.state asset = some new → new.bucket < old.bucket →
    Sustained st.getAdaptiveQuorumConfig.relaxAfter history new.bucket

/-- A price that falls below the stored bucket completes the relaxation or selects the same quorum;
and a relaxation that it completes has counted no bucket above its own. The history ends before
the observation. -/
structure Settled (asset : Address) (history : List Nat) (st : Store) (price : Int) : Prop where
  level : ∀ old b, st.adaptiveQuorum.state asset = some old → target asset st price = some b →
    old.bucket ≤ b ∨ st.getAdaptiveQuorumConfig.relaxAfter ≤ old.streak + 1 ∨
      st.getAdaptiveQuorumConfig.quorumOf old.bucket = st.getAdaptiveQuorumConfig.quorumOf b
  descent : ∀ old b, st.adaptiveQuorum.state asset = some old → target asset st price = some b →
    b < old.bucket → st.getAdaptiveQuorumConfig.relaxAfter ≤ old.streak + 1 →
    ∀ c ∈ history.rtake old.streak, c ≤ b

section Serving

variable {asset : Address} {st : Store} {x : Env × Int} {history : List Nat}

/-- Both ways to read the quorum take it from the window. -/
theorem reads_window (h : st.classifies asset = true) (env : Env) (round : Nat) :
    Model.effectiveQuorum asset (World.enter env st) =
        .ok (st.getRegime asset).quorum (World.enter env st) ∧
      ∃ w, Model.pinRoundQuorum asset round (World.enter env st) =
        .ok (currentPin st asset round) w := by
  constructor
  · simp [Model.effectiveQuorum,bind,EStateM.bind,pure,EStateM.pure,readStore,inspect,
      ensure,World.enter,h]
  · simp [Model.pinRoundQuorum,bind,EStateM.bind,pure,EStateM.pure,readStore,inspect,ensure,update,
      currentPin,World.enter,h]

theorem served_iff (h : st.classifies asset = true) (quorum : Nat) :
    (∀ env round, (∃ w, Model.effectiveQuorum asset (World.enter env st) = .ok quorum w) ∧
      ∃ pinned w, Model.pinRoundQuorum asset round (World.enter env st) = .ok pinned w ∧
        pinned.quorum = quorum) ↔ (st.getRegime asset).quorum = quorum := by
  constructor
  · intro hserved
    obtain ⟨⟨w,hread⟩,-⟩ := hserved (.concrete 0 0 []) 0
    rw [(reads_window h _ 0).1] at hread
    cases hread
    rfl
  · rintro rfl env round
    obtain ⟨hread,w,hpin⟩ := reads_window h env round
    exact ⟨⟨_,hread⟩,_,w,hpin,rfl⟩

theorem damp_quorum_iff (config : VolatilityBuckets) (previous : Option QuorumRegime)
    (volatilityBps samples : Nat) :
    config.quorumOf (config.bucketOf volatilityBps) =
        (config.damp previous volatilityBps samples).quorum ↔
      ∀ old, previous = some old → old.bucket ≤ config.bucketOf volatilityBps ∨
        config.relaxAfter ≤ old.streak+1 ∨
        config.quorumOf old.bucket = config.quorumOf (config.bucketOf volatilityBps) := by
  cases previous with
  | none => simp [VolatilityBuckets.damp]
  | some old =>
    unfold VolatilityBuckets.damp
    dsimp only [Option.map_some]
    split_ifs with hmoves
    · refine iff_of_true rfl fun o ho => ?_
      cases ho
      rcases hmoves with hle | hdue
      · exact .inl hle
      · exact .inr (.inl hdue)
    · rw [not_or] at hmoves
      constructor
      · intro hequal o ho
        cases ho
        exact .inr (.inr hequal.symm)
      · intro hsame
        exact (((hsame old rfl).resolve_left hmoves.1).resolve_left hmoves.2).symm

theorem serves_iff_settled
    (h : Follows st.getAdaptiveQuorumConfig history (st.adaptiveQuorum.state asset)) :
    ServesDamped asset (history ++ (target asset st x.2).toList) st x ↔
      Settled asset history st x.2 := by
  cases htarget : target asset st x.2 with
  | none =>
    obtain ⟨hstate,hfew⟩ := observe_unclassified htarget
    refine iff_of_true ⟨fun _ _ henough => ?_,fun _ _ b _ _ hb => ?_,fun old new hold hnew hlt => ?_⟩
      ⟨fun _ b _ hb => ?_,fun _ b _ hb => ?_⟩
    · rw [hfew] at henough
      cases henough
    · rw [htarget] at hb
      cases hb
    · rw [hstate,hold,Option.some.injEq] at hnew
      rw [hnew] at hlt
      exact (Nat.lt_irrefl _ hlt).elim
    · rw [htarget] at hb
      cases hb
    · rw [htarget] at hb
      cases hb
  | some b =>
    obtain ⟨v,n,rfl,hstate,hclassifies,hquorum⟩ := observe_classified htarget
    have hserved := (served_iff hclassifies (st.getAdaptiveQuorumConfig.damp
      (st.adaptiveQuorum.state asset) v n).quorum).trans
      ((iff_of_eq (congrArg (· = _) hquorum)).trans (damp_quorum_iff _ _ v n))
    -- the stored bucket, as the level that follows the targets
    have hfollows (old : QuorumRegime) (hold : st.adaptiveQuorum.state asset = some old) :
        (st.getAdaptiveQuorumConfig.damp (st.adaptiveQuorum.state asset) v n).bucket =
          (follow st.getAdaptiveQuorumConfig.relaxAfter (some (levelOf old))
            (st.getAdaptiveQuorumConfig.bucketOf v)).level := by
      have hlevel := (damp_follows st.getAdaptiveQuorumConfig
        (st.adaptiveQuorum.state asset) v n).1
      rw [hold,Option.map_some] at hlevel
      rw [← hlevel,hold]
      rfl
    constructor
    · intro hserves
      refine ⟨fun old b hold hb => ?_,fun old b hold hb hlt hdue => ?_⟩
      · rw [htarget] at hb
        cases hb
        exact hserved.1 (hserves.served _ hstate hclassifies) old hold
      · rw [htarget] at hb
        cases hb
        have hmoved : (follow st.getAdaptiveQuorumConfig.relaxAfter (some (levelOf old))
            (st.getAdaptiveQuorumConfig.bucketOf v)).level =
            st.getAdaptiveQuorumConfig.bucketOf v := by
          rw [follow,if_pos (.inr hdue)]
        refine (falls_sustained_iff (h.tracks old hold).1 (lt_of_eq_of_lt hmoved hlt)).1 ?_
        rw [← hfollows old hold]
        apply hserves.falls old _ hold hstate
        exact lt_of_eq_of_lt (hfollows old hold) (lt_of_eq_of_lt hmoved hlt)
    · intro hsettled
      refine ⟨fun regime hregime _ => ?_,fun old new b hold hnew hb hle => ?_,
        fun old new hold hnew hlt => ?_⟩
      · rw [hstate] at hregime
        cases hregime
        exact hserved.2 fun old hold => hsettled.level old _ hold htarget
      · rw [hstate] at hnew
        cases hnew
        rw [htarget] at hb
        cases hb
        exact (hfollows old hold).trans (follow_rises hle)
      · rw [hstate] at hnew
        cases hnew
        have hfell := lt_of_eq_of_lt (hfollows old hold).symm hlt
        obtain ⟨hdue,hbelow,-⟩ := level_of_falls hfell
        rw [hfollows old hold]
        exact (falls_sustained_iff (h.tracks old hold).1 hfell).2
          (hsettled.descent old _ hold htarget hbelow hdue)

end Serving

/-- In a run of observations of an asset, the quorum that is read and pinned is that of the damped
regime, which rises at once and falls only to a bucket that was sustained, exactly if no price
leaves a relaxation held back between two quorums and none completes a relaxation to less than
what it counted. -/
theorem damped_quorum_iff (asset : Address) (st : Store) (hst : Unobserved asset st)
    (xs : List (Env × Int)) :
    (∀ pre x post, xs = pre ++ x :: post →
      ServesDamped asset (targets asset st (pre ++ [x])) (run (observe asset) st pre) x) ↔
    ∀ pre x post, xs = pre ++ x :: post →
      Settled asset (targets asset st pre) (run (observe asset) st pre) x.2 := by
  refine forall₄_congr fun pre x post _ => ?_
  obtain ⟨hconfig,hfollows⟩ := run_follows hst pre
  rw [← hconfig] at hfollows
  rw [targets_concat]
  exact serves_iff_settled hfollows

def reports (prices : List Int) : List (Env × Int) :=
  prices.map fun price => (.concrete 5 20 [], price)

def jump : List (Env × Int) := reports [10000, 10010, 10020, 10920]

theorem jump_serves_damped : targets 10 {} jump = [0, 1] ∧
    ∀ pre x post, jump = pre ++ x :: post →
      ServesDamped 10 (targets 10 {} (pre ++ [x])) (run (observe 10) {} pre) x :=
  ⟨by decide,(damped_quorum_iff 10 {} rfl jump).2 (by
    intro pre x post hsplit
    have hcalm : ∀ n < 4, (((run (observe 10) {} (jump.take n)).adaptiveQuorum.state 10).map
        QuorumRegime.bucket).getD 0 = 0 := by decide
    have hlength : pre.length < 4 := by
      have hjump := congrArg List.length hsplit
      rw [List.length_append,List.length_cons] at hjump
      have hfour : jump.length = 4 := rfl
      omega
    have hlowest (old : QuorumRegime)
        (hold : (run (observe 10) {} pre).adaptiveQuorum.state 10 = some old) :
        old.bucket = 0 := by
      have hzero := hcalm pre.length hlength
      rw [hsplit,List.take_left,hold] at hzero
      exact hzero
    refine ⟨fun old b hold _ => .inl ?_,fun old b hold _ hlt _ => ?_⟩
    · rw [hlowest old hold]
      exact Nat.zero_le b
    · rw [hlowest old hold] at hlt
      exact (Nat.not_lt_zero b hlt).elim)⟩

/-- After a jump and a calmer price, the stored regime holds the quorum at five and three is read;
and a window of one return falls by two buckets after prices in the bucket between. -/
theorem calmer_price_relaxes :
    (let st := run (observe 10) {} (reports [10000, 10900, 11118, 11229])
     st.adaptiveQuorum.state 10 = some ⟨2, 5, 399, 3, 1⟩ ∧
       ∃ w, Model.effectiveQuorum 10 (World.enter (.concrete 5 20 []) st) = .ok 3 w) ∧
    (let st : Store := { adaptiveQuorum := { config := some ⟨[50, 500], [1, 3, 5], 3, 1, 1⟩ } }
     targets 10 st (reports [10000, 11000, 11200, 11400, 11410]) = [2, 1, 1, 0] ∧
       (run (observe 10) st (reports [10000, 11000, 11200, 11400, 11410])).adaptiveQuorum.state 10 =
         some ⟨0, 1, 8, 1, 0⟩) :=
  ⟨⟨by decide,_,rfl⟩,by decide⟩

end PriceOracle.AdaptiveQuorum
