import PriceOracle.AdaptiveQuorum.Damping

/-! # The window of returns

An observation appends the return against the price before it and drops what no longer fits the
window. The product of the return is one of 128 bits, so a jump near the top of the range wraps; and
a window that changes its size holds what the size before it left. -/

namespace PriceOracle.AdaptiveQuorum

open Lib.Transaction Lib.MachineInt Lib.Run Model

section Windows

variable {α : Type} {l : List α} {x y : α} {m n : Nat}

theorem rtake_rtake_concat : (l.rtake n ++ [x]).rtake n = (l ++ [x]).rtake n := by
  cases n with
  | zero => simp
  | succ n =>
    rw [List.rtake_concat_succ,List.rtake_concat_succ,List.rtake_eq_reverse_take_reverse,
      List.rtake_eq_reverse_take_reverse,List.rtake_eq_reverse_take_reverse,List.reverse_reverse,
      List.take_take,min_eq_left (Nat.le_succ n)]

theorem rtake_concat_inj (hn : 0 < n) : (l ++ [x]).rtake n = (l ++ [y]).rtake n ↔ x = y := by
  obtain ⟨k,rfl⟩ := Nat.exists_eq_succ_of_ne_zero hn.ne'
  rw [List.rtake_concat_succ,List.rtake_concat_succ,List.append_cancel_left_eq,List.cons.injEq,
    and_iff_left rfl]

theorem length_rtake : (l.rtake n).length = min n l.length := by
  rw [List.rtake_eq_reverse_take_reverse,List.length_reverse,List.length_take,List.length_reverse]

theorem rtake_eq_rtake_iff : l.rtake m = l.rtake n ↔ m = n ∨ l.length ≤ min m n := by
  constructor
  · intro h
    have hlen := congrArg List.length h
    rw [length_rtake,length_rtake] at hlen
    omega
  · rintro (rfl | hle)
    · rfl
    · unfold List.rtake
      rw [show l.length - m = 0 by omega,show l.length - n = 0 by omega]

end Windows

/-- The return of two consecutive prices: in basis points, rounded down, at most the largest value
of 32 bits. -/
def exactReturn (prev price : Int) : Nat :=
  min u32Max ((price - prev).natAbs * 10000 / prev.toNat)

/-- The product of the difference fits 128 bits, or what is left of it still exceeds the largest
return. -/
def Fits (prev price : Int) : Prop :=
  (price - prev).natAbs * 10000 < 2 ^ 128 ∨
    u32Max * prev.toNat ≤ (price - prev).natAbs * 10000 % 2 ^ 128

deriving instance Decidable for Fits

/-- The sample of a pair of positive prices is their exact return exactly if it fits. -/
theorem absReturnBps_eq_iff {prev price : Int} (hpos : 0 < prev) (hmax : prev ≤ i128Max) :
    absReturnBps (some prev) price = exactReturn prev price ↔ Fits prev price := by
  obtain ⟨p,hp⟩ : ∃ p, p = prev.toNat := ⟨_,rfl⟩
  obtain ⟨d,hd⟩ : ∃ d, d = (price - prev).natAbs * 10000 := ⟨_,rfl⟩
  have hppos : 0 < p := by omega
  have hpmax : p < 2 ^ 127 := by
    unfold i128Max at hmax
    omega
  unfold absReturnBps exactReturn Fits wrap128
  dsimp only [Option.getD_some]
  rw [← hd,← hp,min_comm]
  have hle : d % 2 ^ 128 / p ≤ d / p := Nat.div_le_div_right (Nat.mod_le d _)
  rw [← Nat.le_div_iff_mul_le hppos]
  constructor
  · by_contra hwraps
    -- the quotients agree below the limit although the dividends are 2 ^ 128 apart
    have hquotient : d % 2 ^ 128 / p = d / p := by omega
    have hlow := Nat.mul_div_le (d % 2 ^ 128) p
    have hhigh := Nat.lt_mul_div_succ d hppos
    rw [hquotient] at hlow
    rw [Nat.mul_add] at hhigh
    omega
  · rintro (hsmall | hlarge)
    · rw [Nat.mod_eq_of_lt hsmall]
    · omega

/-- The returns of observed prices, oldest first; a pair with a price that is not positive has
none. -/
def returns : List Int → List Nat
  | prev :: price :: rest =>
    (if 0 < prev ∧ 0 < price then [exactReturn prev price] else []) ++ returns (price :: rest)
  | _ => []

theorem returns_concat (ps : List Int) (price : Int) :
    returns (ps ++ [price]) = returns ps ++ (match ps.getLast? with
      | some prev => if 0 < prev ∧ 0 < price then [exactReturn prev price] else []
      | none => []) := by
  induction ps with
  | nil => rfl
  | cons p ps ih =>
    cases ps with
    | nil => simp [returns]
    | cons q ps =>
      rw [List.cons_append,List.cons_append,returns,← List.cons_append,ih,returns,
        List.append_assoc,List.getLast?_cons_cons]

/-- A call of the component, or a change elsewhere. -/
inductive WindowAct
  | call (c : QuorumCall)
  | elsewhere (rest : Store)

structure WindowTx where
  env : Env
  act : WindowAct

def execWindow (st : Store) (t : WindowTx) : Store :=
  match t.act with
  | .call c => execQuorum st ⟨t.env, c⟩
  | .elsewhere rest => { rest with adaptiveQuorum := st.adaptiveQuorum }

def WindowTx.price (asset : Address) (t : WindowTx) : Option Int :=
  match t.act with
  | .call (.observePrice a price) => if a = asset then some price else none
  | _ => none

/-- The prices observed of the asset, oldest first. -/
def prices (asset : Address) (ts : List WindowTx) : List Int := ts.filterMap (WindowTx.price asset)

/-- The window holds the most recent returns of these prices, as many of them as it has room
for. -/
def HoldsReturns (asset : Address) (history : List Int) (st : Store) : Prop :=
  st.volatilityWindow asset = (returns history).rtake st.getAdaptiveQuorumConfig.window

/-- The return of an observation fits, and a window that changes its size has not been full. -/
def WindowTx.Exact (asset : Address) (history : List Int) (st : Store) (t : WindowTx) : Prop :=
  match t.act with
  | .call (.observePrice a price) =>
    a = asset → ∀ prev ∈ history.getLast?, 0 < prev → 0 < price → Fits prev price
  | .call (.setAdaptiveQuorumConfig config) =>
    failure (Model.setAdaptiveQuorumConfig config) t.env st = none →
      st.getAdaptiveQuorumConfig.window = config.window ∨
        (returns history).length ≤ min st.getAdaptiveQuorumConfig.window config.window
  | _ => True

/-- The last observed price is the reference of the next one, and the window has room. -/
structure Remembers (asset : Address) (history : List Int) (st : Store) : Prop where
  last : st.adaptiveQuorum.lastPrice asset = history.getLast?
  roomy : 0 < st.getAdaptiveQuorumConfig.window

section Steps

variable {asset : Address} {history : List Int} {st : Store} {env : Env} {w : World}

theorem observePrice_traces (a b : Address) (price : Int) :
    Sat (Model.observePrice a price) w fun _ w' =>
      w'.store.getAdaptiveQuorumConfig = w.store.getAdaptiveQuorumConfig ∧
      w'.store.volatilityWindow b =
        (if b = a then observedWindow a w.store price else w.store.volatilityWindow b) ∧
      w'.store.adaptiveQuorum.lastPrice b =
        if b = a then some price else w.store.adaptiveQuorum.lastPrice b := by
  refine (classify_sat _ _).mono fun _ w' hw => ?_
  unfold Store.volatilityWindow Store.getAdaptiveQuorumConfig
  rw [hw]
  dsimp only
  refine ⟨rfl,?_,Function.update_apply _ _ _ _⟩
  by_cases hb : b = a
  · rw [if_pos hb,hb]
    split_ifs with hmeasures
    · rw [Function.update_self]
      rfl
    · rw [observedWindow,VolatilityBuckets.observed,if_neg hmeasures]
      rfl
  · split_ifs with hmeasures
    · rw [Function.update_of_ne hb]
    · rfl

theorem pinRoundQuorum_traces (a : Address) (round : Nat) :
    Sat (Model.pinRoundQuorum a round) w fun _ w' =>
      w'.store.volatilityWindow asset = w.store.volatilityWindow asset ∧
        w'.store.getAdaptiveQuorumConfig = w.store.getAdaptiveQuorumConfig ∧
        w'.store.adaptiveQuorum.lastPrice asset = w.store.adaptiveQuorum.lastPrice asset := by
  simp only [Model.pinRoundQuorum,sat_bind,sat_readStore,sat_ensure,modifyAdaptiveQuorum,
    sat_update,sat_pure]
  exact fun _ => ⟨rfl,rfl,trivial⟩

theorem setAdaptiveQuorumConfig_sat (config : VolatilityBuckets) :
    Sat (Model.setAdaptiveQuorumConfig config) w fun _ w' =>
      0 < config.window ∧
        w'.store.adaptiveQuorum = { w.store.adaptiveQuorum with config := some config } := by
  refine (sat_asAdmin _).2 fun _ _ _ => ?_
  simp only [sat_bind,sat_ensure,modifyAdaptiveQuorum,sat_update]
  intro hvalid
  simp only [VolatilityBuckets.valid,Bool.and_eq_true,decide_eq_true_eq] at hvalid
  exact ⟨Nat.pos_of_ne_zero hvalid.1.2,rfl⟩

theorem observe_exact_iff {price : Int} (hrem : Remembers asset history st)
    (htyped : ∀ p ∈ history, p ≤ i128Max) (hholds : HoldsReturns asset history st) :
    (observedWindow asset st price =
        (returns (history ++ [price])).rtake st.getAdaptiveQuorumConfig.window) ↔
      ∀ prev ∈ history.getLast?, 0 < prev → 0 < price → Fits prev price := by
  rw [returns_concat,observedWindow,hrem.last,hholds]
  unfold VolatilityBuckets.observed measures
  cases hlast : history.getLast? with
  | none => simp
  | some prev =>
    simp only [Option.any_some,decide_eq_true_eq,Option.mem_def,Option.some.injEq,forall_eq']
    by_cases hpos : 0 < prev ∧ 0 < price
    · rw [if_pos hpos,if_pos hpos,← List.rtake,rtake_rtake_concat,rtake_concat_inj hrem.roomy,
        absReturnBps_eq_iff hpos.1 (htyped prev (List.mem_of_getLast? hlast))]
      simp [hpos]
    · rw [if_neg hpos,if_neg hpos,List.append_nil]
      exact iff_of_true rfl fun hprev hprice => (hpos ⟨hprev,hprice⟩).elim

/-- One step follows the prices, and keeps the window exact exactly if it is an exact one. -/
theorem window_step (hrem : Remembers asset history st) (htyped : ∀ p ∈ history, p ≤ i128Max)
    (t : WindowTx) :
    Remembers asset (history ++ (t.price asset).toList) (execWindow st t) ∧
      (HoldsReturns asset history st →
        (HoldsReturns asset (history ++ (t.price asset).toList) (execWindow st t) ↔
          t.Exact asset history st)) := by
  have hquiet (st' : Store) (hwindow : st'.volatilityWindow asset = st.volatilityWindow asset)
      (hconfig : st'.getAdaptiveQuorumConfig = st.getAdaptiveQuorumConfig)
      (hlast : st'.adaptiveQuorum.lastPrice asset = st.adaptiveQuorum.lastPrice asset) :
      Remembers asset (history ++ []) st' ∧ (HoldsReturns asset history st →
        HoldsReturns asset (history ++ []) st') := by
    rw [List.append_nil]
    refine ⟨⟨hlast.trans hrem.last,by rw [hconfig]; exact hrem.roomy⟩,fun hholds => ?_⟩
    rw [HoldsReturns,hwindow,hconfig]
    exact hholds
  obtain ⟨env,act⟩ := t
  cases act with
  | elsewhere rest =>
    obtain ⟨hnext,hsame⟩ := hquiet { rest with adaptiveQuorum := st.adaptiveQuorum } rfl rfl rfl
    exact ⟨hnext,fun hholds => iff_of_true (hsame hholds) trivial⟩
  | call c =>
    cases c with
    | pinRoundQuorum a round =>
      have hpin : let st' := invoke (Model.pinRoundQuorum a round) env st
          st'.volatilityWindow asset = st.volatilityWindow asset ∧
            st'.getAdaptiveQuorumConfig = st.getAdaptiveQuorumConfig ∧
            st'.adaptiveQuorum.lastPrice asset = st.adaptiveQuorum.lastPrice asset :=
        invoke_of_sat (P := fun s => s.volatilityWindow asset = st.volatilityWindow asset ∧
          s.getAdaptiveQuorumConfig = st.getAdaptiveQuorumConfig ∧
          s.adaptiveQuorum.lastPrice asset = st.adaptiveQuorum.lastPrice asset) ⟨rfl,rfl,rfl⟩
          (pinRoundQuorum_traces a round)
      obtain ⟨hnext,hsame⟩ := hquiet _ hpin.1 hpin.2.1 hpin.2.2
      exact ⟨hnext,fun hholds => iff_of_true (hsame hholds) trivial⟩
    | observePrice a price =>
      have hsucceeds : failure (Model.observePrice a price) env st = none :=
        succeeds_of_no_failure (observePrice_fails price _)
      obtain ⟨hconfig,hwindow,hlast⟩ := invoke_of_success
        (Q := fun s => s.getAdaptiveQuorumConfig = st.getAdaptiveQuorumConfig ∧
          s.volatilityWindow asset =
            (if asset = a then observedWindow a st price else st.volatilityWindow asset) ∧
          s.adaptiveQuorum.lastPrice asset =
            if asset = a then some price else st.adaptiveQuorum.lastPrice asset)
        hsucceeds (observePrice_traces a asset price)
      by_cases ha : a = asset
      · subst ha
        rw [if_pos rfl] at hwindow hlast
        simp only [WindowTx.price,WindowTx.Exact,execWindow,execQuorum,if_true,
          Option.toList_some,forall_const]
        refine ⟨⟨by rw [hlast,List.getLast?_concat],by rw [hconfig]; exact hrem.roomy⟩,
          fun hholds => ?_⟩
        rw [HoldsReturns,hwindow,hconfig]
        exact observe_exact_iff hrem htyped hholds
      · rw [if_neg (Ne.symm ha)] at hwindow hlast
        obtain ⟨hnext,hsame⟩ := hquiet _ hwindow hconfig hlast
        simp only [WindowTx.price,WindowTx.Exact,ha,false_implies]
        exact ⟨hnext,fun hholds => iff_of_true (hsame hholds) trivial⟩
    | setAdaptiveQuorumConfig config =>
      simp only [WindowTx.price,WindowTx.Exact,execWindow,execQuorum,Option.toList_none,
        List.append_nil]
      rcases invoke_cases (setAdaptiveQuorumConfig_sat (w := World.enter env st) config) with
        ⟨hfail,hst,-⟩ | ⟨hok,w,⟨hroomy,hset⟩,hw,-⟩
      · rw [hst]
        exact ⟨hrem,fun hholds => iff_of_true hholds fun hok => (hfail hok).elim⟩
      · rw [hw] at hset
        have hconfig : (invoke (Model.setAdaptiveQuorumConfig config) env
            st).getAdaptiveQuorumConfig = config := by
          rw [Store.getAdaptiveQuorumConfig,hset]
          rfl
        refine ⟨⟨by rw [hset]; exact hrem.last,by rw [hconfig]; exact hroomy⟩,fun hholds => ?_⟩
        rw [HoldsReturns,hconfig,Store.volatilityWindow,hset,forall_prop_of_true hok,
          ← rtake_eq_rtake_iff,← hholds]
        exact Iff.rfl

theorem run_remembers {asset : Address} {st : Store} (hst : Remembers asset [] st)
    {ts : List WindowTx} (htyped : ∀ p ∈ prices asset ts, IsI128 p) :
    Remembers asset (prices asset ts) (run execWindow st ts) := by
  induction ts using List.reverseRecOn with
  | nil => exact hst
  | append_singleton ts t ih =>
    unfold prices at htyped
    rw [filterMap_concat,List.forall_mem_append] at htyped
    rw [run_concat,prices,filterMap_concat]
    exact (window_step (ih htyped.1) (fun p hp => (htyped.1 p hp).2) t).1

end Steps

/-- In a run of observations, configurations and pins from a state that has observed nothing of the
asset, its window holds the most recent exact returns of the observed prices at every point exactly
if every product of a return fits 128 bits, or is cut to a return at the limit, and no window that
has been full changes its size. -/
theorem window_exact_iff (asset : Address) (st : Store)
    (hlast : st.adaptiveQuorum.lastPrice asset = none) (hempty : st.volatilityWindow asset = [])
    (hroomy : 0 < st.getAdaptiveQuorumConfig.window) (ts : List WindowTx)
    (htyped : ∀ p ∈ prices asset ts, IsI128 p) :
    (∀ pre, pre <+: ts → HoldsReturns asset (prices asset pre) (run execWindow st pre)) ↔
      ∀ pre t post, ts = pre ++ t :: post →
        t.Exact asset (prices asset pre) (run execWindow st pre) := by
  refine forall_prefixes_iff ?_ fun pre t post hsplit hpre => ?_
  · simp [HoldsReturns,prices,returns,hempty]
  · have hbefore (p : Int) (hp : p ∈ prices asset pre) : IsI128 p := by
      refine htyped p ?_
      rw [hsplit,prices,List.filterMap_append]
      exact List.mem_append_left _ hp
    have hrem : Remembers asset (prices asset pre) (run execWindow st pre) :=
      run_remembers ⟨hlast,hroomy⟩ hbefore
    rw [run_concat,prices,filterMap_concat]
    exact (window_step hrem (fun p hp => (hbefore p hp).2) t).2 hpre

/-- Observations of one asset, as anyone makes them. -/
def observations (ps : List Int) : List WindowTx :=
  ps.map fun price => ⟨.concrete 5 20 [], .call (.observePrice 10 price)⟩

theorem calm_window_exact :
    prices 10 (observations [10000, 10010, 10020]) = [10000, 10010, 10020] ∧
      ∀ pre, pre <+: observations [10000, 10010, 10020] →
        HoldsReturns 10 (prices 10 pre) (run execWindow {} pre) := by
  refine ⟨rfl,(window_exact_iff 10 {} rfl rfl (by decide) (observations [10000,10010,10020])
    (by unfold IsI128; decide +kernel)).2 ?_⟩
  refine forall_splits_cons ?_ (forall_splits_cons ?_ (forall_splits_cons ?_ forall_splits_nil))
  all_goals
    simp only [WindowTx.Exact]
    decide +kernel

/-- The price jumps to the top of its range: the product of the difference wraps, and what is left
of it makes a return that is neither the exact one nor the limit. -/
theorem jump_wraps : ¬∀ pre, pre <+: observations [3 * 2 ^ 96, 2 ^ 127 - 1] →
    HoldsReturns 10 (prices 10 pre) (run execWindow {} pre) := by
  intro hholds
  have hwindow := hholds _ (List.prefix_refl _)
  unfold HoldsReturns at hwindow
  revert hwindow
  decide +kernel

end PriceOracle.AdaptiveQuorum
