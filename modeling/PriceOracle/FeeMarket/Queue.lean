import PriceOracle.Aggregation.Completion
import PriceOracle.Lib.Queues
import PriceOracle.Lib.Run
import Mathlib.Algebra.BigOperators.Group.Finset.Basic
import Mathlib.Algebra.Order.BigOperators.Group.Finset

/-! # The queue and the money of the fee market

A queued submission waits behind every earlier one of its priority, and its fee waits with it in
the pool. A run of the market loses no submission, serves none twice, and splits what it collected
without a remainder. -/

namespace PriceOracle.FeeMarket

open Lib.Transaction Lib.MachineInt Lib.Run Lib.StableQueue Model Aggregation
open scoped BigOperators

/-- Higher fees come first, then earlier timestamps. -/
def priority (x : FeeMarketSubmission) : Lex (ℕᵒᵈ × ℕ) :=
  toLex (OrderDual.toDual x.priorityFee, x.timestamp)

theorem enqueue_eq (x : FeeMarketSubmission) (xs : List FeeMarketSubmission) :
    enqueue x xs = place priority x xs := by
  induction xs with
  | nil => rfl
  | cons y ys ih =>
    unfold enqueue place
    rw [ih]
    refine if_congr ?_ rfl rfl
    rw [priority,priority,Prod.Lex.toLex_lt_toLex,OrderDual.toDual_lt_toDual,OrderDual.toDual_inj]

def totalFees (xs : List FeeMarketSubmission) : Nat := (xs.map FeeMarketSubmission.priorityFee).sum

/-- What the processed fees became: the sources in `S` and the treasury hold `total` of them. -/
structure Credited (m : Model.FeeMarket) (S : Finset Address) (total : Nat) : Prop where
  outside : ∀ a ∉ S, (m.sourceFeeBalance a).getD 0 = 0
  total : ∑ a ∈ S, (m.sourceFeeBalance a).getD 0 + m.treasuryBalance.getD 0 = total

/-- The fee pool is the fees that wait and the fees that were credited. -/
def Conserved (m : Model.FeeMarket) : Prop :=
  ∃ S total, Credited m S total ∧ m.feePool.getD 0 = totalFees m.pending + total

section Fees

/-- The effect of `distributeFee` on the market. -/
def credit (ratio : Nat) (m : Model.FeeMarket) (x : FeeMarketSubmission) : Model.FeeMarket :=
  let sourceShare := min (x.priorityFee * ratio) u128Max / 100
  { m with
    sourceFeeBalance := Function.update m.sourceFeeBalance x.source
      (some (min ((m.sourceFeeBalance x.source).getD 0 + sourceShare) u128Max))
    treasuryBalance :=
      some (min (m.treasuryBalance.getD 0 + (x.priorityFee - sourceShare)) u128Max) }

variable {m : Model.FeeMarket} {S : Finset Address} {total ratio : Nat}

theorem Credited.widen (h : Credited m S total) (a : Address) : Credited m (insert a S) total where
  outside b hb := h.outside b fun hS => hb (Finset.mem_insert_of_mem hS)
  total := by
    by_cases ha : a ∈ S
    · rw [Finset.insert_eq_of_mem ha]
      exact h.total
    · rw [Finset.sum_insert ha,h.outside a ha,Nat.zero_add]
      exact h.total

/-- A fee that fits beside what was credited is credited in full. -/
theorem Credited.pay (h : Credited m S total) (hratio : ratio ≤ 100) (x : FeeMarketSubmission)
    (hfits : total + x.priorityFee ≤ u128Max) :
    Credited (credit ratio m x) (insert x.source S) (total + x.priorityFee) := by
  have hmem : x.source ∈ insert x.source S := Finset.mem_insert_self _ _
  have hsum := (h.widen x.source).total
  rw [← Finset.add_sum_erase _ _ hmem] at hsum
  have hshare : min (x.priorityFee * ratio) u128Max / 100 ≤ x.priorityFee := by
    have hprod : x.priorityFee * ratio ≤ x.priorityFee * 100 := Nat.mul_le_mul_left _ hratio
    omega
  refine ⟨fun a ha => ?_,?_⟩
  · have hne : a ≠ x.source := fun heq => ha (heq ▸ hmem)
    simp only [credit,Function.update_of_ne hne]
    exact (h.widen x.source).outside a ha
  · have hrest : ∑ a ∈ (insert x.source S).erase x.source,
        ((credit ratio m x).sourceFeeBalance a).getD 0 =
        ∑ a ∈ (insert x.source S).erase x.source, (m.sourceFeeBalance a).getD 0 := by
      refine Finset.sum_congr rfl fun a ha => ?_
      simp only [credit,Function.update_of_ne (Finset.ne_of_mem_erase ha)]
    rw [← Finset.add_sum_erase _ _ hmem,hrest]
    simp only [credit,Function.update_self,Option.getD_some]
    omega

theorem foldl_credit_same (xs : List FeeMarketSubmission) :
    (xs.foldl (credit ratio) m).feePool = m.feePool ∧
      (xs.foldl (credit ratio) m).pending = m.pending := by
  induction xs generalizing m with
  | nil => exact ⟨rfl,rfl⟩
  | cons x xs ih => exact ih

theorem Credited.foldl (h : Credited m S total) (hratio : ratio ≤ 100)
    {xs : List FeeMarketSubmission} (hfits : total + totalFees xs ≤ u128Max) :
    ∃ S', Credited (xs.foldl (credit ratio) m) S' (total + totalFees xs) := by
  induction xs generalizing m S total with
  | nil => exact ⟨S,h⟩
  | cons x xs ih =>
    simp only [totalFees,List.map_cons,List.sum_cons] at hfits ⊢
    rw [← Nat.add_assoc] at hfits ⊢
    exact ih (h.pay hratio x (by omega)) hfits

theorem totalFees_enqueue (x : FeeMarketSubmission) (xs : List FeeMarketSubmission) :
    totalFees (enqueue x xs) = x.priorityFee + totalFees xs := by
  rw [totalFees,enqueue_eq,((place_perm priority x xs).map _).sum_eq,List.map_cons,List.sum_cons]
  rfl

/-- What is served leaves the queue and is credited. -/
theorem Conserved.serve (h : Conserved m) (hpool : m.feePool.getD 0 ≤ u128Max)
    (hratio : ratio ≤ 100) (n : Nat) :
    Conserved { (m.pending.take n).foldl (credit ratio) m with pending := m.pending.drop n } := by
  obtain ⟨S,total,hcredited,htotal⟩ := h
  have hsplit : totalFees m.pending = totalFees (m.pending.take n) + totalFees (m.pending.drop n) := by
    unfold totalFees
    rw [← List.sum_append,← List.map_append,List.take_append_drop]
  have hfits : total + totalFees (m.pending.take n) ≤ u128Max := by omega
  obtain ⟨S',hafter⟩ := hcredited.foldl hratio hfits
  refine ⟨S',total + totalFees (m.pending.take n),⟨hafter.outside,hafter.total⟩,?_⟩
  dsimp only
  rw [(foldl_credit_same _).1]
  omega

end Fees

inductive FeeMarketCall
  | enqueueSubmission (source asset : Address) (price timestamp priorityFee : Nat)
  | processFeeMarket
  | setMinPriorityFee (minFee : Nat)
  | setFeeDistributionRatio (ratio : Nat)

namespace FeeMarketCall

def body : FeeMarketCall → Contract Unit
  | enqueueSubmission source asset price timestamp priorityFee =>
    Model.enqueueSubmission source asset price timestamp priorityFee
  | processFeeMarket => Model.processFeeMarket
  | setMinPriorityFee minFee => Model.setMinPriorityFee minFee
  | setFeeDistributionRatio ratio => Model.setFeeDistributionRatio ratio

/-- The submission a successful call adds to the queue. -/
def added (env : Env) : FeeMarketCall → List FeeMarketSubmission
  | enqueueSubmission source asset price timestamp priorityFee =>
    [⟨source, asset, wrap price, timestamp, priorityFee, env.sequence⟩]
  | _ => []

/-- The submissions a successful call takes from the head of the queue and applies. -/
def taken (st : Store) : FeeMarketCall → List FeeMarketSubmission
  | processFeeMarket => st.feeMarket.pending.take maxProcessPerLedger
  | _ => []

end FeeMarketCall

/-- A call, or a change of storage that leaves the market and its ratio as they are. -/
inductive FeeMarketAct
  | call (call : FeeMarketCall)
  | elsewhere (rest : Store)

structure FeeMarketTx where
  env : Env
  act : FeeMarketAct

def execFeeMarket (st : Store) (t : FeeMarketTx) : Store :=
  match t.act with
  | .call call => invoke call.body t.env st
  | .elsewhere rest => { rest with
      feeMarket := st.feeMarket
      config := { rest.config with fmFeeDistributionRatio := st.config.fmFeeDistributionRatio } }

def FeeMarketTx.added (st : Store) (t : FeeMarketTx) : List FeeMarketSubmission :=
  match t.act with
  | .call call => if failure call.body t.env st = none then call.added t.env else []
  | .elsewhere _ => []

def FeeMarketTx.taken (st : Store) (t : FeeMarketTx) : List FeeMarketSubmission :=
  match t.act with
  | .call call => if failure call.body t.env st = none then call.taken st else []
  | .elsewhere _ => []

section Calls

variable {w : World} (source asset : Address)

/-- What a submission through the market writes outside the market. -/
def outsideMarket : List Region :=
  [.stats, .submissions, .aggregates, .rounds, .history, .provenance, .corrections]

theorem storeSubmission_frame (asset source : Address) (price : Int) (timestamp : Nat) :
    Frame outsideMarket (storeSubmission asset source price timestamp none) :=
  .read fun _ => (writeSubmission_frame _ _ _).mono (by decide)

theorem recordSuccessfulSubmission_frame (source : Address) :
    Frame outsideMarket (recordSuccessfulSubmission source) :=
  Preserves.bind (.read fun _ => .read fun _ => (modifyStats_frame _).mono (by decide))
    fun _ => (modifyStats_frame _).mono (by decide)

theorem aggregateAfterSubmission_frame (asset : Address) :
    Frame outsideMarket (aggregateAfterSubmission asset) := by
  have hR : RespectsRounds (layout.agreeOff outsideMarket) := respectsRounds_of_regions (by decide)
  refine (maybeAggregateAfterSubmission_preserves hR asset).bind fun enough => ?_
  split_ifs
  · exact doAggregate_preserves hR asset
  · exact preserves_pure _

theorem submitPriceInternal_frame (price : Int) (timestamp : Nat) :
    Frame outsideMarket (submitPriceInternal source asset price timestamp) := by
  refine (checkSource_frame source).bind fun _ => (checkRegisteredAsset_frame asset).bind
    fun _ => (checkSourceAsset_frame source asset).bind fun _ =>
    enforceCommitRevealForBft_frame.bind fun _ => .check fun _ =>
    .read fun tripped => ?_
  split_ifs
  · exact preserves_pure _
  · exact (storeSubmission_frame asset source price timestamp).bind fun _ =>
      (recordSuccessfulSubmission_frame source).bind fun _ => aggregateAfterSubmission_frame asset

theorem processSubmission_market (x : FeeMarketSubmission) (w : World) :
    Sat (processSubmission x) w fun _ w' =>
      (w'.store.feeMarket,w'.store.config) =
        (credit w.store.getFeeDistributionRatio w.store.feeMarket x,w.store.config) := by
  refine ((submitPriceInternal_frame x.source x.asset x.price x.timestamp) w).andThen
    fun _ t ht => ?_
  have hmarket : t.store.feeMarket = w.store.feeMarket := ht .feeMarket (by decide)
  have hconfig : t.store.config = w.store.config := ht .config (by decide)
  simp only [distributeFee,sat_bind,sat_readStore,modifyFeeMarket,sat_update]
  rw [hmarket,hconfig]
  rfl

theorem foldl_credit_config (c : Config) (m : Model.FeeMarket) (xs : List FeeMarketSubmission) :
    xs.foldl (fun v x => (credit (v.2.fmFeeDistributionRatio.getD 80) v.1 x,v.2)) (m,c) =
      (xs.foldl (credit (c.fmFeeDistributionRatio.getD 80)) m,c) := by
  induction xs generalizing m with
  | nil => rfl
  | cons x xs ih => exact ih _

theorem processFeeMarket_market :
    Sat Model.processFeeMarket w fun _ w' => w'.store.config = w.store.config ∧
      w'.store.feeMarket =
        { (w.store.feeMarket.pending.take maxProcessPerLedger).foldl (credit w.store.getFeeDistributionRatio)
            w.store.feeMarket with
          pending := w.store.feeMarket.pending.drop maxProcessPerLedger } := by
  refine (sat_forM_view (fun w : World => (w.store.feeMarket,w.store.config))
    (fun v x => (credit (v.2.fmFeeDistributionRatio.getD 80) v.1 x,v.2))
    (fun x _ t => processSubmission_market x t) w).andThen fun _ t ht => ?_
  rw [foldl_credit_config,Prod.mk.injEq] at ht
  simp only [modifyFeeMarket,sat_update]
  rw [ht.1,ht.2]
  exact ⟨rfl,rfl⟩

theorem enqueueSubmission_market (price timestamp priorityFee : Nat) :
    Sat (Model.enqueueSubmission source asset price timestamp priorityFee) w fun _ w' =>
      w'.store.config = w.store.config ∧ w'.store.feeMarket = { w.store.feeMarket with
        pending := enqueue ⟨source,asset,wrap price,timestamp,priorityFee,w.env.sequence⟩
          w.store.feeMarket.pending
        feePool := some (min (w.store.feeMarket.feePool.getD 0 + priorityFee) u128Max) } := by
  simp only [Model.enqueueSubmission,sat_bind,sat_requireAuth,sat_readStore,sat_ensure]
  intro _ _
  refine (checkRegisteredAsset_frame (T := []) asset _).mono fun _ t ht => ?_
  have hmarket : t.store.feeMarket = w.store.feeMarket := ht .feeMarket (by simp)
  have hconfig : t.store.config = w.store.config := ht .config (by simp)
  have henv : t.env = w.env := ht .env (by simp)
  simp only [sat_getSequence,modifyFeeMarket,sat_update]
  intro _ _
  rw [hmarket,hconfig,henv]
  exact ⟨rfl,rfl⟩

/-- What a call leaves of the market: the queue with the new submission or without the taken ones. -/
theorem FeeMarketCall.body_market (call : FeeMarketCall)
    (hratio : w.store.getFeeDistributionRatio ≤ 100) :
    Sat call.body w fun _ w' => w'.store.getFeeDistributionRatio ≤ 100 ∧
      (Conserved w.store.feeMarket → w.store.feeMarket.feePool.getD 0 ≤ u128Max →
        (∀ x ∈ call.added w.env,
          w.store.feeMarket.feePool.getD 0 + x.priorityFee ≤ u128Max) →
        Conserved w'.store.feeMarket ∧ w'.store.feeMarket.feePool.getD 0 ≤ u128Max) ∧
      ∀ arrived served, Fair priority arrived served w.store.feeMarket.pending →
        Fair priority (arrived ++ call.added w.env) (served ++ call.taken w.store)
          w'.store.feeMarket.pending := by
  cases call with
  | enqueueSubmission source asset price timestamp priorityFee =>
    refine (enqueueSubmission_market source asset price timestamp priorityFee).mono ?_
    rintro _ w' ⟨hconfig,hmarket⟩
    refine ⟨?_,?_,?_⟩
    · unfold Store.getFeeDistributionRatio
      rwa [hconfig]
    · rintro ⟨S,total,hcredited,htotal⟩ _ hroom
      have hfits : w.store.feeMarket.feePool.getD 0 + priorityFee ≤ u128Max :=
        hroom _ (List.mem_singleton_self _)
      rw [hmarket]
      refine ⟨⟨S,total,⟨hcredited.outside,hcredited.total⟩,?_⟩,Nat.min_le_right _ _⟩
      simp only [Option.getD_some,totalFees_enqueue]
      omega
    · intro arrived served hfair
      rw [hmarket]
      simp only [added,taken,List.append_nil,enqueue_eq]
      exact hfair.arrive _
  | processFeeMarket =>
    refine processFeeMarket_market.mono ?_
    rintro _ w' ⟨hconfig,hmarket⟩
    refine ⟨?_,?_,?_⟩
    · unfold Store.getFeeDistributionRatio
      rwa [hconfig]
    · intro hconserved hpool _
      rw [hmarket]
      refine ⟨hconserved.serve hpool hratio maxProcessPerLedger,?_⟩
      rwa [(foldl_credit_same _).1]
    · intro arrived served hfair
      rw [hmarket]
      simp only [added,taken,List.append_nil]
      exact hfair.serve maxProcessPerLedger
  | setMinPriorityFee minFee =>
    refine (sat_asAdmin _).2 fun admin _ _ => ?_
    simp only [modifyConfig,sat_update,added,taken,List.append_nil]
    exact ⟨hratio,fun h hpool _ => ⟨h,hpool⟩,fun _ _ h => h⟩
  | setFeeDistributionRatio ratio =>
    refine (sat_asAdmin _).2 fun admin _ _ => ?_
    simp only [sat_bind,sat_ensure,modifyConfig,sat_update,added,taken,List.append_nil]
    intro hle
    exact ⟨hle,fun h hpool _ => ⟨h,hpool⟩,fun _ _ h => h⟩

end Calls

/-- The pool has room for the fee of a submission that a step adds. -/
def HasRoom (st : Store) (t : FeeMarketTx) : Prop :=
  ∀ x ∈ t.added st, st.feeMarket.feePool.getD 0 + x.priorityFee ≤ u128Max

deriving instance Decidable for HasRoom

def arrivals (st : Store) (ts : List FeeMarketTx) : List FeeMarketSubmission :=
  (steps execFeeMarket st ts).flatMap fun x => x.2.added x.1

def processed (st : Store) (ts : List FeeMarketTx) : List FeeMarketSubmission :=
  (steps execFeeMarket st ts).flatMap fun x => x.2.taken x.1

section Runs

variable {st : Store} {t : FeeMarketTx}

theorem execFeeMarket_market (hratio : st.getFeeDistributionRatio ≤ 100) :
    (execFeeMarket st t).getFeeDistributionRatio ≤ 100 ∧
      (Conserved st.feeMarket → st.feeMarket.feePool.getD 0 ≤ u128Max → HasRoom st t →
        Conserved (execFeeMarket st t).feeMarket ∧
          (execFeeMarket st t).feeMarket.feePool.getD 0 ≤ u128Max) ∧
      ∀ arrived served, Fair priority arrived served st.feeMarket.pending →
        Fair priority (arrived ++ t.added st) (served ++ t.taken st)
          (execFeeMarket st t).feeMarket.pending := by
  unfold HasRoom execFeeMarket FeeMarketTx.added FeeMarketTx.taken
  cases t.act with
  | elsewhere rest => simpa using ⟨hratio,fun h hpool => ⟨h,hpool⟩⟩
  | call call =>
    dsimp only
    have hbody := call.body_market (w := World.enter t.env st) hratio
    rcases invoke_cases hbody with ⟨hfail,hst,-⟩ | ⟨hok,w,hw,hst,-⟩
    · rw [if_neg hfail,if_neg hfail,hst]
      simpa using ⟨hratio,fun h hpool => ⟨h,hpool⟩⟩
    · rw [if_pos hok,if_pos hok,← hst]
      exact hw

theorem run_fair (hratio : st.getFeeDistributionRatio ≤ 100) (ts : List FeeMarketTx)
    {arrived served : List FeeMarketSubmission}
    (h : Fair priority arrived served st.feeMarket.pending) :
    Fair priority (arrived ++ arrivals st ts) (served ++ processed st ts)
      (run execFeeMarket st ts).feeMarket.pending := by
  induction ts generalizing st arrived served with
  | nil => simpa [arrivals,processed] using h
  | cons t ts ih =>
    obtain ⟨hratio',-,hstep⟩ := execFeeMarket_market (t := t) hratio
    have hrest := ih hratio' (hstep arrived served h)
    simpa [arrivals,processed] using hrest

theorem run_conserved (hratio : st.getFeeDistributionRatio ≤ 100) (ts : List FeeMarketTx)
    (h : Conserved st.feeMarket) (hpool : st.feeMarket.feePool.getD 0 ≤ u128Max)
    (hroom : ∀ x ∈ steps execFeeMarket st ts, HasRoom x.1 x.2) :
    Conserved (run execFeeMarket st ts).feeMarket := by
  have hstep (s : Store) (t : FeeMarketTx)
      (hs : s.getFeeDistributionRatio ≤ 100 ∧ Conserved s.feeMarket ∧
        s.feeMarket.feePool.getD 0 ≤ u128Max) (hC : HasRoom s t) :
      True ∧ (execFeeMarket s t).getFeeDistributionRatio ≤ 100 ∧
        Conserved (execFeeMarket s t).feeMarket ∧
        (execFeeMarket s t).feeMarket.feePool.getD 0 ≤ u128Max := by
    obtain ⟨hratio',hconserved,-⟩ := execFeeMarket_market (t := t) hs.1
    exact ⟨trivial,hratio',hconserved hs.2.1 hs.2.2 hC⟩
  exact (steps_satisfy (P := fun _ _ => True) hstep ⟨hratio,h,hpool⟩ hroom).2.2.1

end Runs

/-- In a run from an empty market the queue is ordered by priority, submissions of one priority are
processed in the order of their arrival, each submission waits once or was processed once, and the
pool equals the fees that wait and the fees credited to sources and treasury unless it saturated. -/
theorem fee_market_sound (st : Store) (hempty : st.feeMarket = {})
    (hratio : st.getFeeDistributionRatio ≤ 100) (ts : List FeeMarketTx) :
    Fair priority (arrivals st ts) (processed st ts) (run execFeeMarket st ts).feeMarket.pending ∧
      (arrivals st ts).Perm (processed st ts ++ (run execFeeMarket st ts).feeMarket.pending) ∧
      ((∀ x ∈ steps execFeeMarket st ts, HasRoom x.1 x.2) →
        Conserved (run execFeeMarket st ts).feeMarket) := by
  have hfair : Fair priority (arrivals st ts) (processed st ts)
      (run execFeeMarket st ts).feeMarket.pending := by
    have hstart : Fair priority [] [] st.feeMarket.pending := by
      rw [hempty]
      exact fair_nil
    simpa using run_fair hratio ts hstart
  refine ⟨hfair,hfair.perm,run_conserved hratio ts ?_ ?_⟩
  · rw [hempty]
    exact ⟨∅,0,⟨fun _ _ => rfl,rfl⟩,rfl⟩
  · rw [hempty]
    exact Nat.zero_le _

/-- Asset `10` and source `1`; two sources would make a quorum. -/
def marketStore : Store where
  config := { minSources := some 2 }
  registry := { assetIndex := fun a => if a = 10 then some true else none
                srcActive := fun a => if a = 1 then some true else none }

/-- Source `1` pays `fee` for a price of time `timestamp`. -/
def offer (timestamp fee : Nat) : FeeMarketTx :=
  ⟨.concrete 5 20 [1], .call (.enqueueSubmission 1 10 100 timestamp fee)⟩

/-- The higher fee is processed first, and the lower one is not lost. -/
theorem offers_sound :
    processed marketStore [offer 7 1, offer 8 3, ⟨.concrete 6 30 [], .call .processFeeMarket⟩] =
        [⟨1, 10, 100, 8, 3, 5⟩, ⟨1, 10, 100, 7, 1, 5⟩] ∧
      Conserved (run execFeeMarket marketStore
        [offer 7 1, offer 8 3, ⟨.concrete 6 30 [], .call .processFeeMarket⟩]).feeMarket :=
  ⟨by decide,(fee_market_sound marketStore rfl (by decide) _).2.2 (by decide)⟩

end PriceOracle.FeeMarket

/-! ## What blocks the fee market

A batch is applied whole or not at all. -/

namespace PriceOracle.FeeMarket

open Lib.Transaction Lib.MachineInt Lib.Run Model Aggregation

/-- A waiting submission that still passes the checks made when it is applied. -/
structure Applicable (st : Store) (x : FeeMarketSubmission) : Prop where
  active : (st.registry.srcActive x.source).getD false = true
  bonded : ¬(0 < st.getSourceBond ∧ st.getSourceDepositedBond x.source < st.getSourceBond)
  registered : st.isRegisteredAsset x.asset = true
  allowed : st.sourceAllowed x.source x.asset = true
  faultless : st.readBftFaultTolerance = 0
  unsealed : st.readCommitRevealEnabled = false
  positive : 0 < x.price
  /-- A submission for a tripped asset is dropped; any other asks for the quorum. -/
  quorum : st.isCircuitBreakerTripped x.asset = true ∨ st.config.minSources.isSome = true

def drained : List Region := .feeMarket :: outsideMarket

section Submission

variable {w w' : World} {x : FeeMarketSubmission}

theorem Applicable.congr (h : layout.agreeOff drained w w') (hx : Applicable w.store x) :
    Applicable w'.store x := by
  have hregistered : w'.store.isRegisteredAsset = w.store.isRegisteredAsset :=
    congrArg Prod.fst (h .registry (by decide))
  have hactive : w'.store.registry.srcActive = w.store.registry.srcActive :=
    congrArg (fun v => v.2.2.2.1) (h .registry (by decide))
  have hbond : w'.store.registry.sourceBond = w.store.registry.sourceBond :=
    congrArg (fun v => v.2.2.2.2) (h .registry (by decide))
  have hflags : w'.store.flags = w.store.flags := h .flags (by decide)
  have hconfig : w'.store.config = w.store.config := h .config (by decide)
  have hgates : w'.store.gates = w.store.gates := h .gates (by decide)
  have hon : w'.store.on = w.store.on := by
    funext f
    rw [Store.on,Store.on,hflags]
  have hrequired : w'.store.getSourceBond = w.store.getSourceBond := by
    rw [Store.getSourceBond,Store.getSourceBond,hon,hconfig]
  have hdeposited : w'.store.getSourceDepositedBond = w.store.getSourceDepositedBond := by
    funext a
    rw [Store.getSourceDepositedBond,Store.getSourceDepositedBond,hbond]
  have hallowed : w'.store.sourceAllowed = w.store.sourceAllowed := by
    unfold Store.sourceAllowed
    rw [hon,hgates]
  have htolerance : w'.store.readBftFaultTolerance = w.store.readBftFaultTolerance := by
    rw [Store.readBftFaultTolerance,Store.readBftFaultTolerance,hon,hconfig]
  have hsealed : w'.store.readCommitRevealEnabled = w.store.readCommitRevealEnabled := by
    rw [Store.readCommitRevealEnabled,Store.readCommitRevealEnabled,hon,hconfig]
  have htripped : w'.store.isCircuitBreakerTripped = w.store.isCircuitBreakerTripped := by
    unfold Store.isCircuitBreakerTripped
    rw [hgates]
  constructor
  · rw [hactive]
    exact hx.active
  · rw [hrequired,hdeposited]
    exact hx.bonded
  · rw [hregistered]
    exact hx.registered
  · rw [hallowed]
    exact hx.allowed
  · rw [htolerance]
    exact hx.faultless
  · rw [hsealed]
    exact hx.unsealed
  · exact hx.positive
  · rw [htripped,hconfig]
    exact hx.quorum

theorem effectivePolicy_quorum (asset : Address) (w : World) :
    Sat (effectivePolicy asset) w fun _ _ => w.store.config.minSources.isSome = true := by
  unfold effectivePolicy
  rw [sat_bind]
  refine (sat_lookup (o := w.store.config.minSources) ?_).mono ?_
  · cases w.store.config.minSources <;> rfl
  · rintro n _ ⟨hn,-⟩ _ _ _
    rw [hn]
    rfl

/-- A submission that was applied still passes. -/
theorem submitPriceInternal_applicable :
    Sat (submitPriceInternal x.source x.asset x.price x.timestamp) w fun _ _ =>
      Applicable w.store x := by
  simp only [submitPriceInternal,checkSource,checkSourceAsset,enforceCommitRevealForBft,
    unlessTripped,sat_bind,sat_readStore,sat_ensure]
  intro hactive hbonded
  refine (checkRegisteredAsset_sat x.asset w).mono ?_
  rintro _ t ⟨hregistered,ht⟩
  intro hallowed hfaultless hunsealed hpositive
  have hflags : t.store.flags = w.store.flags := ht .flags (by simp)
  have hconfig : t.store.config = w.store.config := ht .config (by simp)
  have hgates : t.store.gates = w.store.gates := ht .gates (by simp)
  unfold Store.sourceAllowed Store.on at hallowed
  unfold Store.readBftFaultTolerance Store.on at hfaultless
  unfold Store.readCommitRevealEnabled Store.on at hunsealed
  rw [hflags,hgates] at hallowed
  rw [hflags,hconfig] at hfaultless hunsealed
  have hmain (hq : w.store.isCircuitBreakerTripped x.asset = true ∨
      w.store.config.minSources.isSome = true) : Applicable w.store x :=
    ⟨hactive,hbonded,hregistered,hallowed,hfaultless,hunsealed,hpositive,hq⟩
  refine sat_ite _ (fun htripped => (sat_pure _).2 (hmain (.inl ?_))) fun _ => ?_
  · unfold Store.isCircuitBreakerTripped at htripped ⊢
    rwa [hgates] at htripped
  · simp only [sat_bind,aggregateAfterSubmission,maybeAggregateAfterSubmission]
    refine (storeSubmission_frame x.asset x.source x.price x.timestamp t).mono fun _ u hu => ?_
    refine (recordSuccessfulSubmission_frame x.source u).mono fun _ v hv => ?_
    refine (effectivePolicy_quorum x.asset v).mono fun _ _ hquorum => ?_
    have hu : u.store.config = t.store.config := hu .config (by decide)
    have hv : v.store.config = u.store.config := hv .config (by decide)
    rw [hv,hu,hconfig] at hquorum
    simp only [sat_readStore,sat_pure]
    intro _ _ _
    exact hmain (.inr hquorum)

/-- A submission that still passes is applied, and leaves the others as applicable as before. -/
theorem processSubmission_succeeds (hx : Applicable w.store x) :
    Succeeds (layout.agreeOff drained w) (processSubmission x) := by
  have hcheck {m : Contract Unit} (hm : Frame drained m)
      (hfails : ∀ s, Applicable s.store x → Fails m s fun _ _ => False) :
      Succeeds (layout.agreeOff drained w) m :=
    succeeds_of_fails (fun s hs => hfails s (hx.congr hs)) fun s hs => hm.from hs
  have hwrite {m : Contract Unit} (hm : Frame drained m) (hfails : ∀ s, Fails m s fun _ _ => False) :
      Succeeds (layout.agreeOff drained w) m :=
    hcheck hm fun s _ => hfails s
  have hsource : Succeeds (layout.agreeOff drained w) (checkSource x.source) := by
    refine hcheck (checkSource_frame x.source) fun s hs => ?_
    simpa [checkSource,hs.active] using hs.bonded
  have hregistered : Succeeds (layout.agreeOff drained w) (checkRegisteredAsset x.asset) := by
    refine hcheck (checkRegisteredAsset_frame x.asset) fun s hs => ?_
    refine (checkRegisteredAsset_fails x.asset s).mono ?_
    rintro _ _ ⟨_,hnot⟩
    rw [hs.registered] at hnot
    cases hnot
  have hallowed : Succeeds (layout.agreeOff drained w) (checkSourceAsset x.source x.asset) := by
    refine hcheck (checkSourceAsset_frame x.source x.asset) fun s hs => ?_
    simp [checkSourceAsset,hs.allowed]
  have hopen : Succeeds (layout.agreeOff drained w) enforceCommitRevealForBft := by
    refine hcheck enforceCommitRevealForBft_frame fun s hs => ?_
    simp [enforceCommitRevealForBft,hs.faultless,hs.unsealed]
  have hstore : Succeeds (layout.agreeOff drained w)
      (storeSubmission x.asset x.source x.price x.timestamp none) := by
    refine hwrite ((storeSubmission_frame _ _ _ _).mono (by decide)) fun s => ?_
    simp [storeSubmission,writeSubmission]
  have hrecord : Succeeds (layout.agreeOff drained w) (recordSuccessfulSubmission x.source) := by
    refine hwrite ((recordSuccessfulSubmission_frame _).mono (by decide)) fun s => ?_
    simp [recordSuccessfulSubmission,recordPriceSubmitted,modifyStats]
  have hfee : Succeeds (layout.agreeOff drained w) (distributeFee x.source x.priorityFee) := by
    refine hwrite (.read fun _ => (modifyFeeMarket_frame _).mono (by decide))
      fun s => ?_
    simp [distributeFee,modifyFeeMarket]
  refine Succeeds.bind ?_ fun _ => hfee
  refine hsource.bind fun _ => hregistered.bind fun _ => hallowed.bind fun _ => hopen.bind fun _ =>
    (succeeds_ensure _ hx.positive).bind fun _ => ?_
  have htripped (s : World) (hs : layout.agreeOff drained w s) :
      s.store.isCircuitBreakerTripped x.asset = w.store.isCircuitBreakerTripped x.asset := by
    unfold Store.isCircuitBreakerTripped
    rw [show s.store.gates = w.store.gates from hs .gates (by decide)]
  refine succeeds_read _ htripped ?_
  split_ifs with ht
  · exact succeeds_pure ()
  · refine hstore.bind fun _ => hrecord.bind fun _ =>
      (aggregateAfterSubmission_succeeds x.asset).within (fun s hs => ?_) fun s hs => ?_
    · unfold Configured
      rw [show s.store.config = w.store.config from hs .config (by decide)]
      exact hx.quorum.resolve_left ht
    · exact ((aggregateAfterSubmission_frame x.asset).mono (by decide)).from hs

theorem processSubmission_frame (x : FeeMarketSubmission) : Frame drained (processSubmission x) :=
  ((submitPriceInternal_frame _ _ _ _).mono (by decide)).bind fun _ => .read fun _ =>
    (modifyFeeMarket_frame _).mono (by decide)

end Submission

section Batch

variable {w : World}

theorem processFeeMarket_applicable :
    Sat Model.processFeeMarket w fun _ _ =>
      ∀ x ∈ w.store.feeMarket.pending.take maxProcessPerLedger, Applicable w.store x := by
  have hw : layout.agreeOff drained w w := Std.Refl.refl w
  refine (sat_forM_all (I := layout.agreeOff drained w) (P := Applicable w.store)
    (fun x _ t ht => ?_) hw).andThen fun _ t ht => ?_
  · have happlied : Sat (processSubmission x) t fun _ _ => Applicable t.store x :=
      submitPriceInternal_applicable.andThen fun _ _ hx _ _ _ => hx
    have hback : layout.agreeOff drained t w := fun r hr => (ht r hr).symm
    exact ((processSubmission_frame x).from ht).and (happlied.mono fun _ _ hx => hx.congr hback)
  · simp only [modifyFeeMarket,sat_update]
    exact ht.2

theorem processFeeMarket_succeeds
    (h : ∀ x ∈ w.store.feeMarket.pending.take maxProcessPerLedger, Applicable w.store x) :
    ∃ w', Model.processFeeMarket w = .ok () w' := by
  have hw : layout.agreeOff drained w w := Std.Refl.refl w
  have hbatch : Succeeds (layout.agreeOff drained w)
      (forM (w.store.feeMarket.pending.take maxProcessPerLedger) processSubmission) :=
    succeeds_forM fun x hx => processSubmission_succeeds (h x hx)
  obtain ⟨_,t,ht,-⟩ := hbatch w hw
  have hrun : Model.processFeeMarket w = modifyFeeMarket (fun m => { m with
      pending := w.store.feeMarket.pending.drop maxProcessPerLedger }) t := by
    unfold Model.processFeeMarket readStore
    rw [bind_of_ok (show (inspect fun w : World => w.store.feeMarket.pending) w =
      .ok w.store.feeMarket.pending w from rfl),bind_of_ok ht]
  exact ⟨_,hrun.trans rfl⟩

end Batch

/-- Processing the market succeeds and takes a whole batch from the head of the queue. -/
def Drains (env : Env) (st : Store) : Prop :=
  failure Model.processFeeMarket env st = none ∧
    (invoke Model.processFeeMarket env st).feeMarket.pending =
      st.feeMarket.pending.drop (min maxProcessPerLedger st.feeMarket.pending.length)

theorem drains_iff (env : Env) (st : Store) :
    Drains env st ↔
      ∀ x ∈ st.feeMarket.pending.take maxProcessPerLedger, Applicable st x := by
  constructor
  · rintro ⟨hok,-⟩
    obtain ⟨_,w,hw⟩ := failure_eq_none_iff.1 hok
    exact processFeeMarket_applicable (w := World.enter env st) _ _ hw
  · intro h
    obtain ⟨w,hw⟩ := processFeeMarket_succeeds (w := World.enter env st) h
    have hok : failure Model.processFeeMarket env st = none := failure_eq_none_iff.2 ⟨_,_,hw⟩
    refine ⟨hok,?_⟩
    have hdrop : st.feeMarket.pending.drop (min maxProcessPerLedger st.feeMarket.pending.length) =
        st.feeMarket.pending.drop maxProcessPerLedger := by
      rcases Nat.le_total maxProcessPerLedger st.feeMarket.pending.length with hle | hle
      · rw [Nat.min_eq_left hle]
      · rw [Nat.min_eq_right hle,List.drop_length,List.drop_eq_nil_of_le hle]
    rw [hdrop]
    refine invoke_of_success (Q := fun s => s.feeMarket.pending =
      st.feeMarket.pending.drop maxProcessPerLedger) hok ?_
    refine processFeeMarket_market.mono ?_
    rintro _ w' ⟨_,hmarket⟩
    rw [hmarket]
    rfl

/-- In every state a run reaches, processing the market takes a whole batch from the head of the
queue exactly if every submission of that batch still passes the checks. -/
theorem market_drains_iff (st : Store) (ts : List FeeMarketTx) (env : Env) :
    Drains env (run execFeeMarket st ts) ↔
      ∀ x ∈ (run execFeeMarket st ts).feeMarket.pending.take maxProcessPerLedger,
        Applicable (run execFeeMarket st ts) x :=
  drains_iff env _

/-- Source `1` pays for a price that does not fit; the queue takes it. -/
def oversized : FeeMarketTx :=
  ⟨.concrete 5 20 [1], .call (.enqueueSubmission 1 10 (2 ^ 127) 7 3)⟩

/-- The price became negative, so the batch panics and the valid offer behind it waits forever. -/
theorem oversized_blocks :
    (run execFeeMarket marketStore [oversized, offer 7 1]).isPaused = false ∧
      (run execFeeMarket marketStore [oversized, offer 7 1]).feeMarket.pending.length = 2 ∧
      failure Model.processFeeMarket (.concrete 6 30 [])
        (run execFeeMarket marketStore [oversized, offer 7 1]) = some .invalidPrice ∧
      ¬Drains (.concrete 6 30 []) (run execFeeMarket marketStore [oversized, offer 7 1]) := by
  have hfail : failure Model.processFeeMarket (.concrete 6 30 [])
      (run execFeeMarket marketStore [oversized,offer 7 1]) = some .invalidPrice := by decide
  refine ⟨by decide,by decide,hfail,fun h => ?_⟩
  rw [h.1] at hfail
  cases hfail

end PriceOracle.FeeMarket
