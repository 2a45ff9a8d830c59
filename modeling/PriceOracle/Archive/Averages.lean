import PriceOracle.Lib.Timing
import PriceOracle.Model.Twap
import Mathlib.Algebra.BigOperators.Intervals
import Mathlib.Algebra.Order.BigOperators.Group.Finset
import Mathlib.Order.Interval.Finset.Nat

/-! # The time-weighted average

The loop collects the entries backwards and weighs each by the ledgers between it and the one
counted before. Ledger by ledger that is the sum, over the window, of the price in force. The first
boundary is the successor of the current ledger, which the last 32-bit ledger does not have. -/

namespace PriceOracle.Archive

open Lib.InForce Lib.MachineInt Model

def Dated (h : History) (asset : Address) : Prop :=
  ∀ l e, h.readHistoryEntry asset l = some e → e.ledger = l

section Reference

variable (h : History) (asset : Address) (current : Nat) (price : Int)

/-- The price in force at a ledger: the aggregate at the current one, else the newest entry. -/
def priceAt (l : Nat) : Int :=
  if l = current then price
  else ((inForce (h.readHistoryEntry asset) l).map PriceHistoryEntry.price).getD 0

/-- The oldest available entry, or the current ledger where there is none. -/
def oldestEntry : Nat := firstPoint (h.readHistoryEntry asset) current

/-- The first ledger of the window that has a price. -/
def windowStart (startLedger : Nat) : Nat := max startLedger (oldestEntry h asset current)

/-- The weighted sum of every part of the window is representable. -/
def SumsFit (startLedger : Nat) : Prop :=
  ∀ a b, startLedger ≤ a → b ≤ current + 1 →
    IsI128 (∑ l ∈ Finset.Ico a b, priceAt h asset current price l)

variable {h asset current price} in
/-- Without negative prices every part fits as soon as the whole window does. -/
theorem sumsFit_of_nonneg {startLedger : Nat}
    (hprice : ∀ l, 0 ≤ priceAt h asset current price l)
    (hfits : ∑ l ∈ Finset.Ico startLedger (current + 1), priceAt h asset current price l ≤
      i128Max) : SumsFit h asset current price startLedger := by
  intro a b ha hb
  have hpart : ∑ l ∈ Finset.Ico a b, priceAt h asset current price l ≤
      ∑ l ∈ Finset.Ico startLedger (current + 1), priceAt h asset current price l :=
    Finset.sum_le_sum_of_subset_of_nonneg (Finset.Ico_subset_Ico ha hb) fun l _ _ => hprice l
  have hzero := Finset.sum_nonneg fun l (_ : l ∈ Finset.Ico a b) => hprice l
  unfold IsI128
  unfold i128Min i128Max at *
  omega

/-- The accumulators `compute_twap_stats` ends with. -/
def twapSums (startLedger : Nat) (method : TwapMethod) : TwapSums :=
  TwapSums.addAll method startLedger { nextBoundary := satAdd32 current 1 }
    ((current, price) :: h.snapshotsBelow asset startLedger current current)

end Reference

section Segments

variable {s : TwapSums} {method : TwapMethod} {segmentStart : Nat} {price : Int}

theorem add_totalWeight (hlt : segmentStart < s.nextBoundary) :
    (s.add method segmentStart price).totalWeight =
      satAdd64 s.totalWeight (s.nextBoundary - segmentStart) := by
  unfold TwapSums.add
  rw [if_pos hlt]

theorem add_weightedPrice (hlt : segmentStart < s.nextBoundary) :
    (s.add method segmentStart price).weightedPrice =
      satAdd s.weightedPrice (satMul price ((s.nextBoundary - segmentStart : Nat) : Int)) := by
  unfold TwapSums.add
  rw [if_pos hlt]

theorem add_nextBoundary (hlt : segmentStart < s.nextBoundary) :
    (s.add method segmentStart price).nextBoundary = segmentStart := by
  unfold TwapSums.add
  rw [if_pos hlt]

end Segments

section Segment

variable {h : History} {asset : Address} {current b ledger : Nat} {s : TwapSums}
  {e : PriceHistoryEntry}

/-- The ledgers of a part of the window that have a price. -/
def priced (h : History) (asset : Address) (a b : Nat) : Nat :=
  ∑ l ∈ Finset.Ico a b, if (inForce (h.readHistoryEntry asset) l).isSome then 1 else 0

theorem segment_inForce (he : h.readHistoryEntry asset ledger = some e)
    (hnone : ∀ l, ledger < l → l < b → h.readHistoryEntry asset l = none) {l : Nat}
    (hl : ledger ≤ l) (hlb : l < b) : inForce (h.readHistoryEntry asset) l = some e :=
  inForce_until he hl fun j hj hjl => hnone j hj (by omega)

theorem segment_priced (he : h.readHistoryEntry asset ledger = some e)
    (hnone : ∀ l, ledger < l → l < b → h.readHistoryEntry asset l = none) {a : Nat}
    (ha : ledger ≤ a) : priced h asset a b = b - a := by
  unfold priced
  rw [Finset.sum_eq_card_nsmul (b := 1),Nat.card_Ico,Nat.nsmul_eq_mul,Nat.mul_one]
  intro l hl
  rw [Finset.mem_Ico] at hl
  rw [segment_inForce he hnone (by omega) hl.2,Option.isSome_some,if_pos rfl]

theorem segment_prices (he : h.readHistoryEntry asset ledger = some e)
    (hnone : ∀ l, ledger < l → l < b → h.readHistoryEntry asset l = none) (hb : b ≤ current)
    (price : Int) {a : Nat} (ha : ledger ≤ a) :
    ∑ l ∈ Finset.Ico a b, priceAt h asset current price l = e.price * ((b - a : Nat) : Int) := by
  rw [Finset.sum_eq_card_nsmul (b := e.price),Nat.card_Ico,Int.nsmul_eq_mul,Int.mul_comm]
  intro l hl
  rw [Finset.mem_Ico] at hl
  rw [priceAt,if_neg (by omega),segment_inForce he hnone (by omega) hl.2,Option.map_some,
    Option.getD_some]

/-- The segment of one entry: its weight and its weighted price. -/
theorem add_segment (method : TwapMethod) (price : Int)
    (he : h.readHistoryEntry asset ledger = some e)
    (hnone : ∀ l, ledger < l → l < b → h.readHistoryEntry asset l = none)
    (hb : b ≤ current) (hs : s.nextBoundary = b) {a : Nat} (hla : ledger ≤ a) (hab : a < b)
    (hweight : s.totalWeight + (b - a) ≤ u64Max) :
    (s.add method a e.price).totalWeight = s.totalWeight + priced h asset a b ∧
      (SumsFit h asset current price a →
        s.weightedPrice = ∑ l ∈ Finset.Ico b (current+1), priceAt h asset current price l →
        (s.add method a e.price).weightedPrice =
          ∑ l ∈ Finset.Ico a (current+1), priceAt h asset current price l) := by
  have hlt : a < s.nextBoundary := by omega
  constructor
  · rw [add_totalWeight hlt,hs,segment_priced he hnone hla,satAdd64,Nat.min_eq_left hweight]
  · intro hfits hprice
    have hsegment := segment_prices he hnone hb price hla
    have hjoin := Finset.sum_Ico_consecutive (priceAt h asset current price) hab.le
      (show b ≤ current+1 by omega)
    have hproduct := hfits a b (le_refl a) (by omega)
    have hsum := hfits a (current+1) (le_refl a) (le_refl _)
    rw [hsegment] at hproduct hjoin
    rw [add_weightedPrice hlt,hs,hprice,satMul,saturate_of_isI128 hproduct,satAdd,
      Int.add_comm,hjoin,saturate_of_isI128 hsum]

end Segment

section Run

variable {h : History} {asset : Address} {start current b ledger last : Nat} {price : Int}
  {s : TwapSums} {method : TwapMethod}

theorem priced_empty (hnone : ∀ l, l < b → h.readHistoryEntry asset l = none) {a : Nat} :
    priced h asset a b = 0 := by
  apply Finset.sum_eq_zero
  intro l hl
  rw [Finset.mem_Ico] at hl
  rw [inForce_eq_none_iff.2 fun j hj => hnone j (by omega)]
  rfl

/-- The run over the entries below a ledger adds up the rest of the window. -/
theorem addAll_snapshots (hdated : Dated h asset) (hlb : ledger ≤ b) (hlast : ledger ≤ last)
    (hstart : start < b) (hb : b ≤ current)
    (hnone : ∀ l, ledger ≤ l → l < b → h.readHistoryEntry asset l = none)
    (hs : s.nextBoundary = b) (hweight : s.totalWeight + (b - start) ≤ u64Max) :
    (s.addAll method start (h.snapshotsBelow asset start ledger last)).totalWeight =
        s.totalWeight + priced h asset start b ∧
      (SumsFit h asset current price start →
        s.weightedPrice = ∑ l ∈ Finset.Ico b (current+1), priceAt h asset current price l →
        (s.addAll method start (h.snapshotsBelow asset start ledger last)).weightedPrice =
          ∑ l ∈ Finset.Ico start (current+1), priceAt h asset current price l) := by
  induction ledger generalizing b last s with
  | zero =>
    have hempty : ∀ l, l < b → h.readHistoryEntry asset l = none := fun l hl =>
      hnone l (Nat.zero_le l) hl
    constructor
    · rw [priced_empty hempty]
      rfl
    · intro _ hprice
      rw [← Finset.sum_Ico_consecutive (priceAt h asset current price) hstart.le
        (show b ≤ current+1 by omega),Finset.sum_eq_zero,Int.zero_add,← hprice]
      · rfl
      · intro l hl
        rw [Finset.mem_Ico] at hl
        rw [priceAt,if_neg (by omega),inForce_eq_none_iff.2 fun j hj => hempty j (by omega)]
        rfl
  | succ ledger ih =>
    unfold History.snapshotsBelow
    cases hread : h.readHistoryEntry asset ledger with
    | none =>
      apply ih (by omega) (by omega) hstart hb _ hs hweight
      intro l hl hlb'
      rcases Nat.lt_or_eq_of_le hl with hlt | rfl
      · exact hnone l (by omega) hlb'
      · exact hread
    | some e =>
      have hledger : e.ledger = ledger := hdated ledger e hread
      have habove : ∀ l, ledger < l → l < b → h.readHistoryEntry asset l = none :=
        fun l hl hlb' => hnone l (by omega) hlb'
      dsimp only
      rw [hledger,if_neg (show ¬ledger = last by omega)]
      unfold TwapSums.addAll
      by_cases hreach : ledger ≤ start
      · rw [Nat.max_eq_right hreach,if_pos rfl]
        exact add_segment method price hread habove hb hs hreach hstart hweight
      · rw [Nat.max_eq_left (by omega),if_neg (by omega),if_neg hreach]
        have hweight' : s.totalWeight + (b - ledger) ≤ u64Max := by omega
        obtain ⟨hcount,hsum⟩ := add_segment method price hread habove hb hs
          (le_refl ledger) (by omega) hweight'
        have hsegment : priced h asset ledger b = b - ledger :=
          segment_priced hread habove (le_refl ledger)
        have hboundary : (s.add method ledger e.price).nextBoundary = ledger :=
          add_nextBoundary (by omega)
        obtain ⟨hcount',hsum'⟩ := ih (s := s.add method ledger e.price) (le_refl ledger)
          (le_refl ledger) (by omega) (by omega) (by omega) hboundary (by omega)
        constructor
        · have hjoin : priced h asset start ledger + priced h asset ledger b =
              priced h asset start b :=
            Finset.sum_Ico_consecutive _ (by omega) (by omega)
          omega
        · intro hfits hprice
          have hfits' : SumsFit h asset current price ledger := fun a b ha hb =>
            hfits a b (by omega) hb
          exact hsum' hfits (hsum hfits' hprice)

end Run

section Window

variable {h : History} {asset : Address} {start current : Nat} {price : Int} {method : TwapMethod}

theorem priced_eq (h : History) (asset : Address) (start current : Nat) :
    priced h asset start current = current - windowStart h asset current start := by
  unfold priced windowStart
  rw [← Finset.card_filter]
  have hfilter : (Finset.Ico start current).filter
      (fun l => (inForce (h.readHistoryEntry asset) l).isSome = true) =
      Finset.Ico (max start (oldestEntry h asset current)) current := by
    ext l
    rw [Finset.mem_filter,Finset.mem_Ico,Finset.mem_Ico,max_le_iff]
    constructor
    · rintro ⟨⟨hstart,hl⟩,hsome⟩
      exact ⟨⟨hstart,(firstPoint_le_iff hl).2 hsome⟩,hl⟩
    · rintro ⟨⟨hstart,hfirst⟩,hl⟩
      exact ⟨⟨hstart,hl⟩,(firstPoint_le_iff hl).1 hfirst⟩
  rw [hfilter,Nat.card_Ico]

theorem windowStart_le (h : History) (asset : Address) (hstart : start ≤ current) :
    windowStart h asset current start ≤ current :=
  max_le hstart (firstPoint_le _ _)

theorem sum_window (hstart : start ≤ current) :
    ∑ l ∈ Finset.Ico start (current+1), priceAt h asset current price l =
      ∑ l ∈ Finset.Icc (windowStart h asset current start) current,
        priceAt h asset current price l := by
  have hle := windowStart_le h asset hstart
  rw [← Finset.sum_Ico_consecutive _ (le_max_left start (oldestEntry h asset current))
    (show max start (oldestEntry h asset current) ≤ current+1 from hle.trans (Nat.le_succ _)),
    Finset.sum_eq_zero,Int.zero_add]
  · rfl
  · intro l hl
    rw [Finset.mem_Ico] at hl
    have hbefore : l < oldestEntry h asset current := by omega
    have hnone : ¬(inForce (h.readHistoryEntry asset) l).isSome = true := by
      rw [← firstPoint_le_iff (hbefore.trans_le (firstPoint_le _ _))]
      exact not_le.2 hbefore
    rw [priceAt,if_neg (by have := hbefore.trans_le (firstPoint_le _ _); omega),
      Option.not_isSome_iff_eq_none.1 hnone]
    rfl

/-- The rest of the window once the current ledger is dealt with. -/
theorem addAll_window {s : TwapSums} (method : TwapMethod) (price : Int)
    (hdated : Dated h asset) (hstart : start ≤ current)
    (hcurrent : current ≤ u32Max) (hs : s.nextBoundary = current) (hsmall : s.totalWeight ≤ 1) :
    (if current = start then s
        else s.addAll method start (h.snapshotsBelow asset start current current)).totalWeight =
        s.totalWeight + (current - windowStart h asset current start) ∧
      (SumsFit h asset current price start →
        s.weightedPrice = ∑ l ∈ Finset.Ico current (current+1), priceAt h asset current price l →
        (if current = start then s
          else s.addAll method start (h.snapshotsBelow asset start current current)).weightedPrice =
          ∑ l ∈ Finset.Icc (windowStart h asset current start) current,
            priceAt h asset current price l) := by
  rw [← priced_eq,← sum_window hstart]
  by_cases hsame : current = start
  · subst hsame
    rw [if_pos rfl]
    constructor
    · simp [priced]
    · exact fun _ hprice => hprice
  · rw [if_neg hsame]
    have hroom : s.totalWeight + (current - start) ≤ u64Max := by
      unfold u64Max
      unfold u32Max at hcurrent
      omega
    exact addAll_snapshots hdated (le_refl current) (le_refl current) (by omega) (le_refl current)
      (fun l hl hlc => absurd hl (by omega)) hs hroom

theorem twapSums_eq (hstart : start ≤ current) : twapSums h asset current price start method =
    if current = start then
      TwapSums.add { nextBoundary := satAdd32 current 1 } method current price
    else (TwapSums.add { nextBoundary := satAdd32 current 1 } method current price).addAll method
      start (h.snapshotsBelow asset start current current) := by
  unfold twapSums
  rw [TwapSums.addAll,Nat.max_eq_left hstart]

/-- Before the last 32-bit ledger the current one weighs like every other. -/
theorem twapSums_of_lt (price : Int) (method : TwapMethod) (hdated : Dated h asset)
    (hstart : start ≤ current) (hcurrent : current < u32Max) :
    (twapSums h asset current price start method).totalWeight =
        current+1 - windowStart h asset current start ∧
      (SumsFit h asset current price start →
        (twapSums h asset current price start method).weightedPrice =
          ∑ l ∈ Finset.Icc (windowStart h asset current start) current,
            priceAt h asset current price l) := by
  have hle := windowStart_le h asset hstart
  have hnext : satAdd32 current 1 = current+1 := Nat.min_eq_left hcurrent
  rw [twapSums_eq hstart,hnext]
  set first : TwapSums := { nextBoundary := current+1 }
  have hlt : current < first.nextBoundary := Nat.lt_succ_self current
  have hone : first.nextBoundary - current = 1 := Nat.add_sub_cancel_left current 1
  have hweight : (first.add method current price).totalWeight = 1 := by
    rw [add_totalWeight hlt,hone]
    rfl
  obtain ⟨hcount,hsum⟩ := addAll_window method price hdated hstart hcurrent.le
    (add_nextBoundary hlt) hweight.le
  refine ⟨by omega,fun hfits => hsum hfits ?_⟩
  have hprice := hfits current (current+1) hstart (le_refl _)
  rw [Nat.Ico_succ_singleton,Finset.sum_singleton,priceAt,if_pos rfl] at hprice ⊢
  rw [add_weightedPrice hlt,hone,Int.natCast_one,satMul,Int.mul_one,saturate_of_isI128 hprice]
  change saturate (0 + price) = price
  rw [Int.zero_add,saturate_of_isI128 hprice]

theorem twapSums_of_last (hdated : Dated h asset) (hstart : start ≤ u32Max) :
    (twapSums h asset u32Max price start method).totalWeight =
      u32Max - windowStart h asset u32Max start := by
  have hnext : satAdd32 u32Max 1 = u32Max := Nat.min_eq_right (Nat.le_succ _)
  rw [twapSums_eq hstart,hnext]
  have hidle : TwapSums.add { nextBoundary := u32Max } method u32Max price =
      { nextBoundary := u32Max } := if_neg (Nat.lt_irrefl _)
  rw [hidle]
  have hcount := (addAll_window (s := { nextBoundary := u32Max }) method price hdated hstart
    (le_refl _) rfl (Nat.zero_le 1)).1
  rw [hcount]
  exact Nat.zero_add _

end Window

section Averages

variable {st : Store} {asset : Address} {agg : AggregatePrice} {start current : Nat}

/-- The average as stated ledger by ledger: the weights tile the window, and as long as its sums are
representable the arithmetic mean is the truncated mean of the prices in force. -/
structure MeetsReference (st : Store) (asset : Address) (agg : AggregatePrice)
    (start current : Nat) : Prop where
  weights : ∀ method, (twapSums st.history asset current agg.price start method).totalWeight =
    current + 1 - windowStart st.history asset current start
  mean : SumsFit st.history asset current agg.price start →
    ∀ env, ∃ r, st.computeTwapStats env asset start current .arithmetic = some r ∧
      r.price = (∑ l ∈ Finset.Icc (windowStart st.history asset current start) current,
          priceAt st.history asset current agg.price l).tdiv
        ((current + 1 - windowStart st.history asset current start : Nat) : Int) ∧
      ∀ a b, (∀ l ∈ Finset.Icc (windowStart st.history asset current start) current,
          a ≤ priceAt st.history asset current agg.price l ∧
            priceAt st.history asset current agg.price l ≤ b) → a ≤ r.price ∧ r.price ≤ b

theorem tdiv_between {a b sum n : Int} (hn : 0 < n) (ha : n * a ≤ sum) (hb : sum ≤ n * b) :
    a ≤ sum.tdiv n ∧ sum.tdiv n ≤ b := by
  have hlow := Int.tdiv_le_tdiv hn ha
  have hhigh := Int.tdiv_le_tdiv hn hb
  rw [Int.mul_tdiv_cancel_left _ hn.ne'] at hlow hhigh
  exact ⟨hlow,hhigh⟩

theorem not_meetsReference_last (hdated : Dated st.history asset) (hstart : start ≤ u32Max) :
    ¬MeetsReference st asset agg start u32Max := by
  intro h
  have hle := windowStart_le st.history asset hstart
  have hweights := h.weights .arithmetic
  rw [twapSums_of_last hdated hstart] at hweights
  omega

/-- The average is the reference average unless the current ledger is the last 32-bit one. -/
theorem computeTwapStats_reference_iff (hagg : st.aggregate asset = some agg)
    (hdated : Dated st.history asset) (hstart : start ≤ current) (hcurrent : current ≤ u32Max) :
    MeetsReference st asset agg start current ↔ current < u32Max := by
  have hle := windowStart_le st.history asset hstart
  constructor
  · intro h
    by_contra hlast
    have heq : current = u32Max := by omega
    subst heq
    exact not_meetsReference_last hdated hstart h
  · intro hlt
    refine ⟨fun method => (twapSums_of_lt agg.price method hdated hstart hlt).1,fun hfits env => ?_⟩
    obtain ⟨hcount,hsum⟩ := twapSums_of_lt agg.price .arithmetic hdated hstart hlt
    have hstats : st.computeTwapStats env asset start current .arithmetic =
        let sums := twapSums st.history asset current agg.price start .arithmetic
        if sums.totalWeight = 0 then none
        else some
          { price := sums.price .arithmetic
            timestamp := env.timestamp
            lastUpdated := current
            cardinality := sums.cardinality
            maxWeightBps := wrap32 (wrap64 (sums.maxWeight * 10000) / sums.totalWeight)
            concentrated := sums.cardinality = 1 } := by
      unfold Store.computeTwapStats
      rw [hagg]
      rfl
    rw [hstats]
    dsimp only
    rw [hcount,if_neg (by omega)]
    refine ⟨_,rfl,?_⟩
    dsimp only [TwapSums.price]
    rw [hcount,hsum hfits]
    refine ⟨rfl,fun a b hbounds => ?_⟩
    have hcard : (Finset.Icc (windowStart st.history asset current start) current).card =
        current+1 - windowStart st.history asset current start := Nat.card_Icc _ _
    apply tdiv_between (by omega)
    · have hlow := Finset.card_nsmul_le_sum _ _ a fun l hl => (hbounds l hl).1
      rwa [hcard,Int.nsmul_eq_mul] at hlow
    · have hhigh := Finset.sum_le_card_nsmul _ _ b fun l hl => (hbounds l hl).2
      rwa [hcard,Int.nsmul_eq_mul] at hhigh

/-- An entry of 90 at ledger 2 under an aggregate of 100 at ledger 4. -/
theorem computeTwapStats_reference_small :
    MeetsReference
      { aggregate := fun _ => some ⟨100, 0, 1, 7, false, 0⟩
        history := ({} : History).setTemporary 1 ⟨90, 0, 2, 1, false⟩ }
      1 ⟨100, 0, 1, 7, false, 0⟩ 0 4 := by
  have hdated : Dated (({} : History).setTemporary 1 ⟨90,0,2,1,false⟩) 1 := by
    intro l e he
    simp only [History.readHistoryEntry,History.setTemporary,History.shardEntry,
      History.bucketOf,Function.update_apply,Prod.mk.injEq,true_and] at he
    split_ifs at he with hl
    · rw [← Option.some.inj he]
      exact hl.symm
    · simp at he
  exact (computeTwapStats_reference_iff rfl hdated (by omega) (by decide)).2 (by decide)

end Averages

end PriceOracle.Archive
