import PriceOracle.Amm.Backing

/-! # The manipulation guardrail

A swap is compared with the published price on reserves that leave its fee out, and the pool is
stored with the whole input. So the stored price lies further along in the direction of the swap:
the guard keeps it inside the band on the side the swap comes from, and on the other side only as
long as the fee does not carry it across the edge. -/

namespace PriceOracle.Amm

open Model Lib.Transaction Lib.MachineInt Lib.Run

section Band

variable {o m spot : Nat}

/-- The deviation of a price from `o`, in basis points rounded down, is at most `m`. -/
def InBand (o m spot : Nat) : Prop := (max spot o - min spot o) * 10000 / o ≤ m

def reach (o m : Nat) : Nat := ((m + 1) * o - 1) / 10000

/-- No deviation beyond `m` is hidden by the saturating product of the guard. -/
def Reliable (o m : Nat) : Prop := m < u32Max ∧ (m + 1) * o ≤ u128Max

deriving instance Decidable for InBand

deriving instance Decidable for Reliable

theorem inBand_iff (ho : 0 < o) :
    InBand o m spot ↔ o - reach o m ≤ spot ∧ spot < o + reach o m + 1 := by
  have hpos : 0 < (m+1) * o := Nat.mul_pos (Nat.succ_pos m) ho
  have hdist (d : Nat) : d * 10000 / o ≤ m ↔ d ≤ reach o m := by
    rw [← Nat.lt_succ_iff,Nat.div_lt_iff_lt_mul ho]
    unfold reach
    change d * 10000 < (m+1) * o ↔ _
    omega
  unfold InBand
  rw [hdist]
  omega

theorem inBand_of_guard (hreliable : Reliable o m) (hguard : computeDeviationBps spot o ≤ m) :
    InBand o m spot := by
  obtain ⟨hm,hfits⟩ := hreliable
  unfold computeDeviationBps at hguard
  split_ifs at hguard with hzero
  · omega
  · have ho : 0 < o := Nat.pos_of_ne_zero hzero
    have hdiv : satMul128 (max spot o - min spot o) 10000 / o ≤ m := by omega
    have hlt := (Nat.div_lt_iff_lt_mul ho).1 (Nat.lt_succ_of_le hdiv)
    change satMul128 _ _ < (m+1) * o at hlt
    unfold satMul128 at hlt
    rw [InBand,← Nat.lt_succ_iff,Nat.div_lt_iff_lt_mul ho]
    change _ < (m+1) * o
    omega

end Band

section Swaps

variable {p : AmmPool} {d : Bool} {o m amountIn : Nat}

/-- The price of the first token in units of the second, with eighteen decimals. -/
def spotPrice (p : AmmPool) : Nat := p.reserveY * 1000000000000000000 / p.reserveX

/-- The stored price is inside the band around the published price `o`. -/
def Guarded (o m : Nat) (p : AmmPool) : Prop := 0 < p.reserveX ∧ InBand o m (spotPrice p)

deriving instance Decidable for Guarded

/-- The reserve of the incoming token after a swap: the fee stays in the pool. -/
def received (p : AmmPool) (d : Bool) (amountIn : Nat) : Nat := satAdd128 (p.reserveIn d) amountIn

/-- The whole input does not carry the price across the edge that the swap moves towards; where the
product of the guard saturates, the price is not beyond the other edge either. -/
def StaysInBand (p : AmmPool) (d : Bool) (amountIn o m : Nat) : Prop :=
  let scale := 1000000000000000000
  if d then
    (o - reach o m) * received p d amountIn ≤ p.quoted d amountIn * scale ∧
      (Reliable o m ∨ p.quoted d amountIn * scale < (o + reach o m + 1) * received p d amountIn)
  else
    0 < p.quoted d amountIn ∧
      received p d amountIn * scale < (o + reach o m + 1) * p.quoted d amountIn ∧
      (Reliable o m ∨ (o - reach o m) * p.quoted d amountIn ≤ received p d amountIn * scale)

deriving instance Decidable for StaysInBand

theorem shifted_le_received (hfee : p.feeBps ≤ 10000) (hfits : p.shifted d amountIn ≤ u128Max) :
    p.shifted d amountIn ≤ received p d amountIn := by
  have hle : p.afterFee amountIn ≤ amountIn := AmmPool.afterFee_le hfee
  unfold AmmPool.shifted at hfits ⊢
  unfold received satAdd128
  omega

theorem traded_reserves (hquoted : p.quoted d amountIn < p.reserveOut d) :
    (p.traded d amountIn).reserveX =
        (if d then received p d amountIn else p.quoted d amountIn) ∧
      (p.traded d amountIn).reserveY =
        if d then p.quoted d amountIn else received p d amountIn := by
  cases d with
  | true =>
    change _ < p.reserveY at hquoted
    refine ⟨rfl,?_⟩
    change p.reserveY - (p.reserveY - _) = p.quoted true amountIn
    omega
  | false =>
    change _ < p.reserveX at hquoted
    refine ⟨?_,rfl⟩
    change p.reserveX - (p.reserveX - _) = p.quoted false amountIn
    omega

/-- A swap that passes the guard leaves the stored price in the band exactly if the whole input does
not carry it out. -/
theorem guarded_traded_iff (ho : 0 < o) (hfee : p.feeBps ≤ 10000)
    (hshifted : 0 < p.shifted d amountIn) (hfits : p.shifted d amountIn ≤ u128Max)
    (hquoted : p.quoted d amountIn < p.reserveOut d)
    (hguard : 0 < p.guardX d amountIn → computeDeviationBps
      (p.guardY d amountIn * 1000000000000000000 / p.guardX d amountIn) o ≤ m) :
    Guarded o m (p.traded d amountIn) ↔ StaysInBand p d amountIn o m := by
  have hreceived := shifted_le_received hfee hfits
  obtain ⟨hx,hy⟩ := traded_reserves hquoted
  have hguarded (hrel : Reliable o m) (hpos : 0 < p.guardX d amountIn) :=
    (inBand_iff ho).1 (inBand_of_guard hrel (hguard hpos))
  unfold Guarded spotPrice StaysInBand
  rw [hx,hy,inBand_iff ho]
  obtain ⟨R,hR⟩ : ∃ R, R = received p d amountIn := ⟨_,rfl⟩
  obtain ⟨q,hq⟩ : ∃ q, q = p.quoted d amountIn := ⟨_,rfl⟩
  obtain ⟨n,hn⟩ : ∃ n, n = p.shifted d amountIn := ⟨_,rfl⟩
  rw [← hR,← hn] at hreceived
  rw [← hn] at hshifted
  rw [← hR,← hq]
  cases d with
  | true =>
    change Reliable o m → 0 < p.shifted true amountIn → o - reach o m ≤
      p.quoted true amountIn * 1000000000000000000 / p.shifted true amountIn ∧
      p.quoted true amountIn * 1000000000000000000 / p.shifted true amountIn <
        o + reach o m + 1 at hguarded
    rw [← hn,← hq] at hguarded
    have hpos : 0 < R := by omega
    simp only [if_true]
    rw [Nat.le_div_iff_mul_le hpos,Nat.div_lt_iff_lt_mul hpos]
    -- counting the fee lowers the price, so the upper edge is the guard's
    have hupper : Reliable o m → q * 1000000000000000000 < (o + reach o m + 1) * R := by
      intro hrel
      have hlt := (Nat.div_lt_iff_lt_mul hshifted).1 (hguarded hrel hshifted).2
      exact hlt.trans_le (Nat.mul_le_mul_left _ hreceived)
    constructor
    · rintro ⟨-,hlow,hhigh⟩
      exact ⟨hlow,.inr hhigh⟩
    · rintro ⟨hlow,hrel | hhigh⟩
      · exact ⟨hpos,hlow,hupper hrel⟩
      · exact ⟨hpos,hlow,hhigh⟩
  | false =>
    change Reliable o m → 0 < p.quoted false amountIn → o - reach o m ≤
      p.shifted false amountIn * 1000000000000000000 / p.quoted false amountIn ∧
      p.shifted false amountIn * 1000000000000000000 / p.quoted false amountIn <
        o + reach o m + 1 at hguarded
    rw [← hn,← hq] at hguarded
    refine and_congr_right fun hpos => ?_
    rw [Nat.le_div_iff_mul_le hpos,Nat.div_lt_iff_lt_mul hpos]
    -- counting the fee raises the price, so the lower edge is the guard's
    have hlower : Reliable o m → (o - reach o m) * q ≤ R * 1000000000000000000 := by
      intro hrel
      have hle := (Nat.le_div_iff_mul_le hpos).1 (hguarded hrel hpos).1
      exact hle.trans (Nat.mul_le_mul_right _ hreceived)
    constructor
    · rintro ⟨hlow,hhigh⟩
      exact ⟨hhigh,.inr hlow⟩
    · rintro ⟨hhigh,hrel | hlow⟩
      · exact ⟨hlower hrel,hhigh⟩
      · exact ⟨hlow,hhigh⟩

end Swaps

section Runs

variable {pair : Pair} {st : Store}

/-- A swap that goes through while the first token has a published price leaves the stored price
within the configured deviation of it. -/
def KeepsGuardrail (pair : Pair) (st : Store) (t : AmmTx) : Prop :=
  match t.act with
  | .call (.swap caller fromAsset toAsset amountIn minReturn) =>
    failure (AmmCall.body pair (.swap caller fromAsset toAsset amountIn minReturn)) t.env st =
      none →
      ∀ p, (execAmm pair st t).amm.pool pair.asset = some p →
        0 < st.oraclePriceForAsset p.assetX →
          Guarded (st.oraclePriceForAsset p.assetX) st.readMaxDeviationBps p
  | _ => True

/-- The input of the swap, with its fee, stays inside the band. -/
def InputStays (pair : Pair) (st : Store) (t : AmmTx) : Prop :=
  match t.act with
  | .call (.swap caller fromAsset toAsset amountIn minReturn) =>
    failure (AmmCall.body pair (.swap caller fromAsset toAsset amountIn minReturn)) t.env st =
      none →
      ∀ p d, st.amm.pool pair.asset = some p → p.direction fromAsset toAsset = some d →
        0 < st.oraclePriceForAsset p.assetX →
          StaysInBand p d (toU128 amountIn) (st.oraclePriceForAsset p.assetX)
            st.readMaxDeviationBps
  | _ => True

/-- Pools are created with the default fee, and no call changes it. -/
def DefaultFee (pair : Pair) (st : Store) : Prop :=
  ∀ p, st.amm.pool pair.asset = some p → p.feeBps = defaultFeeBps

theorem swap_done {env : Env} {caller fromAsset toAsset : Address} {amountIn minReturn : Int}
    (hrun : failure (AmmCall.body pair (.swap caller fromAsset toAsset amountIn minReturn)) env st =
      none) :
    ∃ p d, Swapped env st pair.asset caller fromAsset toAsset amountIn p d
      (execAmm pair st ⟨env,.call (.swap caller fromAsset toAsset amountIn minReturn)⟩) :=
  invoke_of_success (Q := fun u => ∃ p d,
    Swapped env st pair.asset caller fromAsset toAsset amountIn p d u) hrun
    ((swap_sat fromAsset toAsset amountIn minReturn).andThen fun _ _ hw => (sat_pure ()).2 hw)

theorem DefaultFee.exec (h : DefaultFee pair st) (t : AmmTx) :
    DefaultFee pair (execAmm pair st t) := by
  obtain ⟨env,act⟩ := t
  cases act with
  | elsewhere rest =>
    intro p hp
    have hpool : (execAmm pair st ⟨env,.elsewhere rest⟩).amm.pool pair.asset =
      st.amm.pool pair.asset := Function.update_self ..
    rw [hpool] at hp
    exact h p hp
  | call call =>
    cases hrun : failure (call.body pair) env st with
    | some e =>
      have hsame : execAmm pair st ⟨env,.call call⟩ = st := invoke_of_failure hrun
      rwa [hsame]
    | none =>
      have hfee (q : AmmPool)
          (hq : (execAmm pair st ⟨env,.call call⟩).amm.pool pair.asset = some q)
          (hdefault : q.feeBps = defaultFeeBps) :
          DefaultFee pair (execAmm pair st ⟨env,.call call⟩) := by
        intro p hp
        rw [hq,Option.some.injEq] at hp
        rwa [← hp]
      cases call with
      | init initialX initialY =>
        obtain ⟨-,hpool,-⟩ := invoke_of_success (Q := fun u =>
          (0 < initialX ∧ 0 < initialY ∧ st.amm.pool pair.asset = none) ∧
            u.amm.pool pair.asset = some (pair.seeded initialX initialY) ∧
            u.custody = st.custody) hrun (initAmm_sat pair.tokenX pair.tokenY initialX initialY)
        exact hfee _ hpool rfl
      | addLiquidity caller amountX amountY =>
        obtain ⟨p,hdone⟩ := invoke_of_success (Q := fun u => ∃ p,
          Added env st pair.asset caller amountX amountY p u) hrun
          (addLiquidity_sat amountX amountY)
        exact hfee _ hdone.written (h p hdone.found)
      | swap caller fromAsset toAsset amountIn minReturn =>
        obtain ⟨p,d,hdone⟩ := swap_done hrun
        exact hfee _ hdone.written (AmmPool.traded_feeBps.trans (h p hdone.found))
      | setStatus enabled =>
        obtain ⟨p,hp,hpool,-⟩ := invoke_of_success (Q := fun u => ∃ p,
          st.amm.pool pair.asset = some p ∧
            u.amm.pool pair.asset = some { p with enabled := enabled } ∧
            u.custody = st.custody) hrun (setAmmStatus_sat enabled)
        exact hfee _ hpool (h p hp)

theorem keepsGuardrail_iff (h : DefaultFee pair st) (t : AmmTx) :
    KeepsGuardrail pair st t ↔ InputStays pair st t := by
  obtain ⟨env,act⟩ := t
  cases act with
  | elsewhere rest => exact Iff.rfl
  | call call =>
    cases call with
    | swap caller fromAsset toAsset amountIn minReturn =>
      refine imp_congr_right fun hrun => ?_
      obtain ⟨p,d,hdone⟩ := swap_done hrun
      have hfee : p.feeBps ≤ 10000 := by
        rw [h p hdone.found]
        decide
      have hiff (ho : 0 < st.oraclePriceForAsset p.assetX) :=
        guarded_traded_iff ho hfee hdone.shifted.1 hdone.shifted.2 hdone.quoted (hdone.guarded ho)
      constructor
      · rintro hkeeps p₁ d₁ hp₁ hd₁ ho
        rw [hdone.found,Option.some.injEq] at hp₁
        subst hp₁
        rw [hdone.directed,Option.some.injEq] at hd₁
        subst hd₁
        have hguarded := hkeeps _ hdone.written
        rw [AmmPool.traded_assetX] at hguarded
        exact (hiff ho).1 (hguarded ho)
      · intro hstays p₁ hp₁ ho
        rw [hdone.written,Option.some.injEq] at hp₁
        subst hp₁
        rw [AmmPool.traded_assetX] at ho ⊢
        exact (hiff ho).2 (hstays p d hdone.found hdone.directed ho)
    | _ => exact Iff.rfl

/-- In a run that begins before the pool is there, a swap leaves the stored price within the
guardrail exactly if its whole input does not carry the price out of the band. -/
theorem guardrail_kept_iff (ts : List AmmTx) (hfresh : st.amm.pool pair.asset = none) :
    ∀ x ∈ steps (execAmm pair) st ts, KeepsGuardrail pair x.1 x.2 ↔ InputStays pair x.1 x.2 := by
  have hstart : DefaultFee pair st := by
    intro p hp
    rw [hfresh] at hp
    cases hp
  exact (steps_satisfy (I := DefaultFee pair) (C := fun _ _ => True)
    (P := fun s t => KeepsGuardrail pair s t ↔ InputStays pair s t)
    (fun s t hs _ => ⟨keepsGuardrail_iff hs t,hs.exec t⟩) hstart fun _ _ => trivial).1

/-- A pool of a million of each token, the published price of the first one, and funds. -/
def pricedStore (price : Int) : Store where
  config := { admin := some 9 }
  aggregate := Function.update (fun _ => none) 20 (some ⟨price, 5, 3, 18, false, 1⟩)
  custody := { balance := fun _ _ => 5000000 }

/-- The pool is created, and somebody sells so much of the first token. -/
def sellingRun (amountIn : Int) : List AmmTx :=
  [⟨.concrete 100 5 [9], .call (.init 1000000 1000000)⟩,
    ⟨.concrete 101 6 [5], .call (.swap 5 20 21 amountIn 0)⟩]

theorem selling_kept :
    (∀ x ∈ steps (execAmm ammPair) (pricedStore (10 ^ 18)) (sellingRun 26000),
      KeepsGuardrail ammPair x.1 x.2 ↔ InputStays ammPair x.1 x.2) ∧
      ((run (execAmm ammPair) (pricedStore (10 ^ 18)) (sellingRun 26000)).amm.pool "XY").map
        (fun p => (p.reserveX, p.reserveY)) = some (1026000, 974732) :=
  ⟨guardrail_kept_iff (sellingRun 26000) rfl,by decide +kernel⟩

/-- The guard sees 500 basis points below the published price, and the pool is stored at 501. -/
theorem fee_crosses_edge :
    ((run (execAmm ammPair) (pricedStore (10 ^ 18)) (sellingRun 26080)).amm.pool "XY").map
        (fun p => (p.reserveX, p.reserveY)) = some (1026080, 974657) ∧
      computeDeviationBps (974657 * 10 ^ 18 / 1026001) (10 ^ 18) = 500 ∧
      computeDeviationBps (974657 * 10 ^ 18 / 1026080) (10 ^ 18) = 501 ∧
      ¬∀ x ∈ steps (execAmm ammPair) (pricedStore (10 ^ 18)) (sellingRun 26080),
        KeepsGuardrail ammPair x.1 x.2 := by
  refine ⟨by decide +kernel,by decide,by decide,fun h => ?_⟩
  have hswap := h (run (execAmm ammPair) (pricedStore (10 ^ 18)) ((sellingRun 26080).take 1),
    ⟨.concrete 101 6 [5],.call (.swap 5 20 21 26080 0)⟩) (by simp [sellingRun])
  have hguarded := hswap (by decide +kernel) ((ammPair.seeded 1000000 1000000).traded true 26080)
    (by decide +kernel) (by decide +kernel)
  exact absurd hguarded (by decide +kernel)

end Runs

end PriceOracle.Amm
